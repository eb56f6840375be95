import LuaDocs.Text.Ranges

/-!
# Blank characters

The white space of Unicode together with the four information separators. Blanks separate words,
stand around names and types without meaning anything, and are trimmed from both ends of a text.
-/

namespace LuaDocs.Text

/-- The code points of blank characters. -/
def blankRanges : List (Nat × Nat) :=
  [(0x9, 0xd), (0x1c, 0x20), (0x85, 0x85), (0xa0, 0xa0), (0x1680, 0x1680), (0x2000, 0x200a),
    (0x2028, 0x2029), (0x202f, 0x202f), (0x205f, 0x205f), (0x3000, 0x3000)]

/-- A character that separates words and leaves no mark. -/
def isBlank (c : Char) : Bool := inRanges blankRanges c

/-- The text without the blanks it starts with. -/
def trimStart (s : List Char) : List Char := s.dropWhile isBlank

/-- The text without the blanks it ends with. -/
def trimEnd (s : List Char) : List Char := (s.reverse.dropWhile isBlank).reverse

/-- The text without the blanks at its ends. -/
def trim (s : List Char) : List Char := trimEnd (trimStart s)

/-- The text with every blank removed. -/
def squeeze (s : List Char) : List Char := s.filter fun c => !isBlank c

/-- Every character is blank; the empty text is blank. -/
def allBlank (s : List Char) : Bool := s.all isBlank

/-- The words of a text whose first word begins with the reversed characters `word`. -/
def wordsFrom (word : List Char) : List Char → List (List Char)
  | [] => if word.isEmpty then [] else [word.reverse]
  | c :: r =>
    if isBlank c then
      if word.isEmpty then wordsFrom [] r else word.reverse :: wordsFrom [] r
    else wordsFrom (c :: word) r

/-- The maximal runs of characters that are not blank. -/
def words (s : List Char) : List (List Char) := wordsFrom [] s

/-- `trim` on strings. -/
def strip (s : String) : String := String.ofList (trim s.toList)

/-! ### Trimming -/

theorem trimStart_of_head {c : Char} {s : List Char} (h : isBlank c = false) :
    trimStart (c :: s) = c :: s := by
  simp [trimStart, h]

@[simp] theorem trimStart_trimStart (s : List Char) : trimStart (trimStart s) = trimStart s := by
  induction s with
  | nil => rfl
  | cons c r ih => by_cases h : isBlank c <;> simp_all [trimStart]

@[simp] theorem trimEnd_trimEnd (s : List Char) : trimEnd (trimEnd s) = trimEnd s := by
  have := trimStart_trimStart s.reverse
  simpa [trimEnd, trimStart] using this

theorem squeeze_trimStart (s : List Char) : squeeze (trimStart s) = squeeze s := by
  induction s with
  | nil => rfl
  | cons c r ih => by_cases h : isBlank c <;> simp_all [trimStart, squeeze]

theorem squeeze_trimEnd (s : List Char) : squeeze (trimEnd s) = squeeze s := by
  have := squeeze_trimStart s.reverse
  simp only [squeeze, trimStart, List.filter_reverse] at this
  simp only [squeeze, trimEnd, List.filter_reverse, this, List.reverse_reverse]

/-- Trimming removes blanks only. -/
theorem squeeze_trim (s : List Char) : squeeze (trim s) = squeeze s := by
  rw [trim, squeeze_trimEnd, squeeze_trimStart]

theorem length_trimStart_le (s : List Char) : (trimStart s).length ≤ s.length :=
  (List.dropWhile_sublist _).length_le

theorem length_trimEnd_le (s : List Char) : (trimEnd s).length ≤ s.length := by
  have := length_trimStart_le s.reverse
  simpa [trimEnd, trimStart] using this

theorem length_trim_le (s : List Char) : (trim s).length ≤ s.length :=
  Nat.le_trans (length_trimEnd_le _) (length_trimStart_le _)

end LuaDocs.Text
