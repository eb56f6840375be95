/-!
# Cutting a text at a character

A text is cut at every occurrence of the character, and joining the parts undoes it.
-/

namespace LuaDocs.Text

/-- What stands before, between and after the occurrences of `sep`. -/
def splitAt (sep : Char) : List Char → List (List Char)
  | [] => [[]]
  | c :: r =>
    if c == sep then [] :: splitAt sep r
    else match splitAt sep r with
      | [] => [[c]]
      | l :: ls => (c :: l) :: ls

/-- Texts with `sep` between them. -/
def joinWith (sep : Char) (parts : List (List Char)) : List Char := [sep].intercalate parts

theorem splitAt_ne_nil (sep : Char) (s : List Char) : splitAt sep s ≠ [] := by
  cases s with
  | nil => simp [splitAt]
  | cons c r =>
    rw [splitAt]
    split
    · simp
    · split <;> simp

theorem joinWith_cons_of_ne_nil {sep : Char} {l : List Char} {ls : List (List Char)}
    (h : ls ≠ []) : joinWith sep (l :: ls) = l ++ sep :: joinWith sep ls := by
  cases ls with
  | nil => exact absurd rfl h
  | cons m ms => simp [joinWith, List.intercalate]

/-- Joining the parts of a text gives the text back. -/
theorem joinWith_splitAt (sep : Char) (s : List Char) : joinWith sep (splitAt sep s) = s := by
  induction s with
  | nil => rfl
  | cons c r ih =>
    rw [splitAt]
    split
    · next h =>
      rw [joinWith_cons_of_ne_nil (splitAt_ne_nil sep r), ih]
      simp_all
    · split
      · next h => exact absurd h (splitAt_ne_nil sep r)
      · next l ls h =>
        rw [h] at ih
        cases ls with
        | nil => simp_all [joinWith]
        | cons m ms =>
          rw [joinWith_cons_of_ne_nil (by simp)] at ih ⊢
          simp [← ih]

/-- The parts of a string between the occurrences of `sep`. -/
def splitString (sep : Char) (s : String) : List String :=
  (splitAt sep s.toList).map String.ofList

/-- Strings with `sep` between them. -/
def joinStrings (sep : Char) (parts : List String) : String :=
  String.ofList (joinWith sep (parts.map String.toList))

end LuaDocs.Text
