/-!
# Bytes as text

A program prints bytes, which are read as UTF-8. Bytes that are no text are not lost silently: the
longest start of a character that cannot go on is shown as one replacement character.
-/

namespace LuaDocs.Text

/-- What is shown for bytes that are no character. -/
def replacement : Char := '�'

/-- What the first byte of a character of several bytes says. -/
structure Utf8Lead where
  /-- The first bits of the code point. -/
  value : Nat
  /-- The number of bytes that follow. -/
  more : Nat
  /-- The least value of the next byte. -/
  low : Nat
  /-- The greatest value of the next byte. -/
  high : Nat
  deriving DecidableEq, Repr

/-- The first bytes of characters of several bytes. The range of the next byte leaves out code
points that have a shorter form, surrogates, and what lies above the last code point. -/
def utf8Lead? (b : Nat) : Option Utf8Lead :=
  if b < 0xc2 then none
  else if b < 0xe0 then some ⟨b - 0xc0, 1, 0x80, 0xbf⟩
  else if b < 0xf0 then
    some ⟨b - 0xe0, 2, if b == 0xe0 then 0xa0 else 0x80, if b == 0xed then 0x9f else 0xbf⟩
  else if b < 0xf5 then
    some ⟨b - 0xf0, 3, if b == 0xf0 then 0x90 else 0x80, if b == 0xf4 then 0x8f else 0xbf⟩
  else none

/-- Reads `more` bytes after the first bits `value` of a code point, of which the next one is
between `low` and `high`: the code point, unless a byte does not fit, and the bytes left. -/
def utf8Tail (low high value : Nat) : Nat → List Nat → Option Nat × List Nat
  | 0, bs => (some value, bs)
  | _ + 1, [] => (none, [])
  | more + 1, b :: bs =>
    if low ≤ b && b ≤ high then utf8Tail 0x80 0xbf (value * 64 + (b - 0x80)) more bs
    else (none, b :: bs)

theorem length_utf8Tail_le (low high value more : Nat) (bs : List Nat) :
    (utf8Tail low high value more bs).2.length ≤ bs.length := by
  induction bs generalizing low high value more with
  | nil => cases more <;> simp [utf8Tail]
  | cons b bs ih =>
    cases more with
    | zero => simp [utf8Tail]
    | succ more =>
      rw [utf8Tail]
      split
      · exact Nat.le_succ_of_le (ih _ _ _ _)
      · simp

/-- The text of a list of bytes. -/
def utf8Decode (bytes : List Nat) : List Char :=
  match bytes with
  | [] => []
  | b :: bs =>
    match utf8Lead? b with
    | none => (if b < 0x80 then Char.ofNat b else replacement) :: utf8Decode bs
    | some lead =>
      let tail := utf8Tail lead.low lead.high lead.value lead.more bs
      (match tail.1 with
        | some code => Char.ofNat code
        | none => replacement) :: utf8Decode tail.2
termination_by bytes.length
decreasing_by
  · simp
  · have := length_utf8Tail_le lead.low lead.high lead.value lead.more bs
    simp only [List.length_cons]
    omega

end LuaDocs.Text
