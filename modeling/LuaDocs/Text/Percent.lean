/-!
# Percent encoding

A text is written with a limited set of characters by writing every other character as its UTF-8
bytes, each as a percent sign with two hexadecimal digits.
-/

namespace LuaDocs.Text

/-- A character that never needs encoding. -/
def isUnreserved (c : Char) : Bool :=
  c.isAlphanum || c == '_' || c == '.' || c == '-' || c == '~'

/-- A hexadecimal digit, the letters as capitals. -/
def hexDigit (n : Nat) : Char :=
  if n < 10 then Char.ofNat ('0'.toNat + n) else Char.ofNat ('A'.toNat + (n - 10))

/-- A byte as a sign with two hexadecimal digits. -/
def percentByte (b : UInt8) : List Char :=
  ['%', hexDigit (b.toNat / 16), hexDigit (b.toNat % 16)]

/-- A character in percent encoding. -/
def percentChar (safe : Char → Bool) (c : Char) : List Char :=
  if isUnreserved c || safe c then [c]
  else (String.singleton c).toUTF8.toList.flatMap percentByte

/-- A text in percent encoding; the characters that satisfy `safe` are kept as well. -/
def percentEncode (safe : Char → Bool) (s : List Char) : List Char := s.flatMap (percentChar safe)

end LuaDocs.Text
