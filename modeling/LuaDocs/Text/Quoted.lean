import LuaDocs.Text.Printable

/-!
# Quoted text

Messages show a text in quotes: single quotes unless the text has single quotes and no double
ones. The backslash and the quote are escaped, tab and line ends have short escapes, and a
character without a mark of its own is shown by number with two, four or eight hexadecimal digits.
-/

namespace LuaDocs.Text

/-- `n` in lower-case hexadecimal with at least `width` digits. -/
def hexPadded (width n : Nat) : List Char :=
  let digits := Nat.toDigits 16 n
  List.replicate (width - digits.length) '0' ++ digits

/-- A character shown by number. -/
def numberedChar (c : Char) : List Char :=
  if c.toNat < 0x100 then '\\' :: 'x' :: hexPadded 2 c.toNat
  else if c.toNat < 0x10000 then '\\' :: 'u' :: hexPadded 4 c.toNat
  else '\\' :: 'U' :: hexPadded 8 c.toNat

/-- How a character of a text in quotes `q` is shown. -/
def quoteChar (q c : Char) : List Char :=
  if c == q || c == '\\' then ['\\', c]
  else if c == '\t' then ['\\', 't']
  else if c == '\n' then ['\\', 'n']
  else if c == '\r' then ['\\', 'r']
  else if isPrintable c then [c]
  else numberedChar c

/-- The quote that surrounds a text: double only if that saves escaping. -/
def quoteFor (s : List Char) : Char :=
  if s.contains '\'' && !s.contains '"' then '"' else '\''

/-- The text in quotes. -/
def quoted (s : String) : String :=
  let q := quoteFor s.toList
  String.ofList (q :: s.toList.flatMap (quoteChar q) ++ [q])

/-- The text in quotes, with every character outside ASCII shown by number. -/
def quotedAscii (s : String) : String :=
  String.ofList ((quoted s).toList.flatMap fun c => if c.toNat < 128 then [c] else numberedChar c)

/-- Texts in quotes, as a list in brackets. -/
def quotedList (items : List String) : String :=
  "[" ++ String.intercalate ", " (items.map quoted) ++ "]"

end LuaDocs.Text
