import LuaDocs.Text.Split

/-!
# Lines

Two notions of a line are in use. Documentation comments are made of lines that end in a line
feed; text that is handed on for reading is cut at every line boundary of Unicode.
-/

namespace LuaDocs.Text

/-- The lines of a text: what stands between its line feeds. -/
def lines (s : List Char) : List (List Char) := splitAt '\n' s

/-- Joins lines by line feeds. -/
def unlines (ls : List (List Char)) : List Char := joinWith '\n' ls

/-- Joining the lines of a text gives the text back. -/
theorem unlines_lines (s : List Char) : unlines (lines s) = s := joinWith_splitAt '\n' s

/-- A character that ends a line. -/
def isLineEnd (c : Char) : Bool :=
  c == '\n' || c == '\r' || c == Char.ofNat 0xb || c == Char.ofNat 0xc || c == Char.ofNat 0x1c ||
  c == Char.ofNat 0x1d || c == Char.ofNat 0x1e || c == Char.ofNat 0x85 ||
  c == Char.ofNat 0x2028 || c == Char.ofNat 0x2029

/-- The lines of a text whose first line begins with the reversed characters `line`; a carriage
return with a line feed after it ends one line, and nothing stands after the last line end. -/
def splitLinesFrom (line : List Char) : List Char → List (List Char)
  | [] => if line.isEmpty then [] else [line.reverse]
  | '\r' :: '\n' :: r => line.reverse :: splitLinesFrom [] r
  | c :: r =>
    if isLineEnd c then line.reverse :: splitLinesFrom [] r else splitLinesFrom (c :: line) r

/-- The lines of a text between line boundaries of any kind. -/
def splitLines (s : List Char) : List (List Char) := splitLinesFrom [] s

/-- A blank that counts as indentation. -/
def isIndent (c : Char) : Bool := c == ' ' || c == '\t'

/-- The longest text with which both texts start. -/
def commonStart : List Char → List Char → List Char
  | a :: s, b :: t => if a == b then a :: commonStart s t else []
  | _, _ => []

/-- The indentation that all lines with a mark on them have in common. -/
def margin (ls : List (List Char)) : List Char :=
  match (ls.filter fun l => !l.all isIndent).map (fun l => l.takeWhile isIndent) with
  | [] => []
  | m :: ms => ms.foldl commonStart m

/-- The text without the indentation that its lines have in common; lines of nothing but
indentation become empty. -/
def dedent (s : List Char) : List Char :=
  let ls := (lines s).map fun l => if l.all isIndent then [] else l
  let m := margin ls
  unlines (ls.map fun l => if m.isPrefixOf l then l.drop m.length else l)

end LuaDocs.Text
