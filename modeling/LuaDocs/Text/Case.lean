import LuaDocs.Text.Case.Table

/-!
# Letter case

Lower case, title case and case folding of texts. A letter may become several letters, and a capital
sigma at the end of a word becomes a final sigma.
-/

namespace LuaDocs.Text

namespace Case

/-- The image of a character: several letters, one letter, or the character itself. -/
def image (runs : List Run) (expansions : List (Nat × List Nat)) (c : Char) : List Char :=
  match expansions.lookup c.toNat with
  | some ns => ns.map Char.ofNat
  | none => match moved? runs c.toNat with
    | some n => [Char.ofNat n]
    | none => [c]

/-- The lower case of a letter that stands alone. -/
def lowerChar : Char → List Char := image lowerRuns lowerExpansions

/-- The title case of a letter. -/
def titleChar : Char → List Char := image titleRuns titleExpansions

/-- The folded form of a letter. -/
def foldChar : Char → List Char := image foldRuns foldExpansions

/-- A letter that has case. -/
def isCased (c : Char) : Bool := inRanges casedRanges c

/-- A character that does not interrupt a word for the rules of case. -/
def isIgnorable (c : Char) : Bool := inRanges ignorableRanges c

/-- The first character of `s` that case rules do not look through has case. -/
def meetsCased (s : List Char) : Bool :=
  match s.dropWhile isIgnorable with
  | [] => false
  | c :: _ => isCased c

/-- The lower case of `c` between the text `before` (nearest character first) and the text
`after`: a capital sigma that ends a word becomes a final sigma. -/
def lowerIn (before : List Char) (c : Char) (after : List Char) : List Char :=
  if c == 'Σ' then
    if meetsCased before && !meetsCased after then ['ς'] else ['σ']
  else lowerChar c

/-- Lower case of what follows the text `before`, whose nearest character is first. -/
def lowerFrom (before : List Char) : List Char → List Char
  | [] => []
  | c :: r => lowerIn before c r ++ lowerFrom (c :: before) r

/-- Title case of what follows the text `before`: a letter after a letter with case is lowered,
any other is capitalised. -/
def titleFrom (before : List Char) : List Char → List Char
  | [] => []
  | c :: r =>
    (match before with
      | b :: _ => if isCased b then lowerIn before c r else titleChar c
      | [] => titleChar c) ++ titleFrom (c :: before) r

end Case

/-- The text in lower case. -/
def lower (s : String) : String := String.ofList (Case.lowerFrom [] s.toList)

/-- The text with each word capitalised and otherwise in lower case. -/
def titleCase (s : String) : String := String.ofList (Case.titleFrom [] s.toList)

/-- The text in the form in which texts that differ only in case are equal. -/
def caseFold (s : String) : String := String.ofList (s.toList.flatMap Case.foldChar)

/-- The text with its first character in upper case, if it is an ASCII letter. -/
def capitalizeFirst (s : String) : String :=
  match s.toList with
  | [] => s
  | c :: r => String.ofList (c.toUpper :: r)

end LuaDocs.Text
