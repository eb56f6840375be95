import LuaDocs.TypeExpr.Token

/-!
# Normal form of type expressions

A type expression is shown with one way of spacing: no blanks but those after a separating sign,
and before `=` and `|`. The arrow of a function type is shown as a colon.
-/

namespace LuaDocs.TypeExpr

namespace Token

/-- How a token is shown in a normal form. -/
def normal : Token → List Char
  | .dots => ['.', '.', '.']
  | .keyword => ['f', 'u', 'n']
  | .literal text => text
  | .number text => text
  | .reference name marks => name ++ List.replicate marks '?'
  | .label name => name
  | .separator sign => if sign == '=' || sign == '|' then [' ', sign, ' '] else [sign, ' ']
  | .bracket sign => [sign]
  | .arrow => [':', ' ']
  | .symbols text => text
  | .other char => [char]

end Token

/-- The normal form of a type expression. -/
def normalizeChars (s : List Char) : List Char := (Token.lex s).flatMap Token.normal

/-- `normalizeChars` on strings. -/
def normalize (s : String) : String := String.ofList (normalizeChars s.toList)

end LuaDocs.TypeExpr
