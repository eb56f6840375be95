import LuaDocs.Role
import LuaDocs.TypeExpr

/-!
# Type expressions as nodes

Each token of a type expression is shown by nodes of its own; references become references to the
documentation of the type. A character without a role is shown as text; when a second one follows
it directly the two are run together into loose text.
-/

namespace LuaDocs.TypeExpr

/-- The nodes of a token, after the nodes `before`. -/
def Token.display (context : Context) (before : List Node) : Token → List Node
  | .dots => before ++ [.leaf .sigName "..."]
  | .keyword => before ++ [.leaf .sigKeyword "fun"]
  | .literal text => before ++ [.leaf .sigLiteralString (String.ofList text)]
  | .number text => before ++ [.leaf .sigLiteralNumber (String.ofList text)]
  | .reference name marks =>
    before ++ [Role.render context .literal "_auto" (String.ofList name)] ++
      (if marks == 0 then [] else [.punctuation (String.ofList (List.replicate marks '?'))])
  | .label name => before ++ [.leaf .sigName (String.ofList name)]
  | .separator sign =>
    before ++ (if sign == '=' || sign == '|' || sign == '&' then [.space] else []) ++
      [.punctuation (String.singleton sign), .space]
  | .bracket sign => before ++ [.punctuation (String.singleton sign)]
  | .arrow => before ++ [.punctuation ":", .space]
  | .symbols text => before ++ [.punctuation (String.ofList text)]
  | .other char =>
    match before.getLast? with
    | some (.text s) => before.dropLast ++ [.loose (s.push char)]
    | _ => before ++ [.text (String.singleton char)]

/-- The nodes of a type expression where the context is `context`. -/
def display (context : Context) (type : String) : List Node :=
  (Token.lex type.toList).foldl (Token.display context) []

end LuaDocs.TypeExpr
