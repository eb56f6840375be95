import LuaDocs.Json
import LuaDocs.Text.Search

/-!
# Looking into a document

An analyzer's document is taken as it comes: it is looked into where something is needed, and a
value of the wrong shape is an error at that place only.
-/

namespace LuaDocs.Json

/-- Why something cannot be found in a document. -/
inductive AccessError where
  /-- An object has no member of the name. -/
  | missing (key : String)
  /-- The value is of a type that cannot be used at this place. -/
  | type
  /-- The value is of a type that does not have what is asked of it. -/
  | member
  /-- A list is too short. -/
  | index
  deriving DecidableEq, Repr

/-- What looking into a document gives. -/
abbrev Access (α : Type) := Except AccessError α

/-- The member of an object, which has to be there. -/
def item (j : Json) (key : String) : Access Json :=
  match j with
  | .obj members =>
    match Table.get? members key with
    | some v => .ok v
    | none => .error (.missing key)
  | _ => .error .type

/-- The member of an object, which may be missing. -/
def entry? (j : Json) (key : String) : Access (Option Json) :=
  match j with
  | .obj members => .ok (Table.get? members key)
  | _ => .error .member

/-- The member of an object, with `default` for a missing one. -/
def entryOr (j : Json) (key : String) (default : Json) : Access Json := do
  return (← j.entry? key).getD default

/-- The value has something under the name: a member, an element or a piece of text. -/
def holds (j : Json) (key : String) : Access Bool :=
  match j with
  | .obj members => .ok (Table.has members key)
  | .arr items => .ok (items.any fun i => match i with
    | .str s => s == key
    | _ => false)
  | .str s => .ok (Text.occurs key.toList s.toList)
  | _ => .error .type

/-- The elements of a value, one after the other: the items of a list, the names of the members of
an object, the characters of a text. -/
def elements (j : Json) : Access (List Json) :=
  match j with
  | .arr items => .ok items
  | .obj members => .ok (members.map fun m => .str m.1)
  | .str s => .ok (s.toList.map fun c => .str (String.singleton c))
  | _ => .error .type

/-- The first element of a list. -/
def first (j : Json) : Access Json :=
  match j with
  | .arr (v :: _) => .ok v
  | .arr [] => .error .index
  | .obj _ => .error (.missing "0")
  | .str s =>
    match s.toList with
    | c :: _ => .ok (.str (String.singleton c))
    | [] => .error .index
  | _ => .error .type

/-- A text that is to be cut or trimmed. -/
def text (j : Json) : Access String :=
  match j with
  | .str s => .ok s
  | _ => .error .member

/-- A text, or none for a value that does not count as set. -/
def text? (j : Json) : Access (Option String) :=
  match j with
  | .str s => .ok (some s)
  | j => if j.isTrue then .error .type else .ok none

/-- A text, with `default` for a value that does not count as set. -/
def textOr (j : Json) (default : String) : Access String :=
  match j with
  | .str s => .ok (if s.isEmpty then default else s)
  | j => if j.isTrue then .error .type else .ok default

/-- The texts of a list; nothing for a value that does not count as set. -/
def texts (j : Json) : Access (List String) := do
  if j.isTrue then
    (← j.elements).mapM fun v => match v with
      | .str s => .ok s
      | _ => .error .type
  else .ok []

/-- A whole number, or none. -/
def whole? (j : Json) : Access (Option Int) :=
  match j with
  | .int n => .ok (some n)
  | .bool b => .ok (some (if b then 1 else 0))
  | .null => .ok none
  | _ => .error .type

/-- A whole number. -/
def whole (j : Json) : Access Int := do
  match ← j.whole? with
  | some n => .ok n
  | none => .error .type

end LuaDocs.Json
