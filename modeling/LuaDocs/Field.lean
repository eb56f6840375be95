import LuaDocs.Signature.Writer
import LuaDocs.Table

/-!
# Fields for parameters and results

The fields of a description that document parameters or results are gathered into one field: a
paragraph for a single item, a list for several. An item shows its name, its type in parentheses
and its text.

`Field.settle` is the part of the domain. `Field.paragraph` and `Field.make` stand for the typed
fields of Sphinx, which are assumed to show each type once, to make a type that is a single text a
reference, and to leave out a text that is blank.
-/

namespace LuaDocs.Field

open Text

/-- The two kinds of gathered fields. -/
inductive Group where
  | parameters
  | returns
  deriving DecidableEq, Repr

/-- The title of a gathered field. -/
def Group.label : Group → String
  | .parameters => "Parameters"
  | .returns => "Returns"

/-- The nodes are a single text. -/
def onlyText? (nodes : List Node) : Option String :=
  match nodes with
  | [.text s] => some s
  | _ => none

/-- The nodes that show a type that was given as text. Without a context the text stays. -/
def showType (context : Option Context) (type : String) : List Node :=
  match context with
  | some c => TypeExpr.display c type
  | none => [.text type]

/-- Gives an item its final name and its type the nodes that show it: a question mark at the end
of the type is moved to the name. -/
def settleItem (context : Option Context) (types : Table (List Node)) (name : String) :
    String × Table (List Node) :=
  match (types.get? name).bind onlyText? with
  | none => (name, types)
  | some type =>
    match type.toList.getLast? with
    | some '?' =>
      let shown := String.ofList (Signature.dropParens type.toList.dropLast)
      let name' := name.push '?'
      (name', (types.erase name).set name' (showType context shown))
    | _ => (name, types.set name (showType context type))

/-- Gives all items their final names and types, one after the other. -/
def settle (context : Option Context) :
    Table (List Node) → List (String × List Node) →
      List (String × List Node) × Table (List Node)
  | types, [] => ([], types)
  | types, (name, content) :: rest =>
    let (name, types) := settleItem context types name
    let (items, types) := settle context types rest
    ((name, content) :: items, types)

/-- The nodes that show a type which is a single text: a reference to it. -/
def textType (context : Option Context) (type : String) : List Node :=
  match context with
  | some c => [.plain .inline [Role.render c .literal "obj" type]]
  | none =>
    [.element (.pending ⟨"lua", "obj", type, false, none, none, none⟩)
      [.holding (.literalEmphasis []) type]]

/-- The paragraph of an item, and the types that are left; a type is shown once. Fails if the type
is loose text. -/
def paragraph (context : Option Context) (types : Table (List Node))
    (item : String × List Node) : Option (Node × Table (List Node)) :=
  let name := Node.leaf .literalStrong item.1
  let shown := match types.get? item.1 with
    | none => []
    | some type =>
      .text " (" :: (match onlyText? type with
        | some s => textType context s
        | none => type) ++ [.text ")"]
  let text :=
    if item.2.any fun n => !allBlank n.plainText.toList then .text " -- " :: item.2 else []
  (Node.attach (.plain .paragraph) (name :: shown ++ text)).map fun p => (p, types.erase item.1)

/-- The paragraphs of items, and the types that are left. -/
def paragraphs (context : Option Context) :
    Table (List Node) → List (String × List Node) → Option (List Node × Table (List Node))
  | types, [] => some ([], types)
  | types, item :: rest => do
    let (p, types) ← paragraph context types item
    let (ps, types) ← paragraphs context types rest
    return (p :: ps, types)

/-- The gathered field of the items, and the types that were not used. -/
def make (group : Group) (context : Option Context) (types : Table (List Node))
    (items : List (String × List Node)) : Option (Node × Table (List Node)) := do
  let (items, types) := settle context types items
  let (ps, types) ← paragraphs context types items
  let body := match ps with
    | [p] => p
    | ps => .plain .bulletList (ps.map fun p => .plain .listItem [p])
  return (.plain .field [.leaf .fieldName group.label, .plain .fieldBody [body]], types)

end LuaDocs.Field
