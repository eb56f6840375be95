import LuaDocs.Field

/-!
# Gathering fields

A list of fields may document the parameters and results of a function, one field for each text and
one for each type. The fields that do are gathered into one field for the parameters and one for
the results, at the place of the first of them. All other fields are kept, with a capital letter.

This stands for what Sphinx is assumed to do with the fields of a body.

## Main definitions

* `Field.known?`: what the name of a field stands for.
* `Field.Gathered`: the fields gathered so far.
* `Field.transform`: the new list of fields.
-/

namespace LuaDocs.Field

open Text

/-- What a field gives. -/
inductive Part where
  | text
  | type
  deriving DecidableEq, Repr

/-- The group and part that the name of a field stands for. -/
def known? (name : String) : Option (Group × Part) :=
  match name with
  | "param" | "parameter" | "arg" | "argument" => some (.parameters, .text)
  | "paramtype" | "type" => some (.parameters, .type)
  | "return" | "returns" => some (.returns, .text)
  | "returntype" | "rtype" => some (.returns, .type)
  | _ => none

/-- The first word of a text and the rest; the rest is empty if there is one word only, and then
the word is the text as it stands. -/
def firstWord (s : String) : String × String :=
  let r := trimStart s.toList
  let word := r.takeWhile fun c => !isBlank c
  let rest := trimStart (r.dropWhile fun c => !isBlank c)
  if rest.isEmpty then (s, "") else (String.ofList word, String.ofList rest)

/-- The last word of a text and what stands before it. -/
def lastWord? (s : String) : Option (String × String) :=
  let r := trimEnd s.toList
  let word := (r.reverse.takeWhile fun c => !isBlank c).reverse
  let before := trimEnd (r.reverse.dropWhile fun c => !isBlank c).reverse
  if before.isEmpty then none else some (String.ofList before, String.ofList word)

/-- An entry of the new list. -/
inductive Entry where
  /-- A field that is kept. -/
  | kept (field : Node)
  /-- The place of a gathered field. -/
  | group (g : Group)

/-- The items and types of a group. -/
structure Gathered where
  /-- The items: name and text. -/
  items : List (String × List Node)
  types : Table (List Node)

/-- Nothing is gathered. -/
def Gathered.empty : Gathered := ⟨[], []⟩

/-- What is gathered for the two groups, and the entries of the new list. -/
structure Collection where
  parameters : Gathered
  returns : Gathered
  entries : List Entry

namespace Collection

/-- Nothing is collected. -/
def empty : Collection := ⟨.empty, .empty, []⟩

/-- What is gathered for a group. -/
def get (c : Collection) : Group → Gathered
  | .parameters => c.parameters
  | .returns => c.returns

/-- Changes what is gathered for a group. -/
def set (c : Collection) (g : Group) (x : Gathered) : Collection :=
  match g with
  | .parameters => { c with parameters := x }
  | .returns => { c with returns := x }

/-- Notes the type of an item. -/
def addType (c : Collection) (g : Group) (name : String) (type : List Node) : Collection :=
  let x := c.get g
  c.set g { x with types := x.types.set name type }

/-- Adds an item; the first item of a group takes the place of the group. -/
def addItem (c : Collection) (g : Group) (name : String) (content : List Node) : Collection :=
  let x := c.get g
  let c := c.set g { x with items := x.items ++ [(name, [.plain .inline content])] }
  if x.items.isEmpty then { c with entries := c.entries ++ [.group g] } else c

/-- Keeps a field. -/
def keep (c : Collection) (field : Node) : Collection :=
  { c with entries := c.entries ++ [.kept field] }

end Collection

/-- Why fields cannot be gathered. -/
inductive Error where
  /-- A type is loose text. -/
  | loose
  /-- A field has no name. -/
  | nameless
  deriving DecidableEq, Repr

/-- A node that can stand in running text. -/
def isInline : Node → Bool
  | .text _ => true
  | .element (.plain t) _ =>
    t == .inline || t == .strong || t == .literalStrong || t == .sigName || t == .sigSpace ||
    t == .sigOperator || t == .sigPunctuation || t == .sigKeyword || t == .sigKeywordType ||
    t == .sigLiteralNumber || t == .sigLiteralString || t == .sigLiteralChar || t == .sigIndent
  | .element (.pending _) _ | .element (.literal _) _ | .element (.literalEmphasis _) _
  | .element (.reference _ _) _ | .element (.target _ _) _ => true
  | _ => false

/-- The paragraph that is all of a body. -/
def onlyParagraph? (body : List Node) : Option (List Node) :=
  match body with
  | .element (.plain .paragraph) ns :: rest =>
    if rest.all fun n => match n with
      | .element (.systemMessage _) _ => true
      | _ => false
    then some ns else none
  | _ => none

/-- The body of a kept field. A type without a name is made a reference. -/
def keptBody (type : Bool) (body : List Node) : List Node :=
  let content := (onlyParagraph? body).getD body
  match type, content with
  | true, [.text s] =>
    let ref : Node := .element (.pending ⟨"lua", "obj", s, false, none, none, none⟩) [.text s]
    match onlyParagraph? body with
    | some _ => .plain .paragraph [ref] :: body.drop 1
    | none => [.plain .paragraph [ref]]
  | _, _ => body

/-- The field with its name in capitals and its body made ready. -/
def keptField (type : Bool) (kind arg : String) (nameNodes body : List Node) :
    Except Error Node :=
  match nameNodes with
  | [] => .error .nameless
  | _ :: rest =>
    let name := capitalizeFirst kind ++ (if arg.isEmpty then "" else " " ++ arg)
    .ok (.plain .field
      [.plain .fieldName (.text name :: rest), .plain .fieldBody (keptBody type body)])

/-- Collects one field. -/
def collect (c : Collection) (nameNodes body : List Node) : Except Error Collection :=
  let (kind, arg) := firstWord (Node.plain .fieldName nameNodes).plainText
  let content := (onlyParagraph? body).getD body
  match known? kind with
  | none => do return c.keep (← keptField false kind arg nameNodes body)
  | some (g, part) =>
    if arg.isEmpty then do return c.keep (← keptField (part == .type) kind arg nameNodes body)
    else match part with
      | .type =>
        let type := content.filter isInline
        .ok (if type.isEmpty then c else c.addType g arg type)
      | .text =>
        match lastWord? arg with
        | some (type, name) => .ok ((c.addType g name [.text type]).addItem g name content)
        | none => .ok (c.addItem g arg content)

/-- Collects the fields of a list. -/
def collectAll (fields : List Node) : Except Error Collection :=
  fields.foldlM (fun c f => match f.children with
    | [name, body] => collect c name.children body.children
    | _ => .ok c) .empty

/-- The new list of fields, where the context is `context`. -/
def transform (context : Context) (fields : List Node) : Except Error (List Node) := do
  let c ← collectAll fields
  c.entries.mapM fun e => match e with
    | .kept f => .ok f
    | .group g =>
      let x := c.get g
      match make g (some context) x.types x.items with
      | some (node, _) => .ok node
      | none => .error .loose

/-- Gathers the fields of all lists of fields among some nodes. -/
def transformAll (context : Context) (nodes : List Node) : Except Error (List Node) :=
  nodes.mapM fun n => match n with
    | .element (.plain .fieldList) fields => do
      return .plain .fieldList (← transform context fields)
    | n => .ok n

end LuaDocs.Field
