import LuaDocs.Analyzer
import LuaDocs.Text.Word

/-!
# Documents of the Lua language server

The document is a list of names. A name has a list of definitions, which are merged, and a list of
fields.

## Main definitions

* `LuaLs.definition`, `LuaLs.fieldOf`: a definition and a field.
* `LuaLs.read`: reads a document.
-/

namespace LuaDocs.LuaLs

open Analysis Json Text

/-- The inside of a single name in parentheses with a question mark after them, which is all of the
text; a line end may follow. -/
def optionalName? (s : List Char) : Option (List Char) :=
  let s := match s.getLast? with
    | some '\n' => s.dropLast
    | _ => s
  match s with
  | '(' :: r =>
    match r.reverse with
    | '?' :: ')' :: name =>
      if !name.isEmpty && name.all (fun c => isWord c || c == '.' || c == '-') then
        some name.reverse
      else none
    | _ => none
  | _ => none

/-- A type without the parentheses that the server puts around an optional name. -/
def cleanType (type : String) : String :=
  let s := type.toList
  match optionalName? s with
  | some _ => String.ofList ((s.drop 1).take (s.length - 3) ++ ['?'])
  | none => type

/-- The type under the name `view`. -/
def typeOf (j : Json) : Reader String := look do
  return cleanType (← (← j.entryOr "view" .null).textOr "unknown")

/-- The character is the letter, small or capital. -/
def isLetter (letter c : Char) : Bool :=
  c.toLower == letter || (letter == 'i' && (c == Char.ofNat 0x130 || c == Char.ofNat 0x131))

/-- Drops the letters of a word from the start of a text. -/
def dropWord? : List Char → List Char → Option (List Char)
  | [], s => some s
  | w :: ws, c :: s => if isLetter w c then dropWord? ws s else none
  | _ :: _, [] => none

/-- Drops the mark of a file outside the project. -/
def dropForeign (s : List Char) : List Char :=
  match dropWord? "[foreign]".toList (trimStart s) with
  | some r => trimStart r
  | none => s

/-- Drops the scheme of an address, which stands on the first line. -/
def dropScheme? : List Char → Option (List Char)
  | ':' :: '/' :: '/' :: r => some r
  | '\n' :: _ => none
  | _ :: r => dropScheme? r
  | [] => none

/-- The path that an address of the server stands for. -/
def filePath (address : String) : Path :=
  let s := dropForeign address.toList
  .ofString (String.ofList ((dropScheme? s).getD s))

variable [FileSystem]

/-- The tree's files and the details with the file of a definition. -/
def placed (project : Path) (a : Analysis) (j : Json) (d : Object.Details) :
    Reader (Analysis × Object.Details) := do
  match ← look do (← j.entryOr "file" .null).text? with
  | none => return (a, d)
  | some s =>
    if s.isEmpty then return (a, d)
    let file := (project.join (filePath s)).resolve
    return (a.noteFile file, placeIn project file d)

/-- A value as it is shown in the message on an unknown visibility. -/
def shown : Json → String
  | .null => "None"
  | .bool b => if b then "True" else "False"
  | .int n => toString n
  | .str s => quoted s
  | _ => "[]"

/-- The visibility of a definition. -/
def visibility? (j : Json) : Reader (Option Visibility) := do
  match ← look (j.entry? "visible") with
  | none => return none
  | some v =>
    let known := match v with
      | .str s => Visibility.ofName? s
      | _ => none
    match known with
    | some x => return some x
    | none => throw (.visibility (shown v))

/-- What all definitions have in common. -/
def common (project : Path) (a : Analysis) (j : Json) (text : Option String) :
    Reader (Analysis × Object.Details) := do
  let d := Object.Details.unknown true
  let deprecated ← look (j.entryOr "deprecated" .null)
  let async ← look (j.entryOr "async" .null)
  let visibility ← visibility? j
  let d := { d with
    comment := { d.comment with text }
    deprecated := deprecated.isTrue
    async := async.isTrue
    visibility }
  let (a, d) ← placed project a j d
  let line ← look do (← (← j.entryOr "start" (.arr [.null, .null])).first).whole?
  return (a, { d with line })

/-- A parameter or result. -/
def param (j : Json) : Reader Param := do
  let name ← look (j.entryOr "name" .null)
  let dots := match ← look (j.entryOr "type" .null) with
    | .str "..." => true
    | _ => false
  let name := if dots then some "..." else match name with
    | .str s => some s
    | _ => none
  let type ← typeOf j
  let text ← look do (← j.entryOr "desc" .null).text?
  return { name, type := some type, comment := { Comment.none true with text } }

/-- The parameters or results under a name. -/
def params (j : Json) (key : String) : Reader (List Param) := do
  (← look do (← j.entryOr key (.arr [])).elements).mapM param

/-- The documentation of a definition. -/
def descriptionOf (j : Json) : Reader (Option String) :=
  look do (← j.entryOr "desc" .null).text?

/-- The value is the given text. -/
def isText (s : String) : Json → Bool
  | .str t => s == t
  | _ => false

/-- A field, or a definition that is neither a class nor an alias. -/
def fieldOf (project : Path) (a : Analysis) (j : Json) : Reader (Analysis × Object) := do
  let implicitSelf := isText "setmethod" (← look (j.entryOr "type" .null))
  match ← look (j.entry? "extends") with
  | some (.obj members) =>
    let value := Json.obj members
    let form ← if isText "function" (← look (value.entryOr "type" .null)) then do
        let args ← params value "args"
        let returns ← params value "returns"
        pure (Object.Form.function
          { params := args, returns, generics := [], overloads := [], implicitSelf })
      else do pure (.data (some (← typeOf j)) none)
    let (a, d) ← common project a j (← descriptionOf j)
    return (a, ⟨d, form, []⟩)
  | _ => return (a, .unknown true)

/-- The bases of a class. -/
def basesOf (j : Json) : Reader (List String) := do
  let bases ← (← look do (← j.entryOr "extends" (.arr [])).elements).mapM fun base => do
    if ← look (base.holds "view") then return some (← typeOf base) else return none
  return bases.filterMap id

/-- A definition. -/
def definition (project : Path) (a : Analysis) (j : Json) : Reader (Analysis × Object) := do
  match j with
  | .obj _ =>
    match ← look (j.entryOr "type" .null) with
    | .str "doc.class" =>
      let bases ← basesOf j
      let (a, d) ← common project a j (← descriptionOf j)
      return (a, ⟨d, .class_ ⟨bases, [], none, none⟩, []⟩)
    | .str "doc.alias" =>
      let type ← typeOf j
      let (a, d) ← common project a j (Comment.aliasText (← descriptionOf j))
      return (a, ⟨d, .alias_ (some type) [], []⟩)
    | _ => fieldOf project a j
  | _ => return (a, .unknown true)

/-- The definitions of a name as one object. -/
def definitions (project : Path) (a : Analysis) (j : Json) : Reader (Analysis × Object) := do
  match j with
  | .arr (first :: rest) =>
    let start ← definition project a first
    rest.foldlM (fun (a, o) j => do
      let (a, other) ← definition project a j
      return (a, ← merging (o.merge other))) start
  | _ => return (a, .unknown true)

/-- Adds a field to an object; fields without a name are left out. -/
def field (project : Path) (s : Analysis × Object) (j : Json) : Reader (Analysis × Object) := do
  if !(← look (j.holds "name")) then return s
  match ← look (j.item "name") with
  | .str name =>
    let (a, child) ← fieldOf project s.1 j
    return (a, ← merging (s.2.addChild name child))
  | _ => throw (.access .type)

/-- Adds a name to the tree. -/
def toplevel (project : Path) (a : Analysis) (j : Json) : Reader Analysis := do
  match j with
  | .obj _ =>
    let s ← definitions project a (← look (j.entryOr "defines" (.arr [])))
    let fields ← look do (← j.entryOr "fields" (.arr [])).elements
    let (a, o) ← fields.foldlM (field project) s
    let name ← look do (← j.entryOr "name" (.str "")).text
    a.add name (extractConstructor a.rule o)
  | _ => return a

/-- Reads the document `j` of the project in the directory `project`; what is no list says
nothing. -/
def read (a : Analysis) (project : Path) (j : Json) : Reader Analysis :=
  match j with
  | .arr names => names.foldlM (toplevel project.resolve) a
  | _ => .ok a

end LuaDocs.LuaLs
