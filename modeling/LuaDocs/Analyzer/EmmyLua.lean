import LuaDocs.Analyzer
import LuaDocs.Text.Blank

/-!
# Documents of EmmyLua

The document has a list of modules, a list of types (classes, enumerations, aliases) and a list of
globals (tables and variables), and the configuration that the analyzer ran with.

## Main definitions

* `EmmyLua.common`, `EmmyLua.located`, `EmmyLua.locatedAll`: the parts that all objects have.
* `EmmyLua.members`: adds members to an object.
* `EmmyLua.read`: reads a document.
-/

namespace LuaDocs.EmmyLua

open Analysis Json

/-- The visibility of the given name; internal objects count as private. -/
def visibility (name : Json) : Option Visibility :=
  match name with
  | .str "internal" => some .private_
  | .str s => Visibility.ofName? s
  | _ => none

/-- The version of the language of the given name. -/
def runtimeVersion (name : Json) : Option String :=
  match name with
  | .str "Lua5.1" => some "5.1"
  | .str "Lua5.2" => some "5.2"
  | .str "Lua5.3" => some "5.3"
  | .str "Lua5.4" => some "5.4"
  | .str "Lua5.5" => some "5.5"
  | .str "LuaJIT" => some "jit"
  | .str "LuaLatest" => some "5.4"
  | _ => none

/-- Name and value of an option: the first word and the rest. -/
def optionOf (content : String) : Option (String × String) :=
  let value := Text.trim content.toList
  if value.isEmpty then none
  else
    let name := value.takeWhile fun c => !Text.isBlank c
    let rest := Text.trimStart (value.dropWhile fun c => !Text.isBlank c)
    some (String.ofList name, String.ofList rest)

/-- Details with what a tag of the comment says. -/
def tag (d : Object.Details) (t : Json) : Reader Object.Details := do
  match ← look (t.item "tag_name") with
  | .str "see" =>
    let content ← look do (← t.item "content").text
    return { d with see := d.see ++ [Text.strip content] }
  | .str "doc" =>
    let content ← look do (← t.item "content").text
    match optionOf content with
    | some (name, value) =>
      return { d with comment := { d.comment with options := d.comment.options.set name value } }
    | none => return d
  | .str "doctype" =>
    let content ← look do (← t.item "content").text
    return { d with comment := { d.comment with doctype := some (Text.strip content) } }
  | _ => return d

/-- Details with the tags of the comment. -/
def tags (d : Object.Details) (data : Json) : Reader Object.Details := do
  let list ← look (data.entryOr "tag_content" .null)
  if list.isTrue then (← look list.elements).foldlM tag d else return d

/-- What all objects have in common. -/
def common (data : Json) : Reader Object.Details := do
  let d := Object.Details.unknown false
  let text ← look do (← data.item "description").text?
  let v ← look (data.item "visibility")
  let d := { d with comment := { d.comment with text }, visibility := visibility v }
  let d ← tags d data
  let async ← look (data.entryOr "is_async" .null)
  let deprecated ← look (data.item "deprecated")
  let reason ← look do (← data.item "deprecation_reason").text?
  let noDiscard ← look (data.entryOr "is_nodiscard" .null)
  let noDiscardReason ← look do (← data.entryOr "nodiscard_message" .null).text?
  return { d with
    async := async.isTrue
    deprecated := deprecated.isTrue
    deprecationReason := reason
    noDiscard := noDiscard.isTrue
    noDiscardReason }

/-- The path of the file of a location, seen from the project. -/
def fileOf (project : Path) (loc : Json) : Reader Path := look do
  match ← loc.item "file" with
  | .str s => return project.join (.ofString s)
  | _ => throw .type

/-- The line of a location, counted from zero. -/
def lineOf (loc : Json) : Reader Int := look do
  return (← (← loc.item "line").whole) - 1

variable [FileSystem]

/-- Details with the location of a member or global. The file is noted as it is written. -/
def located (project : Path) (data : Json) (d : Object.Details) : Reader Object.Details := do
  let loc ← look (data.entryOr "loc" .null)
  if !loc.isTrue then return d
  let file ← fileOf project loc
  let line ← lineOf loc
  return { d with
    files := [file]
    foreign := !file.isBelow project
    commentFile := some file.resolve
    line := some line }

/-- Details with the locations of a type, which may be defined at several places. -/
def locatedAll (project : Path) (data : Json) (d : Object.Details) : Reader Object.Details := do
  let locs ← look (data.entryOr "loc" .null)
  if !locs.isTrue then return d
  let files ← (← look locs.elements).mapM fun loc => do return (← fileOf project loc).resolve
  let first ← look locs.first
  let file ← fileOf project first
  let line ← lineOf first
  return { d with
    files := Object.union [] files
    foreign := files.all fun f => !f.isBelow project
    commentFile := some file.resolve
    line := some line }

/-- A parameter or result. -/
def param (data : Json) : Reader Param := look do
  let name ← (← data.item "name").text?
  let type ← (← data.item "typ").text?
  let text ← (← data.item "desc").text?
  return { name, type, comment := { Comment.none false with text } }

/-- The parameters or results under a name. -/
def params (data : Json) (key : String) : Reader (List Param) := do
  (← look do (← data.item key).elements).mapM param

/-- The type parameters. -/
def generics (data : Json) : Reader (List Param) := do
  (← look do (← data.entryOr "generics" (.arr [])).elements).mapM fun g => look do
    let name ← (← g.item "name").text?
    let type ← (← g.item "base").text?
    return { name, type, comment := .none false }

/-- The parameters of a method, with the object that it is called on. -/
def withSelf (params : List Param) : List Param :=
  match params with
  | [] => [⟨some "self", none, .none false⟩]
  | p :: rest =>
    if p.name == some "self" then p :: rest else ⟨some "self", none, .none false⟩ :: p :: rest

/-- The name of an object, under which it is put into the tree. -/
def nameOf (data : Json) : Reader String := look do (← data.item "name").text

/-- The name of a member. -/
def memberName (data : Json) : Reader String := look do
  match ← data.item "name" with
  | .str s => return s
  | _ => throw .type

/-- A function. -/
def function (project : Path) (data : Json) : Reader Object := do
  let d ← located project data (← common data)
  let generics ← generics data
  let params ← params data "params"
  let returns ← EmmyLua.params data "returns"
  let overloads ← look do (← data.item "overloads").texts
  let implicitSelf := (← look (data.item "is_meth")).isTrue
  let params := if implicitSelf then withSelf params else params
  return ⟨d, .function { params, returns, generics, overloads, implicitSelf }, []⟩

/-- A variable. -/
def variableOf (project : Path) (data : Json) : Reader Object := do
  let type ← look do (← data.item "typ").text?
  let d ← located project data (← common data)
  let value ← look do (← data.item "literal").text?
  return ⟨d, .data type value, []⟩

/-- Adds a member to an object; members of types that are not known are left out. -/
def member (project : Path) (parent : Object) (data : Json) : Reader Object := do
  match ← look (data.item "type") with
  | .str "fn" =>
    let o ← function project data
    merging (parent.addChild (← memberName data) o)
  | .str "field" =>
    let o ← variableOf project data
    merging (parent.addChild (← memberName data) o)
  | _ => return parent

/-- Adds the members of an object. -/
def members (project : Path) (parent : Object) (data : Json) : Reader Object := do
  (← look do (← data.item "members").elements).foldlM (member project) parent

/-- Adds a module to the tree. -/
def moduleOf (project : Path) (a : Analysis) (data : Json) : Reader Analysis := do
  let d ← common data
  let (a, d) ← match ← look (data.item "file") with
    | .str s =>
      if s.isEmpty then pure (a, d)
      else
        let file := (project.join (.ofString s)).resolve
        pure (a.noteFile file, placeIn project file d)
    | j => if j.isTrue then throw (.access .type) else pure (a, d)
  let o ← members project ⟨d, .bare, []⟩ data
  let used ← look do (← data.item "using").texts
  let type ← look do (← data.item "typ").textOr ""
  let d := { o.details with
    usedModules := used
    requireType := some type
    requireFunction := a.requireFunction
    requireSeparator := a.requireSeparator }
  a.add (← nameOf data) { o with details := d }

/-- Adds a type to the tree; types of kinds that are not known are left out. -/
def typeOf (project : Path) (a : Analysis) (data : Json) : Reader Analysis := do
  match ← look (data.item "type") with
  | .str "class" =>
    let d ← locatedAll project data (← common data)
    let bases ← look do (← data.item "bases").texts
    let generics ← generics data
    let o ← members project ⟨d, .class_ ⟨bases, generics, none, none⟩, []⟩ data
    a.add (← nameOf data) (extractConstructor a.rule o)
  | .str "enum" =>
    let type ← look do (← data.item "typ").textOr "unknown"
    let d ← locatedAll project data (← common data)
    let generics ← generics data
    let o ← members project ⟨d, .enum (some type) generics, []⟩ data
    a.add (← nameOf data) o
  | .str "alias" =>
    let type ← look do (← data.item "typ").textOr "unknown"
    let d ← locatedAll project data (← common data)
    let generics ← generics data
    let o ← members project ⟨d, .alias_ (some type) generics, []⟩ data
    a.add (← nameOf data) o
  | _ => return a

/-- Adds a global to the tree; globals of kinds that are not known are left out. -/
def globalOf (project : Path) (a : Analysis) (data : Json) : Reader Analysis := do
  match ← look (data.item "type") with
  | .str "table" =>
    let d ← located project data (← common data)
    let o ← members project ⟨d, .table, []⟩ data
    a.add (← nameOf data) o
  | .str "field" =>
    let o ← variableOf project data
    a.add (← nameOf data) o
  | _ => return a

/-- The configuration that the analyzer ran with. A constructor rule is taken over only if it names
a function. -/
def settings (a : Analysis) (j : Json) : Reader Analysis := do
  let runtime ← look do (← j.item "config").item "runtime"
  let rule ← look (runtime.entryOr "classDefaultCall" .null)
  let named ← if rule.isTrue then look do return (← rule.entryOr "functionName" .null).isTrue
    else pure false
  let a ← if named then do
      let name ← look do (← rule.item "functionName").text?
      let nonColon ← look (rule.item "forceNonColon")
      let returnSelf ← look (rule.item "forceReturnSelf")
      pure { a with rule := ⟨name, nonColon.isTrue, returnSelf.isTrue⟩ }
    else pure a
  let version ← look (runtime.item "version")
  let completion ← look do (← j.item "config").item "completion"
  let requireFunction ← look do (← completion.item "autoRequireFunction").text?
  let requireSeparator ← look do (← completion.item "autoRequireSeparator").text?
  return { a with runtimeVersion := runtimeVersion version, requireFunction, requireSeparator }

/-- Reads the document `j` of the project in the directory `project`. -/
def read (a : Analysis) (project : Path) (j : Json) : Reader Analysis := do
  let project := project.resolve
  let a ← settings a j
  let a ← (← look do (← j.item "modules").elements).foldlM (moduleOf project) a
  let a ← (← look do (← j.item "types").elements).foldlM (typeOf project) a
  (← look do (← j.item "globals").elements).foldlM (globalOf project) a

end LuaDocs.EmmyLua
