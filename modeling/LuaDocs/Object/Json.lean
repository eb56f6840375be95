import LuaDocs.Json.Decode
import LuaDocs.Json.Print
import LuaDocs.Object.Merge
import LuaDocs.Text.Case

/-!
# Objects as JSON

The tree that an analyzer reported can be written down: an object is a JSON object of what is known
of it, with its children in order. What is not known of an object is left out, except for what
every object has a place for.
-/

namespace LuaDocs

open Json

/-- Paths in order. -/
def Path.listToJson (ps : List Path) : Json := strings (ps.map Path.toString).mergeSort

/-- A parameter: its name, its type, its documentation as it was reported and as it is read, and
how it is shown. -/
def Param.toJson (p : Param) : Json :=
  .arr [orNull .str p.name, orNull .str p.type, orNull .str p.comment.text,
    orNull .str p.comment.read.text, .str p.show]

/-- What a function takes and gives. -/
def Callable.toMembers (c : Callable) : List (String × Json) :=
  entryOfList "params" Param.toJson c.params ++ entryOfList "returns" Param.toJson c.returns ++
    entryOfList "generics" Param.toJson c.generics ++ entryOfList "overloads" .str c.overloads ++
    flag "implicit_self" c.implicitSelf

namespace Object

/-- Options in order: names and values. -/
def optionsToJson (options : Table String) : Json := list (fun o => strings [o.1, o.2]) options

/-- The name of a form in capitals. -/
def Form.title (form : Form) : String := Text.capitalizeFirst form.name

/-- What every object has. -/
def Details.toMembers (d : Details) (form : Form) : List (String × Json) :=
  let r := d.comment.read
  [("class", .str form.title), ("kind", orNull (fun k => .str k.name) (form.kind? r.doctype)),
    ("docstring", orNull .str d.comment.text), ("doc", orNull .str r.text),
    ("options", optionsToJson r.options), ("doctype", orNull .str r.doctype),
    ("visibility", orNull (fun v => .str v.name) d.visibility),
    ("files", Path.listToJson d.files),
    ("docstring_file", orNull (fun p => .str p.toString) d.commentFile),
    ("line", orNull .int d.line)] ++
  flag "is_deprecated" d.deprecated ++ flag "is_nodiscard" d.noDiscard ++
  flag "is_async" d.async ++ flag "is_foreign" d.foreign ++ flag "is_toplevel" d.toplevel ++
  entry "deprecation_reason" .str d.deprecationReason ++
  entry "nodiscard_reason" .str d.noDiscardReason ++ entry "require_type" .str d.requireType ++
  entry "require_function" .str d.requireFunction ++
  entry "require_separator" .str d.requireSeparator ++
  entryOfList "see" .str d.see ++ entryOfList "using" .str d.usedModules

/-- A constructor. -/
def Constructor.toJson (c : Constructor) : Json :=
  .obj (c.details.toMembers (.function c.call) ++ c.call.toMembers)

/-- What belongs to the form of an object. -/
def Form.toMembers : Form → List (String × Json)
  | .bare | .table => []
  | .data type value => entry "type" .str type ++ entry "lit" .str value
  | .function c => c.toMembers
  | .class_ i =>
    entryOfList "bases" .str i.bases ++ entryOfList "generics" Param.toJson i.generics ++
    entry "constructor_name" .str i.constructorName ++
    entry "constructor" Constructor.toJson i.maker
  | .alias_ type generics | .enum type generics =>
    entry "type" .str type ++ entryOfList "generics" Param.toJson generics

/-- An object with all that is below it. -/
def toJson (o : Object) : Json :=
  .obj (o.details.toMembers o.form ++ o.form.toMembers ++
    entryOfList "children" id
      (o.children.attach.map fun ⟨(name, c), _⟩ => .arr [.str name, c.toJson]))
termination_by sizeOf o
decreasing_by exact sizeOf_lt_of_mem ‹_›

/-- The children of an object in order. -/
def childrenToJson (o : Object) : Json := list (fun c => .arr [.str c.1, c.2.toJson]) o.children

/-- An object in a few words: its form, its kind and its documentation. -/
def briefToJson (o : Object) : Json :=
  .arr [.str o.form.title, orNull (fun k => .str k.name) o.kind?,
    orNull .str o.details.comment.text]

/-- Reads the form of an object from what is known of it. -/
def Form.ofJson (title : String) (j : Json) : Decoder Form := do
  let texts (key : String) : Decoder (List String) := do (← j.listOrNil key).mapM asString
  match title with
  | "Data" => return .data (← j.stringAt? "type") (← j.stringAt? "lit")
  | "Table" => return .table
  | "Function" =>
    return .function ⟨[], [], [], ← texts "overloads", j.isSet "implicit_self"⟩
  | "Class" => return .class_ ⟨← texts "bases", [], ← j.stringAt? "constructor_name", none⟩
  | "Alias" => return .alias_ (← j.stringAt? "type") []
  | "Enum" => return .enum (← j.stringAt? "type") []
  | _ => return .bare

/-- Reads what every object may have. -/
def Details.ofJson (j : Json) : Decoder Details := do
  let texts (key : String) : Decoder (List String) := do (← j.listOrNil key).mapM asString
  return {
    comment := ⟨← j.stringAt? "docstring", j.isSet "needs_cleanup",
      ← j.tableOrNil asString "inferred_options", ← j.stringAt? "inferred_doctype"⟩
    deprecated := j.isSet "is_deprecated"
    deprecationReason := ← j.stringAt? "deprecation_reason"
    noDiscard := j.isSet "is_nodiscard"
    noDiscardReason := ← j.stringAt? "nodiscard_reason"
    async := j.isSet "is_async"
    visibility := (← j.stringAt? "visibility").bind Visibility.ofName?
    see := ← texts "see"
    files := union [] ((← texts "files").map Path.ofString)
    commentFile := (← j.stringAt? "docstring_file").map Path.ofString
    foreign := j.isSet "is_foreign"
    line := ← optionalAt asInt j "line"
    usedModules := ← texts "using"
    requireType := ← j.stringAt? "require_type"
    requireFunction := ← j.stringAt? "require_function"
    requireSeparator := ← j.stringAt? "require_separator"
    toplevel := j.isSet "is_toplevel" }

/-- Reads an object without children. -/
def ofJson (title : String) (j : Json) : Decoder Object := do
  return ⟨← Details.ofJson j, ← Form.ofJson title j, []⟩

end Object

end LuaDocs
