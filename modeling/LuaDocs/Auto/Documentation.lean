import LuaDocs.Render

/-!
# Documentation of analyzed objects

The body of the description of an object of the tree is made from its documentation: the text, what
else to look at, how a module is required, and what the parameters and results of a function are.
-/

namespace LuaDocs.Auto

open Text

/-- The nodes of the text of an object. The first paragraph becomes the synopsis of an object that
has none. -/
def textNodes (o : Object) (options : Options) (fullname : Option String) :
    Render (List Node) := do
  match given o.reading.text with
  | none => return []
  | some text =>
    let nodes ← Render.docs true text
    match nodes.head?, given fullname with
    | some (.element (.plain .paragraph) ns), some name =>
      if !options.has "synopsis" && !options.has "no-index" then
        modify fun s => { s with
          index := s.index.noteSynopsis name (Node.plain .paragraph ns).plainText }
    | _, _ => pure ()
    return nodes

/-- References to what else to look at. -/
def seeNodes (context : Context) (see : List String) : List Node :=
  if see.isEmpty then []
  else [.plain .seealso [.plain .paragraph
    ((see.map fun s => Role.render context .literal "obj" s).intersperse (.text ", "))]]

/-- The name of the module in the context, with another separator between its components. -/
def requirePath (separator : String) : Render String := do
  match (← Render.context).moduleName.current with
  | .absent => throw .noModule
  | .cleared => if separator == "." then return "None" else throw .clearedModule
  | .value m => return if separator == "." then m else replaceString "." separator m

/-- The text of an option, or else of a value that the analyzer reported, without blanks around it;
a default stands for an empty text. -/
def requireText (options : Options) (key : String) (known : Option String) : String :=
  strip ((options.text? key).getD (known.getD ""))

/-- The note on how a module is required. -/
def requireNodes (o : Object) (options : Options) : Render (List Node) := do
  let mode := (options.text? "annotate-require").getD "auto"
  if mode == "never" || (mode != "force" && o.details.requireType.isNone) then return []
  let name := TypeExpr.normalize
    (requireText options "require-function-name" o.details.requireFunction)
  let name := if name.isEmpty then "require" else name
  let separator := requireText options "require-separator"
    (some ((given o.details.requireSeparator).getD "."))
  let path ← requirePath (if separator.isEmpty then "." else separator)
  let call := name ++ "(\"" ++ path ++ "\")"
  let note (content : List Node) : List Node :=
    [.plain .paragraph [.leaf .strong "Require: ", .element (.literal []) content]]
  match given o.details.requireType with
  | some type =>
    return note [.text (call ++ ": "),
      Role.render (← Render.context) .name "obj" (TypeExpr.normalize type)]
  | none => return if mode == "always" || mode == "force" then note [.text call] else []

/-- What the documentation of an object adds to the body of its description. -/
def documentation (o : Object) (t : ObjType) (options : Options) (fullname : Option String) :
    Render (List Node) := do
  let text ← textNodes o options fullname
  let see := seeNodes (← Render.context) o.details.see
  let require ← if t == .module_ then requireNodes o options else pure []
  return text ++ see ++ require

/-- A field with a text and the nodes of its body. -/
def field (name : String) (body : List Node) : Node :=
  .plain .field [.leaf .fieldName name, .plain .fieldBody body]

/-- The documentation of a parameter is that of its type. -/
def repeatsType (tree : Object) (p : Param) : Bool :=
  match given p.type with
  | none => false
  | some type =>
    match tree.find? type with
    | some o => o.details.comment.text == p.comment.text
    | none => false

/-- The documentation of a parameter has several lines, and is not shown. -/
def isLong (p : Param) : Bool :=
  match p.comment.text with
  | some s => s.contains '\n'
  | none => false

/-- The fields of a parameter or result. The documentation of the object that a method is called on
is not shown. -/
def paramFields (tree : Object) (textKey typeKey unnamed numbered : String) (isSelf : Bool)
    (p : Param) : Render (List Node) := do
  if isLong p then return []
  let name (default : String) : String := (given p.name).getD default
  let type := match given p.type with
    | some type => [field (typeKey ++ " " ++ name numbered) [.text type]]
    | none => []
  match given p.comment.read.text with
  | none => return type
  | some text =>
    if isSelf then return type
    else if repeatsType tree p then return []
    else return field (textKey ++ " " ++ name unnamed) (← Render.docs false text) :: type

/-- The fields of the parameters and results of a function. -/
def callFields (tree : Object) (c : Callable) : Render (List Node) := do
  let number (i : Nat) : String := "_" ++ toString (i + 1)
  let params ← c.params.zipIdx.mapM fun (p, i) =>
    paramFields tree "param" "type" "_" (number i) (i == 0 && p.name == some "self") p
  let returns ← c.returns.zipIdx.mapM fun (p, i) =>
    paramFields tree "return" "rtype" (number i) (number i) false p
  return params.flatten ++ returns.flatten

/-- Adds fields to the first list of fields of a body, or in a list of their own at its end. -/
def withFields (fields : List Node) : List Node → List Node
  | [] => [.plain .fieldList fields]
  | .element (.plain .fieldList) ns :: rest => .plain .fieldList (ns ++ fields) :: rest
  | n :: rest => n :: withFields fields rest

/-- The body of a function with the fields of its parameters and results. -/
def withParameters (tree : Object) (c : Callable) (body : List Node) : Render (List Node) := do
  return withFields (← callFields tree c) body

end LuaDocs.Auto
