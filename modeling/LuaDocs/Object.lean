import LuaDocs.Comment
import LuaDocs.Kind
import LuaDocs.Path

/-!
# Documented objects

An analyzer reports the objects of a project as a tree. An object has details that every object
may have, a form that says what it is, and children under their names.

## Main definitions

* `Object.Details`, `Object.Form`, `Object`: an object and its parts.
* `Object.Form.kind?`: the kind under which an object is documented.
* `Object.priority`: which of two objects of one name is the more telling.
-/

namespace LuaDocs

/-- Who may use an object. -/
inductive Visibility where
  | public_ | protected_ | private_ | package_
  deriving DecidableEq, Repr

/-- The name of a visibility. -/
def Visibility.name : Visibility → String
  | .public_ => "public"
  | .protected_ => "protected"
  | .private_ => "private"
  | .package_ => "package"

/-- The visibility of the given name. -/
def Visibility.ofName? (name : String) : Option Visibility :=
  match name with
  | "public" => some .public_
  | "protected" => some .protected_
  | "private" => some .private_
  | "package" => some .package_
  | _ => none

/-- A parameter, result or type parameter that an analyzer reported. -/
structure Param where
  name : Option String
  type : Option String
  comment : Comment
  deriving DecidableEq, Repr

/-- The text unless it is missing or empty. -/
def given (s : Option String) : Option String := s.filter fun s => !s.isEmpty

/-- A parameter as it is written in a signature. -/
def Param.show (p : Param) : String :=
  (given p.name).getD "_" ++ ": " ++ (given p.type).getD "unknown"

/-- What a function takes and gives. -/
structure Callable where
  params : List Param
  returns : List Param
  generics : List Param
  /-- Further signatures. -/
  overloads : List String
  /-- The function takes the object that it is called on without naming it. -/
  implicitSelf : Bool
  deriving DecidableEq, Repr

namespace Object

/-- What every object may have. -/
structure Details where
  comment : Comment
  /-- The object should not be used any more. -/
  deprecated : Bool
  deprecationReason : Option String
  /-- The results of the function should be used. -/
  noDiscard : Bool
  noDiscardReason : Option String
  /-- The function may wait. -/
  async : Bool
  /-- Who may use the object. -/
  visibility : Option Visibility
  /-- What else to look at. -/
  see : List String
  /-- The files that define the object, without repetition. -/
  files : List Path
  /-- The file that the documentation comes from. -/
  commentFile : Option Path
  /-- The object is not defined in the project. -/
  foreign : Bool
  /-- The line of the definition, from zero. -/
  line : Option Int
  /-- The modules whose members the module names without their module. -/
  usedModules : List String
  /-- The type that requiring the module gives. -/
  requireType : Option String
  requireFunction : Option String
  /-- What stands between the components of the module's name when it is required. -/
  requireSeparator : Option String
  /-- The object was reported under a name of one component. -/
  toplevel : Bool
  deriving DecidableEq, Repr

/-- Nothing is known of an object. -/
def Details.unknown (cleanup : Bool) : Details where
  comment := .none cleanup
  deprecated := false
  deprecationReason := none
  noDiscard := false
  noDiscardReason := none
  async := false
  visibility := none
  see := []
  files := []
  commentFile := none
  foreign := false
  line := none
  usedModules := []
  requireType := none
  requireFunction := none
  requireSeparator := none
  toplevel := false

/-- A function that makes the objects of a class. -/
structure Constructor where
  details : Details
  /-- What the function takes and gives. -/
  call : Callable
  deriving DecidableEq, Repr

/-- What a class is made of, its members apart. -/
structure ClassInfo where
  bases : List String
  generics : List Param
  /-- The name of the function that makes objects. -/
  constructorName : Option String
  maker : Option Constructor
  deriving DecidableEq, Repr

/-- What an object is. -/
inductive Form where
  /-- A place in the tree of which nothing else is known: a module. -/
  | bare
  /-- A variable with its type and its value. -/
  | data (type value : Option String)
  | table
  | function (call : Callable)
  | class_ (info : ClassInfo)
  /-- A name for a type. -/
  | alias_ (type : Option String) (generics : List Param)
  | enum (type : Option String) (generics : List Param)
  deriving DecidableEq, Repr

/-- What an object of the form is called. -/
def Form.name : Form → String
  | .bare => "object"
  | .data .. => "data"
  | .table => "table"
  | .function _ => "function"
  | .class_ _ => "class"
  | .alias_ .. => "alias"
  | .enum .. => "enum"

/-- The kind under which an object is documented, if its documentation asks for the type
`doctype`; none if the two do not go together. -/
def Form.kind? (form : Form) (doctype : Option String) : Option Kind :=
  match form, doctype with
  | .bare, none => some .module_
  | .data .., none => some .data
  | .table, none => some .table
  | .function _, none => some .function
  | .class_ _, none => some .class_
  | .alias_ .., none => some .alias_
  | .enum .., none => some .enum
  | .function _, some t =>
    if t ∈ ["function", "method", "classmethod", "staticmethod"] then some .function else none
  | .class_ _, some "class" => some .class_
  | .alias_ .., some "alias" => some .alias_
  | .enum .., some "enum" => some .enum
  | _, some t => Kind.ofVariable? t

/-- Of two objects with one name, the form with the greater number is the more telling. -/
def Form.priority : Form → Nat
  | .bare => 0
  | .data .. | .table => 1
  | .function _ | .class_ _ | .alias_ .. | .enum .. => 2

end Object

/-- An object of the tree. -/
structure Object where
  details : Object.Details
  form : Object.Form
  /-- The objects below it, under their names. -/
  children : List (String × Object)
  deriving Repr

namespace Object

/-- An object of which nothing is known. -/
def unknown (cleanup : Bool) : Object := ⟨.unknown cleanup, .bare, []⟩

/-- The child with the given name. -/
def child? (o : Object) (name : String) : Option Object := Table.get? o.children name

/-- What the documentation of the object says. -/
def reading (o : Object) : Comment.Reading := o.details.comment.read

/-- The kind under which the object is documented. -/
def kind? (o : Object) : Option Kind := o.form.kind? o.reading.doctype

/-- A constructor as an object of its own. -/
def Constructor.toObject (c : Constructor) : Object := ⟨c.details, .function c.call, []⟩

/-- The details of an object with a new comment. -/
def withComment (o : Object) (c : Comment) : Object :=
  { o with details := { o.details with comment := c } }

end Object

theorem Object.sizeOf_lt_of_mem {o c : Object} {name : String} (h : (name, c) ∈ o.children) :
    sizeOf c < sizeOf o := by
  have h1 := List.sizeOf_lt_of_mem h
  obtain ⟨d, f, cs⟩ := o
  simp only [Object.mk.sizeOf_spec, Prod.mk.sizeOf_spec] at h1 ⊢
  omega

end LuaDocs
