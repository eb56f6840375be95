import LuaDocs.Name

/-!
# Types of documented objects

Every documented object has a type, which is the name of the directive that describes it. Tables
that come from elsewhere may hold types that have no directive.
-/

namespace LuaDocs

/-- The type of a documented object. -/
inductive ObjType where
  | function | data | const | class_ | alias_ | enum | method | classMethod | staticMethod
  | attribute | table | module_
  /-- A type that no directive describes. -/
  | other (name : String)
  deriving DecidableEq, Repr

namespace ObjType

/-- The name of the directive that describes objects of the type. -/
def name : ObjType → String
  | .function => "function"
  | .data => "data"
  | .const => "const"
  | .class_ => "class"
  | .alias_ => "alias"
  | .enum => "enum"
  | .method => "method"
  | .classMethod => "classmethod"
  | .staticMethod => "staticmethod"
  | .attribute => "attribute"
  | .table => "table"
  | .module_ => "module"
  | .other name => name

/-- The type with the given name. -/
def ofName (name : String) : ObjType :=
  match name with
  | "function" => .function
  | "data" => .data
  | "const" => .const
  | "class" => .class_
  | "alias" => .alias_
  | "enum" => .enum
  | "method" => .method
  | "classmethod" => .classMethod
  | "staticmethod" => .staticMethod
  | "attribute" => .attribute
  | "table" => .table
  | "module" => .module_
  | name => .other name

/-- How the type is called in running text. -/
def label? : ObjType → Option String
  | .classMethod => some "class method"
  | .staticMethod => some "static method"
  | .table => some "data"
  | .other _ => none
  | t => some t.name

/-- The roles that may refer to objects of the type; the first is used for references that have
no role. -/
def roles? : ObjType → Option (List String)
  | .function => some ["func", "obj", "lua", "_auto"]
  | .data => some ["data", "obj", "lua", "_auto"]
  | .const => some ["attr", "const", "obj", "lua", "_auto"]
  | .class_ => some ["class", "obj", "lua", "_auto"]
  | .alias_ => some ["alias", "obj", "lua", "_auto"]
  | .enum => some ["enum", "obj", "lua", "_auto"]
  | .method | .classMethod | .staticMethod => some ["meth", "obj", "lua", "_auto"]
  | .attribute => some ["attr", "obj", "lua", "_auto"]
  | .table => some ["attr", "data", "obj", "lua", "_auto"]
  | .module_ => some ["mod", "obj", "lua", "_auto"]
  | .other _ => none

/-- Objects of the type are called with a colon before their name. -/
def usesColon (t : ObjType) : Bool := t == .method || t == .classMethod

/-- Objects of the type are shown with parentheses. -/
def isCallable (t : ObjType) : Bool :=
  t == .function || t == .method || t == .classMethod || t == .staticMethod

/-- How a reference to an object with the name `name` is shown; `parens` adds parentheses to names
of functions. -/
def referenceTitle (t : ObjType) (parens : Bool) (name : String) : String :=
  let title :=
    if t.usesColon then String.ofList (Name.withColon name.toList) else Name.normalize name
  if parens && t.isCallable && !title.endsWith "()" then title ++ "()" else title

end ObjType

end LuaDocs
