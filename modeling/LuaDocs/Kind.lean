/-!
# Kinds of documented objects

The kind of an object says how it is documented. It comes from what the analyzer reported and from
the type that the comment of the object asks for.
-/

namespace LuaDocs

/-- How an object is documented. -/
inductive Kind where
  | module_ | table | data | function | class_ | alias_ | enum
  deriving DecidableEq, Repr

namespace Kind

/-- The name of a kind. -/
def name : Kind → String
  | .module_ => "module"
  | .table => "table"
  | .data => "data"
  | .function => "function"
  | .class_ => "class"
  | .alias_ => "alias"
  | .enum => "enum"

/-- The place of a kind when members are listed by kind. -/
def order : Kind → Nat
  | .table | .data => 1
  | .function => 2
  | .class_ => 3
  | .alias_ => 4
  | .enum => 5
  | .module_ => 6

/-- The kind that a documentation type asks for, where it asks for a variable, a table or a
module. -/
def ofVariable? (doctype : String) : Option Kind :=
  match doctype with
  | "data" | "const" | "attribute" => some .data
  | "table" => some .table
  | "module" => some .module_
  | _ => none

end Kind

end LuaDocs
