import LuaDocs.Kind
import LuaDocs.Reference
import LuaDocs.Text.Case

/-!
# Tables of members

A document can hold a table of what is described below a name: the globals that are described with
it and its members, in one table for each category, with a reference to each object and its
synopsis.
-/

namespace LuaDocs.MemberTable

open Text

/-- An object in a table. -/
structure Row where
  /-- The name that is shown. -/
  name : String
  fullname : String
  /-- What the object is, in a few words. -/
  synopsis : String
  deriving DecidableEq, Repr

/-- The category of a type of objects. -/
def category : ObjType → String
  | .function | .method | .classMethod | .staticMethod => "function"
  | .data | .const | .attribute | .table => "data"
  | t => t.name

/-- The category of globals. -/
def globalCategory : String := "global"

/-- The row of an object that is described. -/
def row? (t : Index) (name fullname : String) : Option (ObjType × Row) :=
  (t.objects.get? fullname).map fun o => (o.objtype, ⟨name, fullname, o.synopsis.getD ""⟩)

/-- The globals that are described with `target`. -/
def globalRows (t : Index) (target : String) : List (String × Row) :=
  match t.globals.get? target with
  | none => []
  | some g => g.entries.filterMap fun e =>
    (row? t e.fullname e.fullname).map fun r => (globalCategory, r.2)

/-- The members of `target`, under their names without that of `target`. -/
def memberRows (t : Index) (target : String) : List (String × Row) :=
  match t.members.get? target with
  | none => []
  | some m => m.entries.filterMap fun e =>
    let name := String.ofList (e.fullname.toList.drop (target.length + 1))
    (row? t name e.fullname).map fun r => (category r.1, r.2)

/-- What is described below `target`, with the categories. -/
def rows (t : Index) (target : String) : List (String × Row) :=
  globalRows t target ++ memberRows t target

/-- The categories that have a place of their own, in order. -/
def fixedCategories : List String :=
  [globalCategory, "module", "table", "data", "function", "class", "alias", "enum"]

/-- The categories of rows in the order of their tables: those that have a place of their own, and
then the others by name. -/
def categories (rs : List (String × Row)) : List String :=
  let present := rs.map Prod.fst
  fixedCategories.filter present.contains ++
    (present.filter fun c => !fixedCategories.contains c).eraseDups.mergeSort

/-- The rows of a category, by name without regard to case. -/
def rowsOf (rs : List (String × Row)) (category : String) : List Row :=
  ((rs.filter fun r => r.1 == category).map Prod.snd).mergeSort fun a b =>
    decide (caseFold a.name ≤ caseFold b.name)

/-- The title of the table of a category. -/
def title (category : String) : String :=
  titleCase ((ObjType.ofName category).label?.getD category)

/-- A reference to an object, or its name if there is none to refer to. -/
def refer (t : Index) (parens : Bool) (document fullname name : String) :
    Except Reference.Error Node := do
  let content : Node := .holding (.literal []) name
  let (ref, _) ← Reference.resolve t parens document "obj" fullname .empty false content
  return ref.getD content

/-- The row of an object as a node. -/
def rowNode (t : Index) (parens : Bool) (document : String) (r : Row) :
    Except Reference.Error Node := do
  let ref ← refer t parens document r.fullname r.name
  return .plain .row [.plain .entry [.plain .paragraph [ref]],
    .plain .entry (if r.synopsis.isEmpty then [] else [.leaf .paragraph r.synopsis])]

/-- The nodes of the table of a category. -/
def tableNodes (t : Index) (parens : Bool) (document : String) (rs : List (String × Row))
    (category : String) : Except Reference.Error (List Node) := do
  let body ← (rowsOf rs category).mapM (rowNode t parens document)
  return [.plain .paragraph [.leaf .strong (title category)],
    .element (.table ["table", "lua-index-table", "colwidths-given"])
      [.element (.tableGroup 2)
        [.element (.column 33) [], .element (.column 66) [], .plain .tableBody body]]]

/-- The nodes of the tables of what is described below `target`. -/
def render (t : Index) (parens : Bool) (document target : String) :
    Except Reference.Error (List Node) := do
  let rs := rows t target
  return (← (categories rs).mapM (tableNodes t parens document rs)).flatten

end LuaDocs.MemberTable
