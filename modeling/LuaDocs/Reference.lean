import LuaDocs.Index
import LuaDocs.Node
import LuaDocs.Text.Percent
import LuaDocs.Text.Quoted

/-!
# Resolving references

A pending reference is resolved when all documents are read: its target is looked up in the index
tables, and the reference leads to the anchor of the description, on the same page or on another
one.
-/

namespace LuaDocs.Reference

open Text

/-- The page of a document. -/
def page (document : String) : String :=
  String.ofList (percentEncode (fun c => c == '/') document.toList) ++ ".html"

/-- Drops the leading directories that two pages have in common; the last components are no
directories. -/
def dropCommon : List String → List String → List String × List String
  | a :: b :: s, c :: d :: t =>
    if a == c then dropCommon (b :: s) (d :: t) else (a :: b :: s, c :: d :: t)
  | s, t => (s, t)

/-- The way from one page to another; nothing for the same page. -/
def relativeUri (origin target : String) : String :=
  if target.startsWith "/" then target
  else
    let (b, t) := dropCommon (splitString '/' origin) (splitString '/' target)
    if b == t then ""
    else if b.length == 1 && t == [""] then "./"
    else String.join (List.replicate (b.length - 1) "../") ++ joinStrings '/' t

/-- Where the description of an object is, seen from a document. -/
def destination (origin : String) (row : Index.ObjectRow) : Destination :=
  if origin == row.document && !row.id.isEmpty then .anchor row.id
  else
    let uri := relativeUri (page origin) (page row.document)
    .uri (if row.id.isEmpty then uri else uri ++ "#" ++ row.id)

/-- A reference to the object `name` that shows `content`. -/
def link (origin name : String) (row : Index.ObjectRow) (content : Node) : Node :=
  .element (.reference (destination origin row) (if name.isEmpty then none else some name))
    [content]

/-- Adds style classes to an element that can have them. -/
def addClasses (classes : List String) : Node → Node
  | .element (.literal cs) ns => .element (.literal (cs ++ classes)) ns
  | .element (.literalEmphasis cs) ns => .element (.literalEmphasis (cs ++ classes)) ns
  | .element (.container cs) ns => .element (.container (cs ++ classes)) ns
  | .element (.table cs) ns => .element (.table (cs ++ classes)) ns
  | n => n

/-- A title that was not given explicitly, in the form that suits the object. -/
def retitle (parens explicit : Bool) (t : ObjType) : Node → Node
  | .element (.literal cs) [.text title] =>
    if explicit then .element (.literal cs) [.text title]
    else .element (.literal cs) [.text (t.referenceTitle parens title)]
  | n => n

/-- Why a reference cannot be resolved. -/
inductive Error where
  /-- The modules in use are not listed. -/
  | lookup (e : Index.LookupError)
  /-- The object has a type that is not known. -/
  | objtype (name : String)
  deriving DecidableEq, Repr

/-- The warning on a role that does not suit the object. -/
def unexpectedType (role target : String) (t : ObjType) : String :=
  "reference :lua:" ++ role ++ ":`" ++ target ++ "` resolved to an object of unexpected type " ++
    quoted t.name

/-- What a reference with the role `role` to `target` becomes in the document `origin`, and the
warning to be given. The names of functions are shown with parentheses if `parens` is set. -/
def resolve (t : Index) (parens : Bool) (origin role target : String) (scope : Index.Scope)
    (explicit : Bool) (content : Node) : Except Error (Option Node × Option String) := do
  match ← (t.find? scope (some role) target).mapError .lookup with
  | none => return (none, none)
  | some (name, row) =>
    match row.objtype.roles? with
    | none => throw (.objtype row.objtype.name)
    | some roles =>
      let warning :=
        if role != "any" && !roles.contains role then
          some (unexpectedType role target row.objtype)
        else none
      let content := retitle parens explicit row.objtype content
      let content :=
        if row.deprecated then addClasses ["deprecated", "lua-deprecated"] content else content
      return (some (link origin name row content), warning)

/-- What a reference without a role becomes: the role that suits the object, and the reference. -/
def resolveAny (t : Index) (origin target : String) (scope : Index.Scope) (content : Node) :
    Except Error (List (String × Node)) := do
  match ← (t.find? scope none target).mapError .lookup with
  | none => return []
  | some (name, row) =>
    let role := ((row.objtype.roles?.bind List.head?).filter fun s => !s.isEmpty).getD "obj"
    return [("lua:" ++ role, link origin name row content)]

/-- The full name that a reference asks for, where it stands in the given scope. -/
def qualifiedName (scope : Index.Scope) (target : String) : String :=
  Index.joinGiven [scope.moduleName, scope.className, some target]

/-- A reference that leads nowhere gives no warning, because it was not written by hand. -/
def isAutomatic (domain role : String) : Bool := domain == "lua" && role == "_auto"

end LuaDocs.Reference
