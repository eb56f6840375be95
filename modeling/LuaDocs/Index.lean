import LuaDocs.Bracket
import LuaDocs.Context
import LuaDocs.Name
import LuaDocs.ObjType
import LuaDocs.Table
import LuaDocs.Text.Split

/-!
# Index tables

Three tables know the objects that the documents describe. The table of objects says where each is
described. The table of members lists what is described below each name, and what the bases of each
class are. The table of globals lists the globals that are described with each module.

A row belongs to a document, and so does each entry in it. When a document is read again, what
belongs to it is removed first. When documents are read by several workers, their tables are
merged.

## Main definitions

* `Index`: the tables.
* `Index.Registration`, `Index.register`: enters an object.
* `Index.clear`, `Index.merge`: removes a document, and adds the documents of a worker.
* `Index.find?`: looks up a name where a reference stands.
-/

namespace LuaDocs

open Text

namespace Index

/-- Where an object is described. -/
structure ObjectRow where
  document : String
  objtype : ObjType
  /-- The object should not be used any more. -/
  deprecated : Bool
  /-- The anchor of the description. -/
  id : String
  /-- What the object is, in a few words. -/
  synopsis : Option String
  deriving DecidableEq, Repr

/-- An object in a list. -/
structure Entry where
  document : String
  fullname : String
  deriving DecidableEq, Repr

/-- The globals that are described with a module. -/
structure GlobalRow where
  document : String
  entries : List Entry
  deriving DecidableEq, Repr

/-- Where names are looked up: the current module and class, and the modules in use. -/
structure Scope where
  moduleName : Option String
  className : Option String
  usedModules : Option Selection
  deriving DecidableEq, Repr

/-- No module, no class, no modules in use. -/
def Scope.empty : Scope := ⟨none, none, none⟩

/-- What is described below a name. -/
structure MemberRow where
  document : String
  entries : List Entry
  bases : List String
  /-- Where the names of the bases are looked up. -/
  scope : Scope
  deriving DecidableEq, Repr

end Index

/-- The three tables. -/
structure Index where
  objects : Table Index.ObjectRow
  globals : Table Index.GlobalRow
  members : Table Index.MemberRow
  deriving DecidableEq, Repr

namespace Index

/-- Nothing is described. -/
def empty : Index := ⟨[], [], []⟩

/-- The components of a full name. -/
def components (fullname : String) : List String :=
  if fullname.toList.contains '[' then (Bracket.split '.' fullname.toList).map String.ofList
  else splitString '.' fullname

/-! ### Entering an object -/

/-- Where an object is listed. -/
inductive Listing where
  /-- Under the name that its own name starts with, if there is one. -/
  | member
  /-- Among the globals of a module. -/
  | globalOf (moduleName : String)
  | nowhere
  deriving DecidableEq, Repr

/-- An object to be entered. -/
structure Registration where
  fullname : String
  /-- Where the object is described. -/
  row : ObjectRow
  /-- The bases of a class, and where they are looked up. -/
  bases : Option (List String × Scope)
  listing : Listing
  deriving DecidableEq, Repr

/-- The row of the globals of a module, owned by the given document. -/
def ownGlobals (t : Table GlobalRow) (key document : String) : Table GlobalRow :=
  t.set key (match t.get? key with
    | some row => { row with document }
    | none => ⟨document, []⟩)

/-- The row of the members of an object, owned by the given document. -/
def ownMembers (t : Table MemberRow) (key document : String) : Table MemberRow :=
  t.set key (match t.get? key with
    | some row => { row with document }
    | none => ⟨document, [], [], .empty⟩)

/-- Notes the bases of a class. -/
def noteBases (t : Table MemberRow) (key : String) (bases : List String) (scope : Scope) :
    Table MemberRow :=
  match t.get? key with
  | some row => t.set key { row with bases, scope }
  | none => t

/-- Lists a global; a module without a row gets one that the document owns. -/
def addGlobal (t : Table GlobalRow) (key : String) (e : Entry) : Table GlobalRow :=
  match t.get? key with
  | some row => t.set key { row with entries := row.entries ++ [e] }
  | none => t.set key ⟨e.document, [e]⟩

/-- Lists a member; a parent without a row gets one that the document owns. -/
def addMember (t : Table MemberRow) (key : String) (e : Entry) : Table MemberRow :=
  match t.get? key with
  | some row => t.set key { row with entries := row.entries ++ [e] }
  | none => t.set key ⟨e.document, [e], [], .empty⟩

/-- The name that the components of a full name start with; none if there is one component. -/
def parent? (fullname : String) : Option String :=
  let parts := components fullname
  if 1 < parts.length then some (joinStrings '.' parts.dropLast) else none

/-- Enters an object. -/
def register (t : Index) (r : Registration) : Index :=
  let document := r.row.document
  let entry : Entry := ⟨document, r.fullname⟩
  let objects := t.objects.set r.fullname r.row
  let globals := ownGlobals t.globals r.fullname document
  let members := ownMembers t.members r.fullname document
  let members := match r.bases with
    | some (bases, scope) => if bases.isEmpty then members else
        noteBases members r.fullname bases scope
    | none => members
  match r.listing with
  | .nowhere => ⟨objects, globals, members⟩
  | .globalOf m => ⟨objects, addGlobal globals m entry, members⟩
  | .member =>
    match parent? r.fullname with
    | some p => ⟨objects, globals, addMember members p entry⟩
    | none => ⟨objects, globals, members⟩

/-- Notes the synopsis of an object that has none. -/
def noteSynopsis (t : Index) (fullname synopsis : String) : Index :=
  match t.objects.get? fullname with
  | some row =>
    if (row.synopsis.getD "").isEmpty then
      { t with objects := t.objects.set fullname { row with synopsis := some synopsis } }
    else t
  | none => t

/-! ### Documents -/

/-- The entries that do not belong to a document. -/
def entriesWithout (document : String) (es : List Entry) : List Entry :=
  es.filter fun e => e.document != document

/-- The tables without what belongs to a document. -/
def clear (t : Index) (document : String) : Index where
  objects := t.objects.filter fun row => row.2.document != document
  globals := (t.globals.filter fun row => row.2.document != document).map fun row =>
    (row.1, { row.2 with entries := entriesWithout document row.2.entries })
  members := (t.members.filter fun row => row.2.document != document).map fun row =>
    (row.1, { row.2 with entries := entriesWithout document row.2.entries })

/-- The entries of the given documents. -/
def entriesOf (documents : List String) (es : List Entry) : List Entry :=
  es.filter fun e => documents.contains e.document

/-- Adds the row of the globals of a module. -/
def mergeGlobals (documents : List String) (t : Table GlobalRow) (row : String × GlobalRow) :
    Table GlobalRow :=
  let entries := entriesOf documents row.2.entries
  if !documents.contains row.2.document then t
  else match t.get? row.1 with
    | none => t.set row.1 ⟨row.2.document, entries⟩
    | some mine => t.set row.1 { mine with entries := mine.entries ++ entries }

/-- Adds the row of the members of an object. -/
def mergeMembers (documents : List String) (t : Table MemberRow) (row : String × MemberRow) :
    Table MemberRow :=
  let entries := entriesOf documents row.2.entries
  if !documents.contains row.2.document then t
  else match t.get? row.1 with
    | none => t.set row.1 { row.2 with entries }
    | some mine => t.set row.1 { mine with entries := mine.entries ++ entries }

/-- Adds what the tables of a worker say of the documents that it has read. -/
def merge (t : Index) (documents : List String) (other : Index) : Index where
  objects := t.objects.update (other.objects.filter fun row => documents.contains row.2.document)
  globals := other.globals.foldl (mergeGlobals documents) t.globals
  members := other.members.foldl (mergeMembers documents) t.members

/-- The objects that are described both here and by a worker: the name, the document of the worker
and the document known here. -/
def duplicates (t : Index) (documents : List String) (other : Index) :
    List (String × String × String) :=
  other.objects.filterMap fun row =>
    if documents.contains row.2.document then
      (t.objects.get? row.1).map fun mine => (row.1, row.2.document, mine.document)
    else none

/-! ### Looking up a name -/

/-- Why a name cannot be looked up. -/
inductive LookupError where
  /-- All modules are in use, but they are not listed. -/
  | unlistedModules
  deriving DecidableEq, Repr

/-- Joins the parts of a name that are given and not empty. -/
def joinGiven (parts : List (Option String)) : String :=
  joinStrings '.' ((parts.filterMap id).filter fun s => !s.isEmpty)

/-- The name that a reference means: without parentheses, with keys in normal form. -/
def referredName (name : String) : String :=
  let s := if name.endsWith "()" then String.ofList (name.toList.take (name.length - 2)) else name
  Name.normalize (strip s)

/-- The full names that a name can stand for, the nearest first. A module is looked up under its
full name only. -/
def candidates (scope : Scope) (role : Option String) (name : String) :
    Except LookupError (List String) :=
  if role == some "mod" then .ok [name]
  else match scope.usedModules with
    | some .all => .error .unlistedModules
    | used =>
      let used := match used with
        | some (.names items) => items
        | _ => []
      .ok (joinGiven [scope.moduleName, scope.className, some name] ::
        joinGiven [scope.moduleName, some name] ::
        used.map (fun m => joinGiven [some m, some name]) ++ [name])

/-- The object that a name means where a reference with the given role stands. -/
def find? (t : Index) (scope : Scope) (role : Option String) (name : String) :
    Except LookupError (Option (String × ObjectRow)) :=
  let name := referredName name
  if name.isEmpty then .ok none
  else do
    let names ← candidates scope role name
    return names.findSome? fun n => (t.objects.get? n).map fun row => (n, row)

end Index

end LuaDocs
