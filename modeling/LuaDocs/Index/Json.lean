import LuaDocs.Context.Json
import LuaDocs.Index

/-!
# Index tables as JSON

Between builds, and between the workers of a build, the index tables are kept as lists of rows.
-/

namespace LuaDocs.Index

open Json

/-- An entry: its document and its full name. -/
def Entry.toJson (e : Entry) : Json := strings [e.document, e.fullname]

/-- Reads an entry. -/
def Entry.ofJson (j : Json) : Decoder Entry := do
  let (document, fullname) ← j.asPair
  return ⟨document, fullname⟩

/-- The row of an object. -/
def ObjectRow.toJson (name : String) (r : ObjectRow) : Json :=
  .arr [.str name, .str r.document, .str r.objtype.name, .bool r.deprecated, .str r.id,
    orNull .str r.synopsis]

/-- Reads the row of an object. -/
def ObjectRow.ofJson (j : Json) : Decoder (String × ObjectRow) := do
  match ← j.asList with
  | [name, document, objtype, deprecated, id, synopsis] =>
    return (← name.asString, ⟨← document.asString, .ofName (← objtype.asString),
      deprecated == .bool true, ← id.asString, ← asOption asString synopsis⟩)
  | _ => .error "expected a row of objects"

/-- The row of the globals of a module. -/
def GlobalRow.toJson (name : String) (r : GlobalRow) : Json :=
  .arr [.str name, .str r.document, list Entry.toJson r.entries]

/-- Reads the row of the globals of a module. -/
def GlobalRow.ofJson (j : Json) : Decoder (String × GlobalRow) := do
  match ← j.asList with
  | [name, document, entries] =>
    return (← name.asString, ⟨← document.asString, ← (← entries.asList).mapM Entry.ofJson⟩)
  | _ => .error "expected a row of globals"

/-- The row of the members of an object. -/
def MemberRow.toJson (name : String) (r : MemberRow) : Json :=
  .arr [.str name, .str r.document, list Entry.toJson r.entries, strings r.bases,
    orNull .str r.scope.moduleName, orNull .str r.scope.className,
    orNull Selection.toJson r.scope.usedModules]

/-- Reads the row of the members of an object; the end of the row may be missing. -/
def MemberRow.ofJson (j : Json) : Decoder (String × MemberRow) := do
  match ← j.asList with
  | name :: document :: entries :: bases :: rest =>
    let cell (i : Nat) : Json := rest[i]?.getD .null
    let scope : Scope := ⟨← asOption asString (cell 0), ← asOption asString (cell 1),
      ← asOption Selection.ofJson (cell 2)⟩
    return (← name.asString, ⟨← document.asString, ← (← entries.asList).mapM Entry.ofJson,
      ← bases.asStrings, scope⟩)
  | _ => .error "expected a row of members"

/-- Reads a scope from an object with a member for each of its parts. -/
def Scope.ofJson (j : Json) (moduleKey classKey usedKey : String) : Decoder Scope := do
  return ⟨← j.stringAt? moduleKey, ← j.stringAt? classKey,
    ← optionalAt Selection.ofJson j usedKey⟩

/-- The tables as an object. -/
def toJson (t : Index) : Json :=
  .obj [("objects", list (fun r => ObjectRow.toJson r.1 r.2) t.objects),
    ("globals", list (fun r => GlobalRow.toJson r.1 r.2) t.globals),
    ("members", list (fun r => MemberRow.toJson r.1 r.2) t.members)]

/-- Reads tables; a table may be missing. -/
def ofJson (j : Json) : Decoder Index := do
  return ⟨Table.update [] (← (← j.listOrNil "objects").mapM ObjectRow.ofJson),
    Table.update [] (← (← j.listOrNil "globals").mapM GlobalRow.ofJson),
    Table.update [] (← (← j.listOrNil "members").mapM MemberRow.ofJson)⟩

end LuaDocs.Index
