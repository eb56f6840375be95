import LuaDocs.Context
import LuaDocs.Json.Decode
import LuaDocs.Json.Print

/-!
# Reference contexts as JSON

A context is an object with a member for each of its cells and a member for the values saved below
it, the nearest last. A cell that says that there is no value is null.
-/

namespace LuaDocs

open Json

/-- A selection: a list of names, or true. -/
def Selection.toJson : Selection → Json
  | .all => .bool true
  | .names items => strings items

/-- Reads a selection. -/
def Selection.ofJson : Json → Decoder Selection
  | .bool true => .ok .all
  | j => do return .names (← j.asStrings)

/-- The members of a cell. -/
def Scoped.toMembers {α : Type} (key saved : String) (f : α → Json) (s : Scoped α) :
    List (String × Json) :=
  (match s.current with
    | .absent => []
    | .cleared => [(key, .null)]
    | .value a => [(key, f a)]) ++
  entry saved (fun xs => list (orNull f) xs.reverse) s.saved

/-- Reads a cell. -/
def Scoped.ofJson {α : Type} (key saved : String) (f : Json → Decoder α) (j : Json) :
    Decoder (Scoped α) := do
  let current ← match j.get? key with
    | none => pure .absent
    | some .null => pure .cleared
    | some v => do pure (.value (← f v))
  let below ← optionalAt (fun v => do (← v.asList).mapM (asOption f)) j saved
  return ⟨current, below.map List.reverse⟩

/-- A context as an object. -/
def Context.toJson (c : Context) : Json :=
  .obj (c.moduleName.toMembers "lua:module" "lua:modules" .str ++
    c.className.toMembers "lua:class" "lua:classes" .str ++
    c.usedModules.toMembers "lua:using" "lua:usings" Selection.toJson)

/-- Reads a context. -/
def Context.ofJson (j : Json) : Decoder Context := do
  return ⟨← Scoped.ofJson "lua:module" "lua:modules" asString j,
    ← Scoped.ofJson "lua:class" "lua:classes" asString j,
    ← Scoped.ofJson "lua:using" "lua:usings" Selection.ofJson j⟩

end LuaDocs
