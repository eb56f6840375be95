import LuaDocs.Json

/-!
# Decoding JSON

Values of known form are decoded strictly: what is not of the form is refused with a message.
-/

namespace LuaDocs.Json

/-- A decoded value, or what is wrong. -/
abbrev Decoder (α : Type) := Except String α

/-- A text. -/
def asString : Json → Decoder String
  | .str s => .ok s
  | _ => .error "expected a string"

/-- A whole number. -/
def asInt : Json → Decoder Int
  | .int n => .ok n
  | _ => .error "expected a number"

/-- The items of a list. -/
def asList : Json → Decoder (List Json)
  | .arr items => .ok items
  | _ => .error "expected a list"

/-- The members of an object. -/
def asObject : Json → Decoder (List (String × Json))
  | .obj members => .ok members
  | _ => .error "expected an object"

/-- A list of texts. -/
def asStrings (j : Json) : Decoder (List String) := do (← j.asList).mapM asString

/-- Two texts. -/
def asPair (j : Json) : Decoder (String × String) := do
  match ← j.asStrings with
  | [a, b] => return (a, b)
  | _ => .error "expected a pair"

/-- The members of an object, each decoded. -/
def asTable {α : Type} (f : Json → Decoder α) (j : Json) : Decoder (List (String × α)) := do
  (← j.asObject).mapM fun m => do return (m.1, ← f m.2)

/-- A value that may be missing. -/
def asOption {α : Type} (f : Json → Decoder α) : Json → Decoder (Option α)
  | .null => .ok none
  | j => do return some (← f j)

/-- A member that is there and not null. -/
def field? (j : Json) (key : String) : Option Json :=
  match j.get? key with
  | some .null => none
  | v => v

/-- A member that has to be there. -/
def field (j : Json) (key : String) : Decoder Json :=
  match j.get? key with
  | some v => .ok v
  | none => .error ("missing " ++ key)

/-- A text that has to be there. -/
def stringAt (j : Json) (key : String) : Decoder String := do (← j.field key).asString

/-- A list that has to be there. -/
def listAt (j : Json) (key : String) : Decoder (List Json) := do (← j.field key).asList

/-- A member that may be missing. -/
def optionalAt {α : Type} (f : Json → Decoder α) (j : Json) (key : String) : Decoder (Option α) :=
  asOption f ((j.get? key).getD .null)

/-- A text that may be missing. -/
def stringAt? (j : Json) (key : String) : Decoder (Option String) := optionalAt asString j key

/-- A list that may be missing. -/
def listOrNil (j : Json) (key : String) : Decoder (List Json) := do
  return (← optionalAt asList j key).getD []

/-- A table that may be missing. -/
def tableOrNil {α : Type} (f : Json → Decoder α) (j : Json) (key : String) :
    Decoder (List (String × α)) := do
  return (← optionalAt (asTable f) j key).getD []

/-- A truth value, with a default. -/
def boolOr (j : Json) (key : String) (default : Bool) : Bool :=
  match j.get? key with
  | some (.bool b) => b
  | _ => default

/-- A member that is there and counts as set. -/
def isSet (j : Json) (key : String) : Bool :=
  match j.get? key with
  | some v => v.isTrue
  | none => false

end LuaDocs.Json
