import LuaDocs.Json.Decode
import LuaDocs.Json.Print
import LuaDocs.Options

/-!
# Options as JSON

A set of names is written as an object whose only member `$set` lists them in order.
-/

namespace LuaDocs

open Json

namespace OptionValue

/-- The value of an option as JSON. -/
def toJson : OptionValue → Json
  | .flag => .null
  | .off => .bool false
  | .all => .bool true
  | .text s => .str s
  | .names items => strings items
  | .nameSet items => .obj [("$set", strings items.mergeSort)]

/-- Reads the value of an option. -/
def ofJson (j : Json) : Decoder OptionValue := do
  match j with
  | .null => return .flag
  | .bool b => return if b then .all else .off
  | .str s => return .text s
  | .arr items => return .names (← items.mapM asString)
  | .obj [("$set", items)] => return .nameSet (← items.asStrings)
  | _ => throw "unknown option value"

end OptionValue

/-- Options as JSON. -/
def Options.toJson (o : Options) : Json := .obj (o.map fun (k, v) => (k, v.toJson))

end LuaDocs
