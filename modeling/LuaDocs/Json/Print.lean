import LuaDocs.Json
import LuaDocs.Text.Quoted

/-!
# Writing JSON

A value is written on one line without blanks, in ASCII. Quotes, backslashes, control characters
and all characters outside ASCII are escaped; a character above the first 65536 is written as two.
-/

namespace LuaDocs.Json

open Text

/-- Four hexadecimal digits. -/
def escapeUnit (n : Nat) : List Char := '\\' :: 'u' :: hexPadded 4 n

/-- A character of a text. -/
def escapeChar (c : Char) : List Char :=
  if c == '"' then ['\\', '"']
  else if c == '\\' then ['\\', '\\']
  else if 32 ≤ c.toNat && c.toNat < 127 then [c]
  else if c.toNat < 0x10000 then escapeUnit c.toNat
  else
    let n := c.toNat - 0x10000
    escapeUnit (0xd800 + n / 0x400) ++ escapeUnit (0xdc00 + n % 0x400)

/-- A text between quotes. -/
def quote (s : String) : String := "\"" ++ String.ofList (s.toList.flatMap escapeChar) ++ "\""

/-- Puts commas between texts. -/
def commas (parts : List String) : String := ",".intercalate parts

mutual

/-- The text of a value. -/
def print : Json → String
  | .null => "null"
  | .bool b => if b then "true" else "false"
  | .int n => toString n
  | .decimal m e => toString m ++ "e" ++ toString e
  | .special name => name
  | .str s => quote s
  | .arr items => "[" ++ commas (printItems items) ++ "]"
  | .obj members => "\x7b" ++ commas (printMembers members) ++ "\x7d"

/-- The texts of the items of a list. -/
def printItems : List Json → List String
  | [] => []
  | j :: rest => print j :: printItems rest

/-- The texts of the members of an object. -/
def printMembers : List (String × Json) → List String
  | [] => []
  | (key, j) :: rest => (quote key ++ ":" ++ print j) :: printMembers rest

end

/-- A list of texts. -/
def strings (xs : List String) : Json := .arr (xs.map Json.str)

/-- A list of values. -/
def list {α : Type} (f : α → Json) (xs : List α) : Json := .arr (xs.map f)

/-- A value that may be missing. -/
def orNull {α : Type} (f : α → Json) : Option α → Json
  | some a => f a
  | none => .null

/-- A member of an object that is left out if it has no value. -/
def entry {α : Type} (key : String) (f : α → Json) : Option α → List (String × Json)
  | some a => [(key, f a)]
  | none => []

/-- A member of an object that is left out if its list is empty. -/
def entryOfList {α : Type} (key : String) (f : α → Json) (xs : List α) : List (String × Json) :=
  if xs.isEmpty then [] else [(key, list f xs)]

/-- A member of an object that is there if something is true. -/
def flag (key : String) (b : Bool) : List (String × Json) := if b then [(key, .bool true)] else []

end LuaDocs.Json
