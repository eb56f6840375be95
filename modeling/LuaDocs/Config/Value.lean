import LuaDocs.Path
import LuaDocs.Text.Quoted

/-!
# Configuration values

The configuration of a project gives values of any type under names. A value of the wrong type is
refused with a message that names the types.
-/

namespace LuaDocs.Config

/-- A value of a configuration. -/
inductive Value where
  | none
  | bool (b : Bool)
  | int (n : Int)
  /-- A number with a fraction, by its text. -/
  | float (shown : String)
  | str (s : String)
  | list (items : List Value)
  | table (rows : List (String × Value))
  | set (items : List Value)
  | path (p : Path)
  deriving Repr

namespace Value

/-- The name of the type of a value. -/
def typeName : Value → String
  | .none => "<class 'NoneType'>"
  | .bool _ => "<class 'bool'>"
  | .int _ => "<class 'int'>"
  | .float _ => "<class 'float'>"
  | .str _ => "<class 'str'>"
  | .list _ => "<class 'list'>"
  | .table _ => "<class 'dict'>"
  | .set _ => "<class 'set'>"
  | .path _ => "<class 'pathlib.PosixPath'>"

/-- The value counts as given. -/
def isTrue : Value → Bool
  | .none => false
  | .bool b => b
  | .int n => n != 0
  | .float s => s != "0.0"
  | .str s => !s.isEmpty
  | .list items => !items.isEmpty
  | .table rows => !rows.isEmpty
  | .set items => !items.isEmpty
  | .path _ => true

/-- A value as it is shown in the name of an item. -/
def shown : Value → String
  | .none => "None"
  | .bool b => if b then "True" else "False"
  | .int n => toString n
  | .float s => s
  | .str s => s
  | .path p => p.toString
  | .list _ | .table _ | .set _ => ""

end Value

/-- A type that can be asked for. -/
inductive Kind where
  | str | bool | int | list | table | set | path | none
  deriving DecidableEq, Repr

namespace Kind

/-- The name of a type. -/
def name : Kind → String
  | .str => "<class 'str'>"
  | .bool => "<class 'bool'>"
  | .int => "<class 'int'>"
  | .list => "<class 'list'>"
  | .table => "<class 'dict'>"
  | .set => "<class 'set'>"
  | .path => "<class 'pathlib.Path'>"
  | .none => "<class 'NoneType'>"

/-- The value is of the type; a truth value is a whole number as well. -/
def accepts : Kind → Value → Bool
  | .str, .str _ | .bool, .bool _ | .int, .int _ | .int, .bool _ | .list, .list _ | .table, .table _
  | .set, .set _ | .path, .path _ | .none, .none => true
  | _, _ => false

end Kind

/-- Why a configuration is refused. -/
inductive Error where
  /-- A value has a type that was not asked for. -/
  | type (name : String) (wanted : List Kind) (got : String)
  /-- A value is none of the words that can be chosen. -/
  | choice (name : String) (words : List String) (got : String)
  /-- A text is no version. -/
  | version (name got : String)
  /-- A path has a character in it that no path can have. -/
  | nullByte
  /-- There is no option of the name. -/
  | unknownOption (name key : String)
  /-- The option belongs to a single object. -/
  | localOption (name key : String)
  /-- The value of an option cannot be read. -/
  | option (name key problem : String)
  /-- The pages of a module would be written outside of the documentation. -/
  | outside (name key path : String)
  /-- The description of a root has keys that mean nothing. -/
  | unknownKeys (name key : String) (keys : List String)
  deriving DecidableEq, Repr

/-- The text of an error. -/
def Error.message : Error → String
  | .type name wanted got =>
    name ++ " should be " ++ " or ".intercalate (wanted.map Kind.name) ++ ", got " ++ got ++
      " instead"
  | .choice name words got =>
    name ++ " should be one of " ++ ", ".intercalate (words.map Text.quoted) ++ ", got " ++
      Text.quoted got ++ " instead"
  | .version name got => "incorrect " ++ name ++ ": " ++ got
  | .nullByte => "incorrect lua_ls_project_root: embedded null byte"
  | .unknownOption name key => "unknown option in " ++ name ++ ": :" ++ key ++ ":"
  | .localOption name key =>
    "incorrect option in " ++ name ++ ": :" ++ key ++ ": can't be set from config"
  | .option name key problem =>
    "incorrect " ++ name ++ "[" ++ Text.quoted key ++ "]: " ++ problem
  | .outside name key path =>
    "api root " ++ name ++ "[" ++ Text.quoted key ++ "] lays outside of src root: " ++ path
  | .unknownKeys name key keys =>
    "unknown keys in " ++ name ++ "[" ++ Text.quoted key ++ "]: " ++ ", ".intercalate keys

end LuaDocs.Config
