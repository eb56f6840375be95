import LuaDocs.Analyzer
import LuaDocs.Config.Value
import LuaDocs.Options
import LuaDocs.Text.Digit

/-!
# The configuration of a project

The configuration is read once, before any document. Each value is checked for its type and
meaning, and the first problem ends the reading.

The descriptions of the modules for which pages are generated are used up while they are read:
what a description says is taken out of it, and whatever is left is refused.

## Main definitions

* `Config`: the configuration.
* `Config.defaults`: the values that are not given.
* `Config.typed`, `Config.choice`, `Config.version`, `Config.path`, `Config.list`,
  `Config.excludes`, `Config.options`: checks of values.
* `Config.read`: the configuration, and the values after they were read.
-/

namespace LuaDocs

open Text

namespace Config

/-- A whole number; a truth value can stand for one. -/
inductive Count where
  | number (n : Int)
  | truth (b : Bool)
  deriving DecidableEq, Repr

/-- The number. -/
def Count.toInt : Count → Int
  | .number n => n
  | .truth b => if b then 1 else 0

/-- The markup in which pages are written. -/
inductive Format where
  | rst | md
  deriving DecidableEq, Repr

/-- The name of a markup, which is also the extension of its files. -/
def Format.name : Format → String
  | .rst => "rst"
  | .md => "md"

/-- Which analyzer describes the project, if any. -/
inductive Backend where
  | analyzer (a : Analyzer)
  | disabled
  deriving DecidableEq, Repr

/-- The name of a choice of analyzer. -/
def Backend.name : Backend → String
  | .analyzer a => a.name
  | .disabled => "disable"

/-- A module for which pages are generated. -/
structure ApiRoot where
  /-- Where the pages are written. -/
  path : Path
  options : Options
  /-- How deep modules get pages of their own. -/
  maxDepth : Count
  /-- The modules that get no pages. -/
  ignored : List String
  format : Format
  /-- Members other than modules get pages as well. -/
  separateMembers : Bool
  deriving DecidableEq, Repr

end Config

/-- The configuration of a project. -/
structure Config where
  projectRoot : Path
  backend : Config.Backend
  /-- The directories that the analyzer reads. -/
  projectDirectories : Option (List Path)
  autoInstall : Bool
  autoInstallLocation : Option Path
  minVersion : Option String
  /-- The version of the analyzer that is too new. -/
  maxVersion : Option String
  skipVersions : Option (List String)
  luaVersion : Option String
  defaultOptions : Options
  apidocDefaultOptions : Options
  apidocMaxDepth : Config.Count
  apidocIgnored : List String
  apidocFormat : Config.Format
  apidocSeparateMembers : Bool
  /-- The modules for which pages are generated. -/
  apidocRoots : Table Config.ApiRoot
  rule : ConstructorRule
  /-- The greatest length of a signature on one line. -/
  maxLineLength : Option Config.Count
  verbose : Bool

namespace Config

/-- The values of a configuration. -/
abbrev Values := Table Value

/-- The values that are not given. -/
def defaults : Values :=
  [("lua_ls_auto_install", .bool true), ("lua_ls_max_version", .str "__auto__"),
    ("lua_ls_maximum_signature_line_length", .int 50), ("lua_ls_verbose", .bool false)]

/-- The value under a name. -/
def Values.value (vs : Values) (name : String) : Value := (Table.get? vs name).getD .none

/-! ### Checks -/

/-- The value, if it has one of the given types. -/
def typed (name : String) (value : Value) (wanted : List Kind) : Except Error Value :=
  if wanted.any fun k => k.accepts value then .ok value
  else .error (.type name wanted value.typeName)

/-- A text. -/
def text (name : String) (value : Value) : Except Error String :=
  match value with
  | .str s => .ok s
  | v => .error (.type name [.str] v.typeName)

/-- A truth value. -/
def truth (name : String) (value : Value) : Except Error Bool :=
  match value with
  | .bool b => .ok b
  | v => .error (.type name [.bool] v.typeName)

/-- A whole number. -/
def count (name : String) (value : Value) : Except Error Count :=
  match value with
  | .int n => .ok (.number n)
  | .bool b => .ok (.truth b)
  | v => .error (.type name [.int] v.typeName)

/-- One of the given words. -/
def choice (name : String) (value : Value) (words : List String) : Except Error String := do
  let s ← text name value
  if words.contains s then return s else throw (.choice name words s)

/-- The text starts with a decimal digit. -/
def startsWithDigit (s : String) : Bool :=
  match s.toList with
  | c :: _ => isDigit c
  | [] => false

/-- A version: a text that starts with a digit. -/
def version (name : String) (value : Value) : Except Error String := do
  let s ← text name value
  if startsWithDigit s then return s else throw (.version name s)

variable [FileSystem]

/-- A path, seen from a directory and resolved. -/
def path (name : String) (value : Value) (root : Path) : Except Error Path := do
  let p ← match value with
    | .str s => pure (Path.ofString s)
    | .path p => pure p
    | v => throw (.type name [.str, .path] v.typeName)
  let p := root.join p
  if p.parts.any fun c => c.toList.contains (Char.ofNat 0) then throw .nullByte
  return p.resolve

/-- The name of an item of a list. -/
def itemName (name : String) (i : Nat) : String := name ++ "[" ++ toString i ++ "]"

/-- The name of an entry. -/
def entryName (name key : String) : String := name ++ "[" ++ quoted key ++ "]"

/-- Checks the items of a list, from the one with number `i` on. -/
def items {α : Type} (check : String → Value → Except Error α) (name : String) :
    Nat → List Value → Except Error (List α)
  | _, [] => .ok []
  | i, v :: rest => do
    let a ← check (itemName name i) v
    return a :: (← items check name (i + 1) rest)

/-- A list of which each item is checked. -/
def list {α : Type} (name : String) (value : Value)
    (check : String → Value → Except Error α) : Except Error (List α) :=
  match value with
  | .none => .ok []
  | .list vs => items check name 0 vs
  | v => .error (.type name [.list] v.typeName)

/-- Texts without repetition. -/
def unique (xs : List String) : List String :=
  xs.foldl (fun r s => if r.contains s then r else r ++ [s]) []

/-- A list or set of names. -/
def excludes (name : String) (value : Value) : Except Error (List String) :=
  match value with
  | .none => .ok []
  | .list vs => do return unique (← items text name 0 vs)
  | .set vs => do
    return unique (← vs.mapM fun v => text (name ++ "[" ++ v.shown ++ "]") v)
  | v => .error (.type name [.list, .set] v.typeName)

/-- The default of one option. -/
def option (name key : String) (value : Value) : Except Error OptionValue := do
  match Options.autoSpec.get? key with
  | none => throw (.unknownOption name key)
  | some converter =>
    if !Options.configurable.contains key then throw (.localOption name key)
    let s ← text (entryName name key) value
    (converter.read (some s)).mapError (.option name key)

/-- Defaults of options. -/
def options (name : String) (value : Value) : Except Error Options :=
  match value with
  | .none => .ok []
  | .table rows => rows.mapM fun row => do return (row.1, ← option name row.1 row.2)
  | v => .error (.type name [.table] v.typeName)

/-- The markup of the given name. -/
def format (name : String) (value : Value) : Except Error Format := do
  let s ← choice name value ["rst", "md"]
  return if s == "md" then .md else .rst

/-! ### Modules for which pages are generated -/

/-- What a description of a root does not say. -/
structure RootDefaults where
  docs : Path
  options : Options
  /-- How deep modules get pages of their own. -/
  maxDepth : Count
  /-- The modules that get no pages. -/
  ignored : List String
  format : Format
  /-- Members other than modules get pages as well. -/
  separateMembers : Bool

/-- The keys that a description of a root can have. -/
def rootKeys : List String :=
  ["path", "options", "max_depth", "ignored_modules", "format", "separate_members"]

/-- What a description says under a key, or else the default. -/
def entryOr {α : Type} (rows : Values) (key : String) (default : α)
    (check : Value → Except Error α) : Except Error α :=
  match rows.get? key with
  | some v => check v
  | none => .ok default

/-- Reads the description of a root. -/
def apiRoot (d : RootDefaults) (name key : String) (rows : Values) : Except Error ApiRoot := do
  let entry := entryName name key
  let field (k : String) : String := entry ++ "[" ++ quoted k ++ "]"
  let root ← path (field "path") (rows.value "path") d.docs
  if !root.isBelow d.docs then throw (.outside name key root.toString)
  let opts ← options (field "options") (rows.value "options")
  let depth ← entryOr rows "max_depth" d.maxDepth (count (field "max_depth"))
  let ignored ← entryOr rows "ignored_modules" d.ignored (excludes (field "ignored_modules"))
  let fmt ← entryOr rows "format" d.format (format (field "format"))
  let separate ← entryOr rows "separate_members" d.separateMembers
    (truth (field "separate_members"))
  let left := rows.keys.filter fun k => !rootKeys.contains k
  if !left.isEmpty then throw (.unknownKeys name key left)
  return ⟨root, d.options.update opts, depth, ignored, fmt, separate⟩

/-- Reads a root, which may be given by its path only, and says what is left of its value. -/
def rootEntry (d : RootDefaults) (name key : String) (value : Value) :
    Except Error (ApiRoot × Value) := do
  match value with
  | .str s =>
    let p ← path (entryName name key) (.str s) d.docs
    return (← apiRoot d name key [("path", .path p)], value)
  | .table rows => return (← apiRoot d name key rows, .table [])
  | v => throw (.type (entryName name key) [.table, .str] v.typeName)

/-- Reads all roots, and says what is left of the value. -/
def apiRoots (d : RootDefaults) (name : String) (value : Value) :
    Except Error (Table ApiRoot × Value) := do
  match value with
  | .none => return ([], .none)
  | .table rows =>
    let read ← rows.mapM fun row => do return (row.1, ← rootEntry d name row.1 row.2)
    return (read.map fun r => (r.1, r.2.1), .table (read.map fun r => (r.1, r.2.2)))
  | v => throw (.type name [.table] v.typeName)

/-! ### Reading -/

/-- A value that need not be given. -/
def optional {α : Type} (vs : Values) (name : String) (check : String → Value → Except Error α) :
    Except Error (Option α) :=
  match vs.value name with
  | .none => .ok none
  | v => do return some (← check name v)

/-- The analyzer of the given name. -/
def backendOf (name : String) : Backend :=
  match name with
  | "emmylua" => .analyzer .emmyLua
  | "disable" => .disabled
  | _ => .analyzer .luaLs

/-- The warning that is given when no analyzer is chosen. -/
def backendWarning : String :=
  "Sphinx-LuaLs will use EmmyLua as the default language server since v4.0. " ++
    "To keep using LuaLs, set `lua_ls_backend='luals' in your conf.py`"

/-- What reading a configuration gives. -/
structure Outcome where
  config : Config
  /-- The values after they were read. -/
  values : Values
  warnings : List String

/-- The versions of the language that can be chosen. -/
def luaVersions : List String := ["jit", "5.1", "5.2", "5.3", "5.4", "5.5"]

/-- A version that is too new; it can be left to the program. -/
def upperVersion (name : String) (value : Value) : Except Error String :=
  match value with
  | .str "__auto__" => .ok "__auto__"
  | v => version name v

/-- The version of the language, if one is chosen. -/
def luaVersion? (vs : Values) : Except Error (Option String) := do
  let value := vs.value "lua_ls_lua_version"
  if value.isTrue then return some (← choice "lua_ls_lua_version" value luaVersions)
  else return none

/-- The greatest length of a signature on one line; if it is not given here, it is that of the
signatures of all languages. -/
def lineLength? (vs : Values) : Except Error (Option Count) := do
  match ← optional vs "lua_ls_maximum_signature_line_length" count with
  | some c => return some c
  | none =>
    match ← typed "maximum_signature_line_length" (vs.value "maximum_signature_line_length")
        [.int, .none] with
    | .int n => return some (.number n)
    | .bool b => return some (.truth b)
    | _ => return none

/-- Reads the configuration with the given values, where the documentation is in the directory
`docs`. -/
def read (docs : Path) (vs : Values) : Except Error Outcome := do
  let rootValue := vs.value "lua_ls_project_root"
  let projectRoot ← path "lua_ls_project_root"
    (if rootValue.isTrue then rootValue else .str "") docs
  let backend ← optional vs "lua_ls_backend" fun n v => choice n v ["luals", "emmylua", "disable"]
  let projectDirectories ← optional vs "lua_ls_project_directories" fun n v =>
    list n v fun n v => path n v projectRoot
  let autoInstall ← optional vs "lua_ls_auto_install" truth
  let autoInstallLocation ← optional vs "lua_ls_auto_install_location" fun n v =>
    path n v (.ofString "/")
  let minVersion ← optional vs "lua_ls_min_version" version
  let maxVersion ← optional vs "lua_ls_max_version" upperVersion
  let skipVersions ← optional vs "lua_ls_skip_versions" fun n v => list n v version
  let luaVersion ← luaVersion? vs
  let defaultOptions ← options "lua_ls_default_options" (vs.value "lua_ls_default_options")
  let apidocOptions ← options "lua_ls_apidoc_default_options"
    (vs.value "lua_ls_apidoc_default_options")
  let apidocDefaultOptions := Table.update defaultOptions apidocOptions
  let apidocMaxDepth ← optional vs "lua_ls_apidoc_max_depth" count
  let apidocIgnored ← optional vs "lua_ls_apidoc_ignored_modules" excludes
  let apidocFormat ← optional vs "lua_ls_apidoc_format" format
  let apidocSeparateMembers ← optional vs "lua_ls_apidoc_separate_members" truth
  let rootDefaults : RootDefaults := {
    docs, options := apidocDefaultOptions
    maxDepth := apidocMaxDepth.getD (.number 4)
    ignored := apidocIgnored.getD []
    format := apidocFormat.getD .rst
    separateMembers := apidocSeparateMembers.getD false }
  let roots ← apiRoots rootDefaults "lua_ls_apidoc_roots" (vs.value "lua_ls_apidoc_roots")
  let functionName ← optional vs "lua_ls_class_default_function_name" text
  let nonColon ← optional vs "lua_ls_class_default_force_non_colon" truth
  let returnSelf ← optional vs "lua_ls_class_default_force_return_self" truth
  let maxLineLength ← lineLength? vs
  let verbose ← optional vs "lua_ls_verbose" truth
  return {
    config := {
      projectRoot
      backend := (backend.map backendOf).getD (.analyzer .luaLs)
      projectDirectories
      autoInstall := autoInstall.getD true
      autoInstallLocation, minVersion, maxVersion, skipVersions, luaVersion, defaultOptions
      apidocDefaultOptions
      apidocMaxDepth := rootDefaults.maxDepth
      apidocIgnored := rootDefaults.ignored
      apidocFormat := rootDefaults.format
      apidocSeparateMembers := rootDefaults.separateMembers
      apidocRoots := roots.1
      rule := ⟨functionName, nonColon.getD false, returnSelf.getD false⟩
      maxLineLength
      verbose := verbose.getD false }
    values := if vs.has "lua_ls_apidoc_roots" then vs.set "lua_ls_apidoc_roots" roots.2 else vs
    warnings := if backend.isNone then [backendWarning] else [] }

end Config

end LuaDocs
