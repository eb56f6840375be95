import LuaDocs.Apidoc.Page
import LuaDocs.Config
import LuaDocs.Index
import LuaDocs.Members
import LuaDocs.Text.Glob
import LuaDocs.Text.Quoted

/-!
# Generating pages

For a module, pages are generated that describe it and the modules below it, down to a given depth.
Members of other kinds can have pages of their own as well. What has a page of its own is excluded
from the page of the module above it.

Pages are written as they are generated. When all are written, files that are not among them are
removed from the directory.

## Main definitions

* `Apidoc.Settings`: how pages are generated.
* `Apidoc.generate`: the pages of a module.
* `Apidoc.ensureCaseSensitive`: makes a directory tell apart capital and small letters.
* `Apidoc.run`: brings a directory up to date.
-/

namespace LuaDocs.Apidoc

open Text

/-- How pages are generated. -/
structure Settings where
  /-- The options of the directives on the pages. -/
  options : Options
  /-- How deep modules get pages of their own. -/
  depth : Int
  /-- Patterns of the names of objects that get no pages. -/
  ignored : List String
  format : String
  /-- Members of all kinds get pages. -/
  separateMembers : Bool

/-- How the pages of a root of the configuration are generated. -/
def Settings.ofRoot (r : Config.ApiRoot) : Settings :=
  ⟨r.options, r.maxDepth.toInt, r.ignored, r.format.name, r.separateMembers⟩

/-- Why pages cannot be generated. -/
inductive Error where
  /-- There is no object of the name. -/
  | unknown (fullname parent name : String)
  /-- There is no markup of the name. -/
  | format (name : String)
  /-- The documentation of an object sets an option that cannot be set. -/
  | setting (message : String)
  /-- Members cannot be listed. -/
  | members (e : Members.Error)
  /-- Names cannot be added to those that are excluded. -/
  | exclusions
  /-- A directory stands in the way. -/
  | directory
  deriving DecidableEq, Repr

/-- The text of an error, if it has one. -/
def Error.message? : Error → Option String
  | .unknown fullname parent name =>
    some ("unknown lua object " ++ fullname ++ ":\n  " ++
      (if parent.isEmpty then "<global namespace>" else parent) ++ " has no item " ++
      quoted name ++ "\nHint: set `lua_ls_verbose = True` in conf.py " ++
      "to see all objects exported by lua analyzer.\n" ++
      "Hint: see troubleshooting guide at " ++
      "https://sphinx-lua-ls.readthedocs.io/en/latest/troubleshooring.html")
  | .format name => some ("unknown apidoc format " ++ name)
  | .setting message => some message
  | .members e => e.message?
  | .exclusions | .directory => none

/-- A file of the directory: its name and its text. -/
abbrev File := String × String

/-- Generates pages; the files are kept when it fails. -/
abbrev Generation := ExceptT Error (StateM (List File))

/-- The object of a name. -/
def findObject (tree : Object) (fullname : String) : Except Error Object :=
  let l := tree.locate fullname
  match l.object with
  | some o => .ok o
  | none =>
    .error (.unknown fullname (Index.joinGiven [some l.moduleName, some l.className]) l.name)

/-- The names that are excluded. -/
def exclusions (o : Options) : Except Error OptionValue :=
  match o.get? "exclude-members" with
  | none | some .all => .ok (.nameSet [])
  | some (.names items) => .ok (.names items)
  | some (.nameSet items) => .ok (.nameSet items)
  | some _ => .error .exclusions

/-- Excludes a name. A list of names that was given cannot be changed. -/
def exclude (v : OptionValue) (name : String) : Except Error OptionValue :=
  match v with
  | .nameSet items => .ok (.nameSet (if items.contains name then items else items ++ [name]))
  | _ => .error .exclusions

/-- The members of a module that are not described on its page: the names that are excluded, and
the full names of those that have a page, with whether they are globals. -/
structure Division where
  excluded : OptionValue
  below : Table Bool

/-- Decides on a member of a module. -/
def divide (s : Settings) (fullname : String) (d : Division) (m : Member) :
    Except Error Division := do
  if m.object.kind? != some .module_ && !s.separateMembers then return d
  let isGlobal := m.object.details.toplevel
  let name := if isGlobal then m.name else fullname ++ "." ++ m.name
  let excluded ← exclude d.excluded m.name
  let below := if s.ignored.any fun p => Glob.fits p name then d.below
    else d.below.set name isGlobal
  return ⟨excluded, below⟩

/-- An option as text. -/
def optionText : OptionValue → String
  | .flag | .all => ""
  | .off => "False"
  | .text s => s
  | .names items | .nameSet items => ", ".intercalate items.mergeSort

/-- What kind of object a page is about. -/
def label (isGlobal : Bool) (o : Object) : String :=
  if isGlobal then "Global"
  else match o.kind? with
    | some k => titleCase (((ObjType.ofName k.name).label?).getD k.name)
    | none => "Object"

/-- The page of an object and the pages below it. -/
def pageOf (tree : Object) (ignoreFiles : Bool) (s : Settings) (deeper isGlobal : Bool)
    (parentModule : Option String) (fullname : String) : Except Error (Page × Table Bool) := do
  let o ← findObject tree fullname
  let options ← (o.reading.options.foldlM (Options.addSetting fullname) s.options).mapError .setting
  let start : Division := ⟨← exclusions options, []⟩
  let d ← if deeper && o.kind? == some .module_ then do
      let path := splitString '.' fullname
      let members ← (Members.list tree ignoreFiles path o none options true).mapError .members
      members.foldlM (divide s fullname) start
    else pure start
  let options : Table String :=
    ((options.set "exclude-members" d.excluded).map fun row => (row.1, optionText row.2))
  let options := if isGlobal then (options.set "global" "").set "module" "" else options
  return (⟨label isGlobal o, fullname, parentModule, options, d.below.keys⟩, d.below)

/-- The text of a page in the markup of the given name. -/
def pageText (format : String) (p : Page) : Except Error String :=
  match format with
  | "rst" => .ok p.restructured
  | "md" => .ok p.markdown
  | name => .error (.format name)

/-- Writes a file. -/
def write (name text : String) : Generation Unit := modify fun files => Table.set files name text

/-- Generates the page of an object and the pages below it, down to the given depth. The first page
is the index of the directory. -/
def generate (tree : Object) (ignoreFiles : Bool) (s : Settings) (depth : Nat)
    (first isGlobal : Bool) (parentModule : Option String) (fullname : String) :
    Generation Unit := do
  let (page, below) ← liftExcept
    (pageOf tree ignoreFiles s (0 < depth) isGlobal parentModule fullname)
  let text ← liftExcept (pageText s.format page)
  write ((if first then "index" else fileName fullname) ++ "." ++ s.format) text
  match depth with
  | 0 => pure ()
  | depth + 1 =>
    below.forM fun child =>
      generate tree ignoreFiles s depth false child.2
        (if child.2 then some fullname else parentModule) child.1
where
  /-- The value of a computation, or its error. -/
  liftExcept {α : Type} : Except Error α → Generation α
    | .ok a => pure a
    | .error e => throw e

/-- The options with those that every page has. -/
def withPageDefaults (o : Options) : Options :=
  ((o.setDefault "members" .all).setDefault "recursive" .all).setDefault "index-table" .all

/-- The files that are generated for a module, and the error that stopped it. -/
def files (tree : Object) (ignoreFiles : Bool) (s : Settings) (fullname : String) :
    List File × Option Error :=
  let s := { s with options := withPageDefaults s.options }
  match (generate tree ignoreFiles s s.depth.toNat true false none fullname).run.run [] with
  | (.ok _, files) => (files, none)
  | (.error e, files) => (files, some e)

/-! ### Directories -/

/-- Brings a directory up to date with generated files: they are written, and if all were generated
the files that are not among them are removed. -/
def update (dir : Path) (generated : List File) (complete : Bool) (disk : Table String) :
    Except Error (Table String) × Table String :=
  let path (name : String) : String := (dir.child name).toString
  let written := Table.update disk (generated.map fun f => (path f.1, f.2))
  if !complete then (.ok written, written)
  else
    let inside (p : String) : Bool := (Path.ofString p).isBelow dir
    let nested (p : String) : Bool := inside p && (Path.ofString p).parent != dir
    if written.any fun f => nested f.1 then (.error .directory, written)
    else
      let kept := written.filter fun f =>
        !inside f.1 || (generated.map fun g => path g.1).contains f.1
      (.ok kept, kept)

/-! ### Capital and small letters -/

/-- The system on which pages are generated. -/
structure System where
  platform : String
  /-- The answer of the program that changes a directory. -/
  helperCode : Int

/-- What is known of the letters of a directory: the answers that are left when directories are
tested, whether capital and small letters are the same in them, and the programs that were run. -/
structure Probing where
  answers : List Bool
  calls : List (List String)

/-- The names of the files with which a directory is tested. -/
def probeNames : List String :=
  ["__sphinx_lua_ls_CASE_SENSITIVITY_TEST", "__sphinx_lua_ls_case_sensitivity_test"]

/-- A directory is tested with the file of the path. -/
def isProbe (dir : Path) (path : String) : Bool :=
  (Path.ofString path).parent == dir && probeNames.contains (Path.ofString path).fileName

/-- The disk when directories were tested: none of the files of the tests is left. -/
def removeProbes (dirs : List Path) (disk : Table String) : Table String :=
  disk.filter fun f => !dirs.any fun dir => isProbe dir f.1

/-- Tests whether capital and small letters are the same in a directory. -/
def probe (p : Probing) : Bool × Probing :=
  (p.answers.head?.getD false, { p with answers := p.answers.drop 1 })

/-- Makes a directory tell apart capital and small letters, if that is possible; whether it does. -/
def ensureCaseSensitive (sys : System) (dir : Path) (p : Probing) : Bool × Probing :=
  let (same, p) := probe p
  if !same then (true, p)
  else if sys.platform != "win32" then (false, p)
  else
    let p := { p with
      calls := p.calls ++ [["fsutil.exe", "file", "setCaseSensitiveInfo", dir.toString, "enable"]] }
    if sys.helperCode != 0 then (false, p)
    else
      let (same, p) := probe p
      (!same, p)

/-- The warning on files whose names differ in capital and small letters only. -/
def caseWarning (sys : System) (dir out : Path) : String :=
  "Running Lua apidoc on case-insensitive file system.\n" ++
  "If you experience issues, see documentation for potential solutions:\n" ++
  "    https://sphinx-lua-ls.readthedocs.io/en/stable/settings.html" ++
  "#lua_ls_apidoc_separate_members" ++
  (if sys.platform == "win32" then
    "\nYou can make relevant directories case-sensitive by running:" ++
    "\n    fsutil.exe file setCaseSensitiveInfo \"" ++ dir.toString ++ "\" enable" ++
    "\n    fsutil.exe file setCaseSensitiveInfo \"" ++ out.toString ++ "\" enable" ++
    "\nSee more info at:" ++
    "\n    https://learn.microsoft.com/en-us/windows/wsl/case-sensitivity"
  else "")

/-- Two names differ in capital and small letters only. -/
def clash (names : List String) : Bool :=
  (names.map lower).eraseDups.length != names.eraseDups.length

/-- What a run leaves. -/
structure Outcome where
  disk : Table String
  /-- What is left of the answers, and the programs that were run. -/
  probing : Probing
  warnings : List String
  error : Option Error

/-- Generates the pages of a module into a directory; the documentation is built into `out`, and
both directories are tested. The disk is ideal: names may have any length, all files can be read,
written and removed, there are no empty directories, and no directory has the name of a file that is
made. -/
def run (tree : Object) (ignoreFiles : Bool) (sys : System) (out dir : Path) (fullname : String)
    (s : Settings) (disk : Table String) (p : Probing) : Outcome :=
  let (dirSensitive, p) := ensureCaseSensitive sys dir p
  let (outSensitive, p) := ensureCaseSensitive sys out p
  let left := removeProbes [dir, out]
  match files tree ignoreFiles s fullname with
  | (generated, some e) => ⟨left (update dir generated false disk).2, p, [], some e⟩
  | (generated, none) =>
    let warnings :=
      if !(dirSensitive && outSensitive) && clash (generated.map Prod.fst) then
        [caseWarning sys dir out] else []
    match update dir generated true disk with
    | (.ok disk, _) => ⟨left disk, p, warnings, none⟩
    | (.error e, disk) => ⟨left disk, p, warnings, some e⟩

/-- The warning that there is no analyzer. -/
def disabled : String := "apidoc requested, but the language server backend is disabled"

end LuaDocs.Apidoc
