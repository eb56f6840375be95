import LuaDocs.Analyzer.EmmyLua
import LuaDocs.Analyzer.LuaLs
import LuaDocs.Config
import LuaDocs.Server.Check

/-!
# The analysis of a project

The tree of a project is kept from one build to the next, with the directories that were read and
the times at which the files were last changed. The analyzer is run again only if the directories
are others, if a file has gone or has been changed, or if there is a Lua file that was not known.
Nothing else is looked at: neither the analyzer itself, nor how constructors are recognised, nor
configuration files that have come into being.

## Main definitions

* `Project.Disk`: the files and directories that can be seen.
* `Project.topmostRepository?`: the outermost directory under version control.
* `Project.Store`: what is kept from one build to the next.
* `Project.isStale`: the analyzer must be run again.
* `Project.refresh`: brings the tree up to date.
-/

namespace LuaDocs

/-! ### Paths seen from a directory -/

namespace Path

/-- The path and the directories above it, innermost first. -/
def ancestors (p : Path) : List Path :=
  (List.range (p.parts.length + 1)).map fun n => ⟨p.root, p.parts.take (p.parts.length - n)⟩

/-- The number of components with which both lists start. -/
def commonLength : List String → List String → Nat
  | a :: as, b :: bs => if a == b then commonLength as bs + 1 else 0
  | _, _ => 0

/-- The path seen from the directory `dir`, going up as far as need be; there is none if the two
have different roots. -/
def relativeTo? (p dir : Path) : Option Path :=
  if p.root != dir.root then none
  else
    let n := commonLength p.parts dir.parts
    some ⟨"", List.replicate (dir.parts.length - n) ".." ++ p.parts.drop n⟩

/-- The path `p` stands before `q` or is the same: the components are compared one by one. -/
def precedes (p q : Path) : Bool :=
  !List.lex (Text.splitString '/' q.toString) (Text.splitString '/' p.toString) fun a b =>
    decide (a < b)

end Path

namespace Project

/-! ### What can be seen -/

/-- The files and directories that can be seen. -/
structure Disk where
  /-- Files, with the times at which they were last changed. -/
  files : List (Path × Int)
  /-- Directories; those that hold files need not be listed. -/
  directories : List Path
  deriving DecidableEq, Repr

namespace Disk

/-- The time at which a file was last changed. -/
def time? (d : Disk) (p : Path) : Option Int := d.files.lookup p

/-- There is a file or a directory at the path. -/
def hasPath (d : Disk) (p : Path) : Bool :=
  (d.files.any fun f => f.1.isBelow p) || d.directories.any fun q => q.isBelow p

end Disk

/-- The path is that of a Lua file in a directory or the directories in it. -/
def isLuaFile (dir p : Path) : Bool :=
  p.isBelow dir && p != dir && ".lua".toList.isSuffixOf p.fileName.toList

/-- The Lua files in a directory and the directories in it. -/
def Disk.luaFiles (d : Disk) (dir : Path) : List Path :=
  (d.files.map Prod.fst).filter (isLuaFile dir)

/-- What directories under version control hold. -/
def repositoryMarks : List String := [".git", ".hg", ".svn"]

variable [FileSystem]

/-- The outermost directory under version control among a directory and those above it. -/
def topmostRepository? (d : Disk) (dir : Path) : Option Path :=
  (dir.resolve.ancestors.filter fun p =>
    repositoryMarks.any fun mark => d.hasPath (p.child mark)).getLast?

/-! ### What is kept -/

/-- What is kept from one build to the next. Each part may be missing: a build may stop between
keeping one part and the next. -/
structure Store where
  tree : Option Object
  /-- The directories that were read. -/
  roots : Option (List Path)
  /-- The files that were met, with the times at which they were last changed. -/
  times : Option (List (Path × Int))

/-- Nothing has been kept. -/
def Store.empty : Store := ⟨none, none, none⟩

/-- The directories that are read, in order. -/
def directories (c : Config) : List Path :=
  (c.projectDirectories.getD [c.projectRoot]).mergeSort Path.precedes

/-- A file has gone, or was changed after the given time. -/
def isOutdated (d : Disk) (file : Path × Int) : Bool :=
  match d.time? file.1 with
  | some t => decide (file.2 < t)
  | none => true

/-- What has been kept is of no use: the analyzer must be run again. -/
def isStale (dirs : List Path) (d : Disk) (s : Store) : Bool :=
  match s.tree, s.roots, s.times with
  | some _, some roots, some times =>
    roots != dirs || times.any (isOutdated d) ||
      dirs.any fun dir => (d.luaFiles dir).any fun p => !(times.map Prod.fst).contains p
  | _, _, _ => true

/-! ### Bringing the tree up to date -/

/-- Why the tree is not brought up to date. -/
inductive Error where
  /-- There is no analyzer that can be used. -/
  | server (message : String)
  /-- Something else went wrong while the analyzer was looked for. -/
  | search (message : String)
  /-- A document cannot be read. -/
  | analysis (e : Analysis.Error)
  /-- A file that was met is not there. -/
  | noFile
  deriving DecidableEq, Repr

/-- What the outside world answers. -/
structure Host where
  disk : Disk
  /-- The directory from which others are named. -/
  workingDirectory : Path
  /-- Why there is no analyzer that can be used, if there is none. -/
  obstacle : Option Error
  /-- The document of a directory. -/
  analyze : Path → Json

/-- What changes while the tree is brought up to date. -/
structure State where
  store : Store
  luaVersion : Option String
  /-- The directories that were read, each with the configuration files. -/
  runs : List (Path × List Path)
  titles : List String
  warnings : List String

/-- What is done to bring a tree up to date. A failure does not take back what has been done. -/
abbrev Update (α : Type) := ExceptT Error (StateM State) α

/-- The configuration files of the analyzers in the directory of the project. -/
def configFiles (d : Disk) (root : Path) : List Path :=
  ([".emmyrc.json", ".luarc.json"].map root.child).filter d.hasPath

/-- How a directory is named: as seen from the working directory, unless nothing but steps upwards
would be said. -/
def directoryName (workingDirectory dir : Path) : String :=
  match dir.relativeTo? workingDirectory with
  | none => dir.toString
  | some p =>
    if "..".toList.isSuffixOf p.toString.toList then dir.toString else p.toString

/-- How the documents of an analyzer are read. -/
def reader : Analyzer → Analysis → Path → Json → Analysis.Reader Analysis
  | .luaLs => LuaLs.read
  | .emmyLua => EmmyLua.read

/-- Runs the analyzer in a directory. -/
def readDirectory (host : Host) (analyzer : Analyzer) (configs : List Path)
    (repository : Option Path) (a : Analysis) (dir : Path) : Update Analysis := do
  if let some root := repository then
    unless dir.isBelow root do
      modify fun s => { s with warnings := s.warnings ++
        ["project directory " ++ dir.toString ++ " appears to be outside of your VCS root " ++
          root.toString] }
  modify fun s => { s with
    titles := s.titles ++
      ["running lua language server in " ++ directoryName host.workingDirectory dir]
    runs := s.runs ++ [(dir, configs)] }
  match reader analyzer a dir (host.analyze dir) with
  | .ok a => return (host.disk.luaFiles dir).foldl Analysis.noteFile a
  | .error e => throw (.analysis e)

/-- Runs the analyzer in directories, one after the other. -/
def readDirectories (host : Host) (analyzer : Analyzer) (configs : List Path)
    (repository : Option Path) (a : Analysis) : List Path → Update Analysis
  | [] => return a
  | dir :: rest => do
    let a ← readDirectory host analyzer configs repository a dir
    readDirectories host analyzer configs repository a rest

/-- Files with the times at which they were last changed; all of them must be there. -/
def times? (d : Disk) (files : List Path) : Option (List (Path × Int)) :=
  files.mapM fun p => (d.time? p).map fun t => (p, t)

/-- Runs the analyzer, and keeps the tree, the directories and the times. -/
def rebuild (c : Config) (host : Host) (analyzer : Analyzer) (dirs : List Path) :
    Update Unit := do
  if let some e := host.obstacle then throw e
  let configs := configFiles host.disk c.projectRoot
  let start := configs.foldl Analysis.noteFile { Analysis.start analyzer with rule := c.rule }
  let a ← readDirectories host analyzer configs (topmostRepository? host.disk c.projectRoot)
    start dirs
  modify fun s => { s with store := { s.store with tree := some a.root, roots := some dirs } }
  match times? host.disk a.files with
  | none => throw .noFile
  | some times =>
    modify fun s => { s with
      store := { s.store with times := some times }
      luaVersion := if (given s.luaVersion).isNone && (given a.runtimeVersion).isSome then
          a.runtimeVersion
        else s.luaVersion }

/-- Brings the tree up to date, unless there is no analyzer. -/
def refresh (c : Config) (host : Host) : Update Unit := do
  match c.backend with
  | .disabled => return
  | .analyzer analyzer =>
    let dirs := directories c
    if isStale dirs host.disk (← get).store then rebuild c host analyzer dirs

end Project

end LuaDocs
