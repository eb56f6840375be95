import LuaDocs.Server.Check
import LuaDocs.Server.Progress
import LuaDocs.Text.Case

/-!
# Installing an analyzer

A program that is found on the system is used if its version is one of those that are asked for.
Otherwise the one in the directory of an earlier installation is tried, and if that does not suit
either, the first release with a version that is asked for is loaded into that directory.

What happens on the way is kept as a list of events, also if the installation fails. From them a
report can be written.

## Main definitions

* `Server.Host`: what the outside world answers.
* `Server.Event`: what happens on the way.
* `Server.Install`: installations under way; `Server.runOn`.
* `Server.download`: loads a release.
* `Server.renew`, `Server.install`: the program of an installation, which is made if need be.
* `Server.provide`: the program to use.
* `Server.transcript`: what is written in the plain style.

## Main statements

* `Server.Install.run_bind`: what a failure leaves behind.
-/

namespace LuaDocs

namespace Server

open Text

/-! ### The outside world -/

/-- A file of a release. -/
structure Asset where
  name : String
  url : String
  deriving DecidableEq, Repr

/-- A release of an analyzer. -/
structure Release where
  tag : String
  /-- The release is not published. -/
  draft : Bool
  /-- The release is for trial. -/
  preview : Bool
  assets : List Asset
  deriving DecidableEq, Repr

/-- A file that is handed out: an archive with one program. -/
structure Archive where
  /-- The size that is announced. -/
  size : Option String
  /-- The sizes of the pieces in which the file arrives, with the speed after each. -/
  pieces : List (Nat × Rat)
  /-- The path of the program in the archive. -/
  file : String
  program : Program

/-- What the outside world answers. -/
structure Host where
  platform : String
  /-- The name of the kind of processor. -/
  machine : String
  /-- The directories in which programs are looked for, also when a name without a directory is
  run. -/
  searchPath : String
  /-- The home directories of users. -/
  home : String → Option Path
  /-- The releases, newest first. -/
  releases : List Release
  /-- The answer to the request for a file: the reason why it is refused, or the file. -/
  fetch : String → Except String Archive

/-! ### Installations under way -/

/-- What happens while a program is looked for. -/
inductive Event where
  | start
  /-- A description of what is going on. -/
  | progress (text : String) (amount : Progress.Amount)
  | detail (text : String)
  /-- The releases of a repository are asked for. -/
  | ask (repository : String)
  /-- A file is asked for. -/
  | fetch (url : String)
  | warning (text : String)
  /-- The search ends, with an error or well. -/
  | finish (error : Option Error)

/-- What changes while a program is looked for. -/
structure State where
  disk : Disk
  events : List Event

/-- Installations under way. A failure does not take back what has happened. -/
abbrev Install (α : Type) := ReaderT Host (ExceptT Error (StateM State)) α

namespace Install

variable {α β : Type}

/-- The outcome of an installation and the state that it leaves. -/
def runOn (x : Install α) (host : Host) (s : State) : Except Error α × State :=
  ((x.run host).run).run s

/-- The second part of an installation sees what the first part leaves, and is not reached if the
first part fails. -/
theorem run_bind (x : Install α) (f : α → Install β) (host : Host) (s : State) :
    (x >>= f).runOn host s =
      match x.runOn host s with
      | (.ok a, s) => (f a).runOn host s
      | (.error e, s) => (.error e, s) := by
  simp only [runOn, ReaderT.run_bind, ExceptT.run_bind, StateT.run_bind]
  change (match ((x.run host).run).run s with
    | (a, s) => (ExceptT.bindCont (fun a => (f a).run host) a : StateM State _).run s) = _
  rcases ((x.run host).run).run s with ⟨_ | _, _⟩ <;> rfl

/-- Notes an event. -/
def emit (e : Event) : Install Unit :=
  modify fun s => { s with events := s.events ++ [e] }

/-- Notes a detail. -/
def detail (text : String) : Install Unit := emit (.detail text)

/-- Notes what is going on. -/
def progress (text : String) (amount : Progress.Amount) : Install Unit :=
  emit (.progress text amount)

/-- An outcome as a part of an installation. -/
def lift (r : Except Error α) : Install α :=
  match r with
  | .ok a => pure a
  | .error e => throw e

/-- The program at a path. -/
def program? [FileSystem] (path : Path) : Install (Option Program) := do
  return (← get).disk.program? path

end Install

open Install

variable [FileSystem]

/-! ### Asking a program for its version -/

/-- Where a program is: the text that the search for it gives, or a path. -/
inductive Place where
  | text (s : String)
  | path (p : Path)

namespace Place

def toPath : Place → Path
  | .text s => .ofString s
  | .path p => p

def toString : Place → String
  | .text s => s
  | .path p => p.toString

/-- How the place is written before the program is asked. -/
def shown : Place → String
  | .text s => quotedAscii s
  | .path p => "PosixPath(" ++ quotedAscii p.toString ++ ")"

end Place

/-- The detail that is noted about a program that cannot be used. -/
def Verdict.detail? (r : Requirement) (place : Place) : Verdict → Option String
  | .silent => some (place.toString ++ " failed to print its version")
  | .unclear text => some (place.toString ++ " printed invalid version " ++ quoted text)
  | .unsuitable version =>
    some (place.toString ++ s!" is outdated (got {version}, required {r.least}.." ++
      r.bound.getD "None" ++ ", skip=" ++ quotedList r.skipped ++ ")")
  | .suitable _ => none

/-- Asks the program at a place for its version. -/
def checkAt (r : Requirement) (place : Place) : Install Verdict := do
  let range ← lift (validRange r)
  detail ("checking version of " ++ place.shown)
  let verdict ← lift (judge range (← program? place.toPath))
  (verdict.detail? r place).forM detail
  return verdict

/-! ### Loading a release -/

/-- The first release with a version in the range. -/
def findRelease? (a : Analyzer) (range : Requirement.Range) :
    List Release → Install (Option Release)
  | [] => return none
  | release :: rest => do
    if release.draft || release.preview then findRelease? a range rest
    else
      detail ("found " ++ a.program ++ " release " ++ release.tag)
      match Version.find? release.tag.toList with
      | none =>
        detail "can't parse release tag"
        findRelease? a range rest
      | some found =>
        let v ← lift ((Version.ofString (String.ofList found)).mapError .version)
        if range.accepts v then return some release
        else
          detail "release is outside of allowed version range"
          findRelease? a range rest

/-- The first archive of a release for the systems of the given ending. -/
def findArchive? (a : Analyzer) (ending : String) : List Asset → Install (Option Asset)
  | [] => return none
  | asset :: rest => do
    detail ("trying " ++ a.program ++ " asset " ++ asset.name)
    if a.offers ending asset.name then
      detail ("found " ++ a.program ++ " asset " ++ asset.name)
      return some asset
    else findArchive? a ending rest

/-- The size that is announced for a file; minus one if it is not known. -/
def Archive.announced (f : Archive) : Int := (f.size.bind fun s => readInt? s.toList).getD (-1)

/-- Notes the pieces in which a file of the given size arrives. -/
def receive (text : String) (size : Int) (done : Nat) : List (Nat × Rat) → Install Unit
  | [] => return
  | (piece, speed) :: rest => do
    progress text ⟨(done + piece : Nat), size, speed⟩
    receive text size (done + piece) rest

/-- Loads the first release with a version that is asked for. -/
def download (a : Analyzer) (r : Requirement) (ending platform machine : String) :
    Install Archive := do
  let range ← lift (r.range.mapError .version)
  progress ("resolving " ++ a.program) .none
  emit (.ask a.repository)
  let some release ← findRelease? a range (← read).releases | throw (.noRelease a r)
  let some asset ← findArchive? a ending release.assets | throw (.noArchive a platform machine)
  detail ("downloading " ++ a.program ++ " from " ++ asset.url)
  emit (.fetch asset.url)
  let archive ← lift (((← read).fetch asset.url).mapError .refused)
  let size := archive.announced
  let text := "downloading " ++ a.program
  progress text ⟨0, size, 0⟩
  if size != 0 then receive text size 0 archive.pieces
  return archive

/-! ### Installing -/

/-- Loads a release into a directory. The program must then be at the given place. -/
def unpack (a : Analyzer) (r : Requirement) (dir : Path) (ending platform machine : String) :
    Install Path := do
  let archive ← download a r ending platform machine
  progress ("processing " ++ a.program) .none
  detail ("unpacking " ++ a.program)
  modify fun s => { s with disk := s.disk.place (dir.child archive.file) archive.program }
  let place := dir.child (a.location platform)
  if (← program? place).isNone then throw (.noFile place)
  return place

/-- The cause of a failure is shown with the advice to install the program by hand. -/
def advising {α : Type} (a : Analyzer) (x : Install α) : Install α :=
  tryCatch x fun e => throw (.install a e)

/-- A program that has been installed must have a version that is asked for. -/
def verify (a : Analyzer) (r : Requirement) (place : Path) : Install Unit := do
  let verdict ← checkAt r (.path place)
  unless verdict.isSuitable do
    match verdict.text? with
    | some found => throw (.wrongVersion a found r)
    | none => throw (.silent a)

/-- What is to be done if a program does not suit. -/
structure Plan where
  analyzer : Analyzer
  wanted : Requirement
  dir : Path
  install : Bool
  /-- A release that was loaded is asked for its version. -/
  verify : Bool
  deriving DecidableEq, Repr

/-- Makes an installation. -/
def renew (p : Plan) (ending platform machine : String) : Install Path := do
  let place ← advising p.analyzer (unpack p.analyzer p.wanted p.dir ending platform machine)
  if p.verify then verify p.analyzer p.wanted place
  return place

/-- The program of an installation, which is made if there is none that suits. What a program that
was found on the system has printed is `system`. -/
def install (p : Plan) (platform machine : String) (system : Option (Option String)) :
    Install Path := do
  match Analyzer.archiveEnding? platform machine, p.install with
  | some ending, true =>
    let place := p.dir.child (p.analyzer.location platform)
    if (← program? place).isSome then
      if (← checkAt p.wanted (.path place)).isSuitable then
        detail ("using cached " ++ p.analyzer.program)
        return place
    renew p ending platform machine
  | _, _ =>
    match system with
    | some found => throw (.outdated p.analyzer found p.wanted)
    | none => throw (.notInstalled p.analyzer)

/-! ### Finding -/

/-- What is asked for. -/
structure Request where
  analyzer : Analyzer
  least : Option String
  bound : Option String
  skipped : Option (List String)
  dir : Path
  install : Bool
  deriving DecidableEq, Repr

/-- What stands for the first version that is not known to work. -/
def automatic : String := "__auto__"

/-- The versions that are asked for. -/
def Request.wanted (q : Request) : Requirement :=
  Requirement.bared {
    least := q.least.getD q.analyzer.leastVersion
    bound := if q.bound = some automatic then some q.analyzer.nextVersion else q.bound
    skipped := q.skipped.getD q.analyzer.brokenReleases }

/-- The directory of installations: the one that is set, or one among the temporary files. -/
def defaultDirectory (set : Option String) (temporary : Path) : Path :=
  match set.filter fun s => !s.isEmpty with
  | some dir => .ofString dir
  | none => temporary.child "python_lua_ls_cache"

/-- The directories in which programs are looked for: those of the environment that is given, of
the process, of the system, or the default ones. -/
def searchPath (given : Option (Table String)) (process system : Option String)
    (default : String) : String :=
  ((given.bind fun env => Table.get? env "PATH").or (process.or system)).getD default

/-! ### Reports -/

/-- What is written in the plain style, with all details. -/
def transcriptFrom (r : Reporter) : List Event → String
  | [] => ""
  | .progress text amount :: rest =>
    let (r, messages) := r.progress text amount
    String.join (messages.map Progress.Message.text) ++ transcriptFrom r rest
  | .detail text :: rest => text ++ "\n" ++ transcriptFrom r rest
  | .warning text :: rest => text ++ "\n" ++ transcriptFrom r rest
  | _ :: rest => transcriptFrom r rest

/-- What is written in the plain style, with all details. -/
def transcript (events : List Event) : String := transcriptFrom (.new .plain) events

end Server

end LuaDocs
