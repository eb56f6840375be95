import LuaDocs.Server
import LuaDocs.Version

/-!
# The version of a program

A program is asked for its version, and what it prints is compared with the versions that are asked
for. The program may print no version at all, or fail.
-/

namespace LuaDocs

namespace Server

open Text

/-- Why there is no program that can be used. -/
inductive Error where
  /-- A version that is asked for, printed, or the name of a release is not written properly. -/
  | version (e : Version.Error)
  /-- The least version is not below the one that is too new. -/
  | range (least bound : String)
  /-- The program is not found, and is not installed. -/
  | notInstalled (a : Analyzer)
  /-- The program that is found has another version, and none is installed. -/
  | outdated (a : Analyzer) (found : Option String) (wanted : Requirement)
  /-- No release has a version that is asked for. -/
  | noRelease (a : Analyzer) (wanted : Requirement)
  /-- The release has no archive for the system. -/
  | noArchive (a : Analyzer) (platform machine : String)
  /-- The archive is not handed out. -/
  | refused (reason : String)
  /-- There is no program at the place where it should be. -/
  | noFile (path : Path)
  /-- Something went wrong while the program was installed. -/
  | install (a : Analyzer) (cause : Error)
  /-- The program that was installed has another version. -/
  | wrongVersion (a : Analyzer) (found : String) (wanted : Requirement)
  /-- The program that was installed does not print a version. -/
  | silent (a : Analyzer)
  /-- The program stands below the home directory of a user who is not known. -/
  | noHome
  deriving DecidableEq, Repr

/-- The text of an error. -/
def Error.message : Error → String
  | .version e => e.message
  | .range least bound =>
    s!"lua_ls_min_version is greater or equal to lua_ls_max_version: {least} > {bound}"
  | .notInstalled a =>
    a.program ++ " is not installed on your system; see installation instructions at " ++ a.manual
  | .outdated a found wanted =>
    "you have " ++ a.program ++ " " ++ found.getD "None" ++ ", but " ++ wanted.describe ++
      " is required; see upgrade instructions at " ++ a.manual
  | .noRelease a wanted => "unable to find " ++ a.program ++ " release for " ++ wanted.describe
  | .noArchive a platform machine =>
    "unable to find " ++ a.program ++ s!" release for {platform}-{machine}"
  | .refused reason => reason
  | .noFile path => "[Errno 2] No such file or directory: " ++ quoted path.toString
  | .install a cause =>
    a.program ++ " install failed: " ++ cause.message ++ "; please install it manually -- see " ++
      a.manual
  | .wrongVersion a found wanted =>
    "downloaded " ++ a.program ++ " printed version " ++ found ++ ", but " ++ wanted.describe ++
      " is required; are you sure lua_ls_min_version and lua_ls_max_version are correct?"
  | .silent a => "downloaded " ++ a.program ++ " failed to print its version"
  | .noHome => "Could not determine home directory."

/-- The versions that are asked for; one of them must be possible. -/
def validRange (r : Requirement) : Except Error Requirement.Range := do
  let range ← r.range.mapError .version
  if range.isEmpty then throw (.range r.least (r.bound?.getD ""))
  return range

/-- What is known of a program after it has been asked for its version. -/
inductive Verdict where
  /-- There is no program, or it failed. -/
  | silent
  /-- There is no version in what the program prints. -/
  | unclear (text : String)
  /-- The version is none of those that are asked for. -/
  | unsuitable (version : String)
  /-- The version is one of those that are asked for. -/
  | suitable (version : String)
  deriving DecidableEq, Repr

/-- The program can be used. -/
def Verdict.isSuitable : Verdict → Bool
  | .suitable _ => true
  | _ => false

/-- The version, or what the program prints instead. -/
def Verdict.text? : Verdict → Option String
  | .silent => none
  | .unclear text => some text
  | .unsuitable version => some version
  | .suitable version => some version

/-- What the program prints, without blanks around it, if all goes well. -/
def Program.text? (p : Program) : Option (List Char) :=
  if p.status == 0 then some (trim p.output.toList) else none

/-- Asks a program, if there is one, for its version. -/
def judge (range : Requirement.Range) (program : Option Program) : Except Error Verdict :=
  match program.bind Program.text? with
  | none => return .silent
  | some text =>
    match Version.find? text with
    | none => return .unclear (String.ofList text)
    | some found => do
      let v ← (Version.ofString (String.ofList found)).mapError .version
      return if range.accepts v then .suitable (String.ofList found)
        else .unsuitable (String.ofList found)

/-- Asks a program for its version, and compares it with the versions that are asked for. -/
def check (r : Requirement) (program : Option Program) : Except Error Verdict := do
  judge (← validRange r) program

end Server

end LuaDocs
