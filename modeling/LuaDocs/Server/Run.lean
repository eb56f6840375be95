import LuaDocs.Json
import LuaDocs.Server
import LuaDocs.Text.Utf8

/-!
# Running an analyzer

An analyzer reads a directory and writes its document into another one. It may fail; then what it
has printed is shown.
-/

namespace LuaDocs.Server

open Text

/-- The arguments of an analyzer that reads `input` and writes into the directory `output`. Only
one of the analyzers can be given configuration files. -/
def arguments (a : Analyzer) (input output : String) (configs : List String) : List String :=
  match a with
  | .emmyLua =>
    ["-f", "json", "-o", output] ++ (if configs.isEmpty then [] else "-c" :: configs) ++ [input]
  | .luaLs => ["--doc", input, "--doc_out_path", output]

/-- The environment of an analyzer: the one of the run, of the installation, or of the process, in
which programs are looked for in the directories `searchPath`. -/
def environment (run installation : Option (Table String)) (process : Table String)
    (searchPath : String) : Table String :=
  Table.set ((run.or installation).getD process) "PATH" searchPath

/-- What a program has printed. -/
inductive Output where
  /-- Nothing is known of it. -/
  | unknown
  | text (s : String)
  | bytes (bs : List Nat)
  deriving DecidableEq, Repr

/-- What is shown of an output. -/
def Output.shown : Output → String
  | .unknown => ""
  | .text s => s
  | .bytes bs => String.ofList (utf8Decode bs)

/-- Why there is no document. -/
inductive RunError where
  /-- The analyzer ended with a status other than zero, which is negative for a signal. -/
  | status (status : Int) (stdout stderr : Output)
  /-- What was written is no document. -/
  | document
  deriving DecidableEq, Repr

/-- The signals that have a name. -/
def isSignal (n : Nat) : Bool := (1 ≤ n && n ≤ 31) || n == 34 || n == 64

/-- How a program ended. -/
def statusText (status : Int) : String :=
  if status < 0 then
    if isSignal status.natAbs then s!"signal {status.natAbs}" else s!"unknown signal {status}"
  else s!"code {status}"

/-- An output under its title, unless there is none. -/
def Output.titled (title : String) (o : Output) : String :=
  if o.shown.isEmpty then "" else s!"\n\n{title}:\n{o.shown}"

/-- The text of an error, for the errors that have one. -/
def RunError.message? : RunError → Option String
  | .status n out err =>
    some ("LuaLs run failed with " ++ statusText n ++ err.titled "Stderr" ++ out.titled "Stdout")
  | .document => none

/-- A run that has ended. -/
structure Run where
  status : Int
  stdout : Output
  stderr : Output
  /-- The text that was written as a document. -/
  written : String
  deriving DecidableEq, Repr

/-- The document that a run gives. -/
def Run.document (r : Run) : Except RunError Json :=
  if r.status != 0 then .error (.status r.status r.stdout r.stderr)
  else match Json.parse? r.written with
    | some j => .ok j
    | none => .error .document

end LuaDocs.Server
