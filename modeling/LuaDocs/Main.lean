import LuaDocs.Server.Command
import LuaDocs.Server.Json

/-!
# The command line

Installs an analyzer. What the outside world offers is read from the standard input as one JSON
value; the report goes to the standard error.
-/

namespace LuaDocs.Server

/-- How the command is used. -/
def usage : String :=
  "usage: luadocs [-h] [--runtime \x7bluals,emmylua\x7d] [--min MIN] [--max MAX] [--skip SKIP]\n" ++
    "               platform machine path\n"

/-- Carries a command out with what the outside world offers: the report, and the status. -/
def Command.report [FileSystem] (c : Command) (offers : Json) : String × UInt32 :=
  match Host.ofJson offers "" "" "" with
  | .error e => (e ++ "\n", 1)
  | .ok host =>
    let (outcome, state) := c.run.runOn host ⟨[], []⟩
    let report := transcript state.events
    match outcome with
    | .ok _ => (report, 0)
    | .error e => (report ++ e.message ++ "\n", 1)

end LuaDocs.Server

open LuaDocs Server

/-- Reads a command line and carries it out. -/
def main (args : List String) : IO UInt32 := do
  match Command.parse args with
  | .help =>
    IO.print usage
    return 0
  | .misuse =>
    IO.eprint usage
    return 2
  | .run c =>
    let input ← (← IO.getStdin).readToEnd
    let (report, status) := @Command.report .linkless c ((Json.parse? input).getD (.obj []))
    IO.eprint report
    return status
