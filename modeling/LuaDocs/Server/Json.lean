import LuaDocs.Json.Decode
import LuaDocs.Server.Install

/-!
# The outside world as a document

The programs on a disk, the releases of an analyzer and the archive that is handed out for them can
be given as JSON values. A release lists the names of its files, and a file is asked for under its
name.
-/

namespace LuaDocs.Server

open Json

/-- Reads a program: what it prints, and the status it ends with, of which a system keeps the
remainder modulo 256. -/
def Program.ofJson (j : Json) : Decoder Program := do
  let status := (← optionalAt asInt j "exit").getD 0
  return ⟨(← j.stringAt? "stdout").getD "", status % 256⟩

/-- The address of a file. -/
def urlOf (name : String) : String := "x://" ++ name

/-- Reads a release. -/
def Release.ofJson (j : Json) : Decoder Release := do
  let assets ← (← j.listOrNil "assets").mapM asString
  return ⟨← j.stringAt "tag", j.boolOr "draft" false, j.boolOr "prerelease" false,
    assets.map fun name => ⟨name, urlOf name⟩⟩

/-- Reads what is handed out for a file. From the status 400 on nothing is. -/
def archiveOfJson (j : Json) : Decoder (Except String Archive) := do
  let status := (← optionalAt asInt j "status").getD 200
  if status ≥ 400 then return .error s!"status {status}"
  let size := match ← j.stringAt? "length" with
    | none | some "ok" => some "1"
    | some "missing" => none
    | some text => some text
  return .ok ⟨size, [(1, 0)], ← j.stringAt "member", ← Program.ofJson j⟩

/-- Reads the outside world: the releases and what is handed out for each of their files. No home
directory is known. -/
def Host.ofJson (j : Json) (platform machine searchPath : String) : Decoder Host := do
  let releases ← (← j.listOrNil "releases").mapM Release.ofJson
  let archive ← optionalAt archiveOfJson j "download"
  return ⟨platform, machine, searchPath, fun _ => none, releases,
    fun url => archive.getD (.error ("nothing is offered at " ++ url))⟩

end LuaDocs.Server
