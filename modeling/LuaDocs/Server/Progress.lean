import LuaDocs.Number

/-!
# Reports on an installation

While an analyzer is installed, a line of text says what is going on. It is written over and over:
each text ends with a carriage return, and blanks are added until it covers the text before it. Two
styles are known. The plain one writes the line as it is; the one for builds writes it in bold, or,
if the build is verbose, writes each description once on a line of its own.
-/

namespace LuaDocs

namespace Progress

/-- How much of a file has been loaded. -/
structure Amount where
  /-- The bytes loaded so far. -/
  done : Rat
  /-- All bytes; zero if nothing is loaded. -/
  total : Rat
  /-- The bytes per second. -/
  speed : Rat
  deriving DecidableEq

/-- Nothing is loaded. -/
def Amount.none : Amount := ⟨0, 0, 0⟩

/-- Bytes as megabytes. -/
def megabytes (x : Rat) : Rat := Number.nearest (x / 1048576)

/-- The share of what has been loaded in percent, at least three characters wide. A share of
nothing in a negative total is a negative zero. -/
def percent (a : Amount) : String :=
  let share := Number.nearest (Number.nearest (a.done / a.total) * 100)
  let sign := if decide (a.done < 0) != decide (a.total < 0) then "-" else ""
  let text := sign ++ Number.fixedSize 0 share ++ "%"
  "".pushn ' ' (3 - text.length) ++ text

/-- The text in the given style of a terminal. -/
def styled (code text : String) : String := "\x1b[" ++ code ++ "m" ++ text ++ "\x1b[39;49;00m"

/-- The text in bold. -/
def bold (text : String) : String := styled "01" text

/-- The text in red. -/
def red (text : String) : String := styled "91" text

/-- The styles of reports. -/
inductive Style where
  | plain
  | build (verbose : Bool)
  deriving DecidableEq, Repr

/-- How much has been loaded, in the given style. -/
def Style.amount (s : Style) (a : Amount) : String :=
  let done := Number.fixed 1 (megabytes a.done)
  let total := Number.fixed 1 (megabytes a.total)
  match s with
  | .plain => s!": {done}/{total}MB - " ++ Number.fixed 2 (megabytes a.speed) ++ "MB/s"
  | .build _ =>
    " [" ++ percent a ++ s!"] {done}/{total}MB (" ++ Number.fixed 1 (megabytes a.speed) ++ "MB/s)"

/-- The line for a description. -/
def Style.line (s : Style) (text : String) (a : Amount) : String :=
  (match s with
    | .plain => text
    | .build _ => bold (text ++ "...")) ++
  if a.total == 0 then "" else s.amount a

/-- A text that is written. -/
structure Message where
  text : String
  /-- Nothing is written after the text; otherwise it stands on a line of its own. -/
  inline : Bool
  deriving DecidableEq, Repr

end Progress

open Progress

/-- A report under way. -/
structure Reporter where
  style : Style
  width : Nat
  last : Option String
  deriving DecidableEq, Repr

namespace Reporter

/-- Nothing has been written. -/
def new (style : Style) : Reporter := ⟨style, 0, none⟩

/-- Writes a description and what has been loaded. -/
def progress (r : Reporter) (text : String) (a : Amount) : Reporter × List Message :=
  if r.style = .build true then
    ({ r with last := some text }, if r.last = some text then [] else [⟨text, false⟩])
  else
    let line := r.style.line text a
    ({ r with last := some text, width := line.length },
      [⟨line.pushn ' ' (r.width - line.length) ++ "\r", true⟩])

/-- Writes a last description, and goes to the next line. -/
def close (r : Reporter) (text : String) : Reporter × List Message :=
  let (r, messages) := r.progress text .none
  (r, messages ++ [⟨"\n", true⟩])

/-- Says how the installation ended: with an error, or, if something has been written, well. An
empty error is none. -/
def finish (r : Reporter) (error : Option String) : Reporter × List Message :=
  match error.filter fun e => !e.isEmpty with
  | some e => r.close ("installation failed: " ++ red e)
  | none => if r.width == 0 then (r, []) else r.close "installed"

end Reporter

end LuaDocs
