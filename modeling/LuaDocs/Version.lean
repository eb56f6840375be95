import LuaDocs.Text.Digit
import LuaDocs.Text.Quoted
import LuaDocs.Text.Split

/-!
# Versions of the analyzers

A version is a list of whole numbers, and versions are compared number by number; of two versions
that agree as far as both go the shorter one is less. A version that is asked for is written with
dots between its numbers. A version that an analyzer prints, or that a release is named by, is
looked for in a text: the first three numbers with dots between them.
-/

namespace LuaDocs

open Text

/-- The numbers of a version. -/
abbrev Version := List Int

namespace Version

/-! ### Reading -/

/-- Why a text is no version. -/
inductive Error where
  /-- A part between the dots is no whole number. -/
  | number (part : String)
  /-- A number has too many digits. -/
  | length (digits : Nat)
  deriving DecidableEq, Repr

/-- The most digits that a number may have. -/
def digitLimit : Nat := 4300

/-- The text of an error; at most 200 characters of the part are shown. -/
def Error.message : Error → String
  | .number part =>
    "invalid literal for int() with base 10: " ++ String.ofList ((quoted part).toList.take 200)
  | .length digits =>
    s!"Exceeds the limit ({digitLimit} digits) for integer string conversion: " ++
      s!"value has {digits} digits; use sys.set_int_max_str_digits() to increase the limit"

/-- Reads a number of a version. -/
def number (part : List Char) : Except Error Int :=
  match readInt? part with
  | none => .error (.number (String.ofList part))
  | some n =>
    let digits := (part.filter isDigit).length
    if digits ≤ digitLimit then .ok n else .error (.length digits)

/-- Reads the numbers of a version, which stand between dots. -/
def ofString (s : String) : Except Error Version := (splitAt '.' s.toList).mapM number

/-! ### Searching -/

/-- The digits that a text starts with, and the rest; there must be a digit. -/
def digits? (s : List Char) : Option (List Char × List Char) :=
  match s.takeWhile isDigit with
  | [] => none
  | ds => some (ds, s.dropWhile isDigit)

/-- Three numbers with dots between them at the start of a text. -/
def triple? (s : List Char) : Option (List Char) := do
  let (a, s) ← digits? s
  let '.' :: s := s | none
  let (b, s) ← digits? s
  let '.' :: s := s | none
  let (c, _) ← digits? s
  return a ++ '.' :: b ++ '.' :: c

/-- The first three numbers in a text that have dots between them. -/
def find? : List Char → Option (List Char)
  | [] => none
  | c :: r => (triple? (c :: r)).or (find? r)

/-! ### Comparing -/

/-- The version `v` is less than `w`: at the first number in which they differ, or as a start of
it. -/
def precedes (v w : Version) : Bool := List.lex v w fun a b => decide (a < b)

/-! ### Versions that are not wanted -/

/-- The version with zeros added until it has `n` numbers. -/
def padTo (v : Version) (n : Nat) : Version := v ++ List.replicate (n - v.length) 0

/-- One of the versions in the list is the start of `v`. Zeros that were added to `v` for one of
them stay for the ones after it. -/
def isSkipped (v : Version) : List Version → Bool
  | [] => false
  | s :: rest => (v.padTo s.length).take s.length == s || isSkipped (v.padTo s.length) rest

end Version

/-- The versions that are asked for, as they are written. -/
structure Requirement where
  least : String
  /-- The first version that is too new, if there is one; an empty text stands for none. -/
  bound : Option String
  skipped : List String
  deriving DecidableEq, Repr

namespace Requirement

/-- The first version that is too new. -/
def bound? (r : Requirement) : Option String := r.bound.filter fun s => !s.isEmpty

/-- The versions in words. -/
def describe (r : Requirement) : String :=
  (match r.bound? with
    | some bound => s!"a version between {r.least} and {bound}"
    | none => s!"version {r.least} or newer") ++
  if r.skipped.isEmpty then ""
  else ", and not " ++ String.intercalate ", " r.skipped

/-- A version without the letter that may stand before it. -/
def bare (s : String) : String :=
  match s.toList with
  | 'v' :: r => String.ofList r
  | _ => s

/-- The versions without the letters that may stand before them. -/
def bared (r : Requirement) : Requirement :=
  ⟨bare r.least, r.bound.map bare, r.skipped.map bare⟩

/-- The versions that are asked for, as numbers. -/
structure Range where
  least : Version
  bound : Option Version
  skipped : List Version
  deriving DecidableEq, Repr

/-- The version is not too old, not too new and not one of those that are not wanted. -/
def Range.accepts (r : Range) (v : Version) : Bool :=
  !v.precedes r.least && (r.bound.all fun b => v.precedes b) && !v.isSkipped r.skipped

/-- There is a version that is too new, and it is not above the least one. -/
def Range.isEmpty (r : Range) : Bool := r.bound.any fun b => !r.least.precedes b

/-- Reads the versions: the least one, those that are not wanted, and the one that is too new. -/
def range (r : Requirement) : Except Version.Error Range := do
  let least ← Version.ofString r.least
  let skipped ← r.skipped.mapM Version.ofString
  let bound ← r.bound?.mapM Version.ofString
  return ⟨least, bound, skipped⟩

end Requirement

end LuaDocs
