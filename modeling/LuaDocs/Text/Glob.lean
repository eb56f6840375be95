/-!
# Patterns with wildcards

A pattern stands for texts: an asterisk for any text, a question mark for any character, and
characters between square brackets for one of them. An exclamation mark after the bracket stands
for any character but those, and a hyphen between two characters for all from one to the other. A
bracket that is not closed stands for itself.
-/

namespace LuaDocs.Text.Glob

/-- A set of characters. -/
structure CharClass where
  /-- The set holds all other characters. -/
  negated : Bool
  singles : List Char
  /-- First and last characters of ranges. -/
  ranges : List (Char × Char)
  deriving DecidableEq, Repr

/-- The character is in the set. -/
def CharClass.holds (k : CharClass) (c : Char) : Bool :=
  (k.singles.contains c || k.ranges.any fun r => decide (r.1 ≤ c ∧ c ≤ r.2)) != k.negated

/-- A piece of a pattern. -/
inductive Piece where
  | char (c : Char)
  | anyChar
  | anyText
  | oneOf (k : CharClass)
  deriving DecidableEq, Repr

/-- How many characters after an opened bracket cannot close it: an exclamation mark, and a closing
bracket that comes first or after it. -/
def openingLength : List Char → Nat
  | '!' :: ']' :: _ => 2
  | '!' :: _ => 1
  | ']' :: _ => 1
  | _ => 0

/-- What stands between an opened bracket and the bracket that closes it, and the rest. -/
def classBody? (s : List Char) : Option (List Char × List Char) :=
  let n := openingLength s
  match (s.drop n).dropWhile fun c => c != ']' with
  | ']' :: rest => some (s.take n ++ (s.drop n).takeWhile fun c => c != ']', rest)
  | _ => none

theorem length_classBody?_lt {s body rest : List Char} (h : classBody? s = some (body, rest)) :
    rest.length < s.length := by
  unfold classBody? at h
  simp only at h
  split at h
  · next tail heq =>
    simp only [Option.some.injEq, Prod.mk.injEq] at h
    have h1 := ((s.drop (openingLength s)).dropWhile_sublist fun c => c != ']').length_le
    rw [heq] at h1
    simp only [List.length_cons, List.length_drop] at h1
    rw [← h.2]
    omega
  · simp at h

/-- Cuts at hyphens between two characters; the first `skip` characters are not cut. -/
def chunks (fuel skip : Nat) (s : List Char) : List (List Char) :=
  match fuel with
  | 0 => [s]
  | fuel + 1 =>
    match (s.drop skip).dropWhile fun c => c != '-' with
    | _ :: rest =>
      (s.take skip ++ (s.drop skip).takeWhile fun c => c != '-') :: chunks fuel 2 rest
    | [] => [s]

/-- A hyphen at the end stands for itself. -/
def closeChunks : List (List Char) → List (List Char)
  | [c, []] => [c ++ ['-']]
  | c :: rest => c :: closeChunks rest
  | [] => []

/-- Removes ranges that hold no character. -/
def dropEmptyRanges (cs : List (List Char)) : List (List Char) :=
  cs.foldr (fun c acc => match c.getLast?, acc with
    | some a, (b :: bs) :: rest => if b < a then (c.dropLast ++ bs) :: rest else c :: acc
    | _, _ => c :: acc) []

/-- The ranges between chunks. -/
def rangesOf : List (List Char) → List (Char × Char)
  | c :: d :: rest =>
    (match c.getLast?, d.head? with
      | some a, some b => [(a, b)]
      | _, _ => []) ++ rangesOf (d :: rest)
  | _ => []

/-- The set that stands between brackets. -/
def readClass (body : List Char) : CharClass :=
  let skip := if body.head? == some '!' then 2 else 1
  let cs := dropEmptyRanges (closeChunks (chunks body.length skip body))
  match cs with
  | ('!' :: c) :: rest => ⟨true, (c :: rest).flatten, rangesOf (c :: rest)⟩
  | cs => ⟨false, cs.flatten, rangesOf cs⟩

/-- The pieces of a pattern. -/
def read (s : List Char) : List Piece :=
  match s with
  | [] => []
  | '*' :: r => .anyText :: read r
  | '?' :: r => .anyChar :: read r
  | '[' :: r =>
    match _h : classBody? r with
    | some (body, rest) => .oneOf (readClass body) :: read rest
    | none => .char '[' :: read r
  | c :: r => .char c :: read r
termination_by s.length
decreasing_by
  all_goals simp only [List.length_cons]
  all_goals try have := length_classBody?_lt _h
  all_goals omega

/-- One of the ends of a text satisfies `f`. -/
def anyEnd (f : List Char → Bool) : List Char → Bool
  | [] => f []
  | c :: r => f (c :: r) || anyEnd f r

/-- The pieces stand for the text. -/
def covers : List Piece → List Char → Bool
  | [], s => s.isEmpty
  | .anyText :: ps, s => anyEnd (covers ps) s
  | _ :: _, [] => false
  | .anyChar :: ps, _ :: r => covers ps r
  | .char c :: ps, d :: r => c == d && covers ps r
  | .oneOf k :: ps, d :: r => k.holds d && covers ps r

/-- The pattern stands for the text. -/
def fits (pattern text : String) : Bool := covers (read pattern.toList) text.toList

end LuaDocs.Text.Glob
