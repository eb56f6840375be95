/-!
# Ranges of code points

A class of characters is given by the closed ranges of code points that it covers. Long tables list
the distances between them.
-/

namespace LuaDocs.Text

/-- The code point of `c` lies in one of the closed ranges. -/
def inRanges (ranges : List (Nat × Nat)) (c : Char) : Bool :=
  ranges.any fun r => r.1 ≤ c.toNat && c.toNat ≤ r.2

/-- The ranges whose distances are listed, for each range from the end `n` of the range before to
its start and from there to its end. -/
def rangesFrom (n : Nat) : List Nat → List (Nat × Nat)
  | gap :: span :: rest => (n + gap, n + gap + span) :: rangesFrom (n + gap + span) rest
  | _ => []

theorem inRanges_iff {ranges : List (Nat × Nat)} {c : Char} :
    inRanges ranges c = true ↔ ∃ r ∈ ranges, r.1 ≤ c.toNat ∧ c.toNat ≤ r.2 := by
  simp [inRanges]

end LuaDocs.Text
