/-!
# Searching in a text

A part of a text is looked for from the left, and may be replaced wherever it stands.
-/

namespace LuaDocs.Text

/-- The text `part` stands somewhere in the text. -/
def occurs (part : List Char) : List Char → Bool
  | [] => part.isEmpty
  | c :: r => part.isPrefixOf (c :: r) || occurs part r

/-- What follows the first occurrence of `part` in a text. -/
def after? (part : List Char) : List Char → Option (List Char)
  | [] => if part.isEmpty then some [] else none
  | c :: r =>
    if part.isPrefixOf (c :: r) then some ((c :: r).drop part.length) else after? part r

theorem length_after?_le {part s r : List Char} (h : after? part s = some r) :
    r.length ≤ s.length := by
  induction s with
  | nil =>
    rw [after?] at h
    split at h <;> simp_all
  | cons c t ih =>
    rw [after?] at h
    split at h
    · simp only [Option.some.injEq] at h
      simp [← h]
    · have := ih h
      simp only [List.length_cons]
      omega

/-- The text with every occurrence of `part`, which is not empty, replaced by `by_`. -/
def replaceAll (part by_ : List Char) (s : List Char) : List Char :=
  match s with
  | [] => []
  | c :: r =>
    if part.isPrefixOf (c :: r) && !part.isEmpty then
      by_ ++ replaceAll part by_ (r.drop (part.length - 1))
    else c :: replaceAll part by_ r
termination_by s.length
decreasing_by
  · simp only [List.length_drop, List.length_cons]; omega
  · simp

/-- `replaceAll` on strings. -/
def replaceString (part by_ s : String) : String :=
  String.ofList (replaceAll part.toList by_.toList s.toList)

end LuaDocs.Text
