import LuaDocs.Proofs.Name.Dotted

/-!
# Cutting a text and its parts

Cutting a text at a character undoes joining texts in which the character does not occur.
-/

namespace LuaDocs.Text

variable {sep : Char}

theorem splitAt_append_sep (sep : Char) (a b : List Char) :
    splitAt sep (a ++ sep :: b) = splitAt sep a ++ splitAt sep b := by
  induction a with
  | nil => simp [splitAt]
  | cons c a ih =>
    rw [List.cons_append, splitAt, splitAt, ih]
    split
    · rfl
    · cases h : splitAt sep a with
      | nil => exact absurd h (splitAt_ne_nil sep a)
      | cons l ls => rfl

theorem splitAt_of_notMem {s : List Char} (h : sep ∉ s) : splitAt sep s = [s] := by
  induction s with
  | nil => rfl
  | cons c s ih =>
    rw [List.mem_cons, not_or] at h
    rw [splitAt, if_neg (by simpa using Ne.symm h.1), ih h.2]

theorem notMem_of_mem_splitAt {s l : List Char} (h : l ∈ splitAt sep s) : sep ∉ l := by
  induction s generalizing l with
  | nil =>
    rw [splitAt, List.mem_singleton] at h
    simp [h]
  | cons c s ih =>
    rw [splitAt] at h
    split at h
    · rcases List.mem_cons.1 h with rfl | h
      · exact List.not_mem_nil
      · exact ih h
    · next hc =>
      split at h
      · next hnil => exact absurd hnil (splitAt_ne_nil sep s)
      · next l' ls hparts =>
        rw [hparts] at ih
        rcases List.mem_cons.1 h with rfl | h
        · rw [List.mem_cons, not_or]
          exact ⟨fun heq => hc (by simp [heq]), ih List.mem_cons_self⟩
        · exact ih (List.mem_cons_of_mem _ h)

theorem splitAt_joinWith {parts : List (List Char)} (hne : parts ≠ [])
    (h : ∀ part ∈ parts, sep ∉ part) : splitAt sep (joinWith sep parts) = parts := by
  induction parts with
  | nil => exact absurd rfl hne
  | cons part rest ih =>
    rw [List.forall_mem_cons] at h
    by_cases hrest : rest = []
    · subst hrest
      simpa [joinWith, List.intercalate] using splitAt_of_notMem h.1
    · rw [joinWith_cons_of_ne_nil hrest, splitAt_append_sep, splitAt_of_notMem h.1, ih hrest h.2,
        List.singleton_append]

/-- A text with the character between its halves is cut there. -/
theorem splitString_append (sep : Char) (s t : String) :
    splitString sep (s ++ String.singleton sep ++ t) = splitString sep s ++ splitString sep t := by
  rw [splitString, splitString, splitString, ← List.map_append, ← splitAt_append_sep]
  simp

theorem splitString_of_notMem {s : String} (h : sep ∉ s.toList) : splitString sep s = [s] := by
  rw [splitString, splitAt_of_notMem h, List.map_singleton, String.ofList_toList]

theorem notMem_of_mem_splitString {s part : String} (h : part ∈ splitString sep s) :
    sep ∉ part.toList := by
  obtain ⟨l, hl, rfl⟩ := List.mem_map.1 h
  rw [String.toList_ofList]
  exact notMem_of_mem_splitAt hl

/-- A text is not cut exactly if the character does not occur in it. -/
theorem splitString_eq_singleton_iff {s : String} :
    splitString sep s = [s] ↔ sep ∉ s.toList := by
  constructor
  · intro h
    exact notMem_of_mem_splitString (h ▸ List.mem_singleton_self s)
  · exact splitString_of_notMem

/-- Cutting undoes joining. -/
theorem splitString_joinStrings {parts : List String} (hne : parts ≠ [])
    (h : ∀ part ∈ parts, sep ∉ part.toList) :
    splitString sep (joinStrings sep parts) = parts := by
  rw [splitString, joinStrings, String.toList_ofList, splitAt_joinWith, List.map_map]
  · simp [Function.comp_def]
  · simpa using hne
  · exact List.forall_mem_map.2 h

/-- A character of joined texts stands in one of them or between them. -/
theorem notMem_joinStrings {sep c : Char} {parts : List String} (hc : c ≠ sep)
    (h : ∀ part ∈ parts, c ∉ part.toList) : c ∉ (joinStrings sep parts).toList := by
  induction parts with
  | nil => exact List.not_mem_nil
  | cons part rest ih =>
    rw [List.forall_mem_cons] at h
    by_cases hrest : rest = []
    · rw [hrest, joinStrings_singleton]
      exact h.1
    · have hne : rest.map String.toList ≠ [] := by simpa using hrest
      have hothers := ih h.2
      rw [joinStrings, String.toList_ofList] at hothers ⊢
      rw [List.map_cons, joinWith_cons_of_ne_nil hne, List.mem_append, List.mem_cons]
      exact fun hmem => hmem.elim h.1 fun hmem => hmem.elim hc hothers

end LuaDocs.Text
