import LuaDocs.Proofs.Text.Trim
import LuaDocs.Version

/-!
# Versions in texts and in ranges

The version that is found in a text is the first one: nothing in the text that looks like a version
starts before it, and its last number is read to the end. Blanks around the text make no difference.

A version is accepted if it lies between two others in the lexicographic order of their numbers, and
none of the versions that are not wanted is a start of it; for this the version may be followed by
zeros.
-/

namespace LuaDocs

open Text

namespace Version

/-! ### Versions in texts -/

/-- The text is a number. -/
def IsDigits (s : List Char) : Prop := s ≠ [] ∧ ∀ c ∈ s, isDigit c = true

/-- The text is three numbers with dots between them. -/
def IsTriple (s : List Char) : Prop :=
  ∃ a b c, IsDigits a ∧ IsDigits b ∧ IsDigits c ∧ s = a ++ '.' :: b ++ '.' :: c

/-- The text starts with no digit. -/
def Stops (s : List Char) : Prop := ∀ c ∈ s.head?, isDigit c = false

/-- The version `found` is the first one in the text: it stands after `before`, no version starts
further to the left, and its last number ends where `after` starts. -/
structure First (text before found after : List Char) : Prop where
  text_eq : text = before ++ (found ++ after)
  triple : IsTriple found
  stops : Stops after
  earliest : ∀ before' found' after', text = before' ++ (found' ++ after') → IsTriple found' →
    before.length ≤ before'.length

variable {s r d text found before after : List Char}

theorem takeWhile_digits (hd : ∀ c ∈ d, isDigit c = true) (hr : Stops r) :
    (d ++ r).takeWhile isDigit = d ∧ (d ++ r).dropWhile isDigit = r := by
  rw [List.takeWhile_append_of_pos hd, List.dropWhile_append_of_pos hd]
  cases r with
  | nil => simp
  | cons c r => simp [hr c rfl]

theorem stops_dropWhile (s : List Char) : Stops (s.dropWhile isDigit) := by
  intro c hc
  have hnot := List.head?_dropWhile_not isDigit s
  rw [Option.mem_def.1 hc] at hnot
  simpa using hnot

theorem digits?_eq_some_iff :
    digits? s = some (d, r) ↔ IsDigits d ∧ Stops r ∧ s = d ++ r := by
  constructor
  · intro h
    unfold digits? at h
    split at h
    · cases h
    · next ds hne =>
      obtain ⟨rfl, rfl⟩ := Prod.mk.inj (Option.some.inj h)
      exact ⟨⟨hne, List.all_eq_true.1 List.all_takeWhile⟩, stops_dropWhile s,
        List.takeWhile_append_dropWhile.symm⟩
  · rintro ⟨⟨hne, hd⟩, hr, rfl⟩
    obtain ⟨htake, hdrop⟩ := takeWhile_digits hd hr
    unfold digits?
    rw [htake, hdrop]
    split
    · next hnil => exact absurd rfl hne
    · rfl

theorem stops_dot (s : List Char) : Stops ('.' :: s) := by
  intro c hc
  rw [← Option.some.inj hc]
  decide +kernel

/-- The version at the start of a text. -/
theorem triple?_eq_some_iff :
    triple? s = some found ↔ ∃ after, s = found ++ after ∧ IsTriple found ∧ Stops after := by
  constructor
  · intro h
    unfold triple? at h
    obtain ⟨⟨a, sa⟩, ha, h₁⟩ := Option.bind_eq_some_iff.1 h
    obtain ⟨hda, -, rfl⟩ := digits?_eq_some_iff.1 ha
    dsimp only at h₁
    split at h₁
    · next sb =>
      obtain ⟨⟨b, sb⟩, hb, h₂⟩ := Option.bind_eq_some_iff.1 h₁
      obtain ⟨hdb, -, rfl⟩ := digits?_eq_some_iff.1 hb
      dsimp only at h₂
      split at h₂
      · next sc =>
        obtain ⟨⟨c, after⟩, hc, h₃⟩ := Option.bind_eq_some_iff.1 h₂
        obtain ⟨hdc, hstops, rfl⟩ := digits?_eq_some_iff.1 hc
        obtain rfl := Option.some.inj h₃
        exact ⟨after, by simp, ⟨a, b, c, hda, hdb, hdc, rfl⟩, hstops⟩
      · cases h₂
    · cases h₁
  · rintro ⟨after, rfl, ⟨a, b, c, hda, hdb, hdc, rfl⟩, hstops⟩
    have ha := digits?_eq_some_iff.2 ⟨hda, stops_dot (b ++ '.' :: (c ++ after)), rfl⟩
    have hb := digits?_eq_some_iff.2 ⟨hdb, stops_dot (c ++ after), rfl⟩
    have hc := digits?_eq_some_iff.2 ⟨hdc, hstops, rfl⟩
    unfold triple?
    simp only [List.append_assoc, List.cons_append, ha, hb, hc, Option.bind_eq_bind,
      Option.bind_some, Option.pure_def]

/-- A text that starts with a version starts with one that is read to the end. -/
theorem isSome_triple? (h : IsTriple found) (after : List Char) :
    (triple? (found ++ after)).isSome = true := by
  obtain ⟨a, b, c, ha, hb, hc, rfl⟩ := h
  have hdigits : IsDigits (c ++ after.takeWhile isDigit) :=
    ⟨List.append_ne_nil_of_left_ne_nil hc.1 _,
      List.forall_mem_append.2 ⟨hc.2, List.all_eq_true.1 List.all_takeWhile⟩⟩
  refine Option.isSome_iff_exists.2 ⟨_, triple?_eq_some_iff.2
    ⟨after.dropWhile isDigit, ?_, ⟨a, b, _, ha, hb, hdigits, rfl⟩, stops_dropWhile after⟩⟩
  simp only [List.append_assoc, List.cons_append, List.takeWhile_append_dropWhile]

theorem exists_first (h : find? text = some found) :
    ∃ before after, First text before found after := by
  induction text with
  | nil => cases h
  | cons c r ih =>
    rw [find?, Option.or_eq_some_iff] at h
    rcases h with h | ⟨hnone, h⟩
    · obtain ⟨after, htext, htriple, hstops⟩ := triple?_eq_some_iff.1 h
      exact ⟨[], after, htext, htriple, hstops, fun _ _ _ _ _ => Nat.zero_le _⟩
    · obtain ⟨before, after, rfl, htriple, hstops, hearliest⟩ := ih h
      refine ⟨c :: before, after, rfl, htriple, hstops, fun before' found' after' htext h' => ?_⟩
      cases before' with
      | nil =>
        have hsome := isSome_triple? h' after'
        rw [List.nil_append] at htext
        rw [← htext, hnone] at hsome
        cases hsome
      | cons x before' =>
        obtain ⟨-, htext⟩ := List.cons.inj htext
        exact Nat.succ_le_succ (hearliest before' found' after' htext h')

/-- There is one first version. -/
theorem First.unique {before' found' after' : List Char} (h : First text before found after)
    (h' : First text before' found' after') : found = found' := by
  have hlength : before.length = before'.length := Nat.le_antisymm
    (h.earliest _ _ _ h'.text_eq h'.triple) (h'.earliest _ _ _ h.text_eq h.triple)
  have htext := List.append_inj (h.text_eq.symm.trans h'.text_eq) hlength
  have hread := triple?_eq_some_iff.2 ⟨after, rfl, h.triple, h.stops⟩
  rw [htext.2, triple?_eq_some_iff.2 ⟨after', rfl, h'.triple, h'.stops⟩] at hread
  exact (Option.some.inj hread).symm

/-- A version ends with a digit. -/
theorem IsTriple.exists_last (h : IsTriple s) : ∃ init c, s = init ++ [c] ∧ isDigit c = true := by
  obtain ⟨a, b, d, -, -, ⟨hne, hd⟩, rfl⟩ := h
  obtain rfl | ⟨init, c, rfl⟩ := List.eq_nil_or_concat d
  · exact absurd rfl hne
  · rw [List.concat_eq_append] at hd ⊢
    exact ⟨a ++ '.' :: b ++ '.' :: init, c, by simp, hd c (by simp)⟩

/-- The version `s` is a start of `v`, which may be followed by zeros. -/
def Starts (s v : Version) : Prop := ∃ n, s <+: v ++ List.replicate n 0

theorem padTo_append_replicate (v : Version) (n m : Nat) :
    v.padTo n ++ List.replicate m 0 = v ++ List.replicate (n - v.length + m) 0 := by
  rw [padTo, List.append_assoc, List.replicate_append_replicate]

theorem starts_padTo_iff {s v : Version} (n : Nat) : Starts s (v.padTo n) ↔ Starts s v := by
  constructor
  · rintro ⟨m, h⟩
    rw [padTo_append_replicate] at h
    exact ⟨_, h⟩
  · rintro ⟨m, h⟩
    refine ⟨m, h.trans ?_⟩
    rw [padTo_append_replicate, Nat.add_comm, ← List.replicate_append_replicate,
      ← List.append_assoc]
    exact List.prefix_append _ _

/-- A version is compared with those that are not wanted as far as these go. -/
theorem take_padTo_eq_iff {s v : Version} : (v.padTo s.length).take s.length = s ↔ Starts s v := by
  constructor
  · intro h
    have hprefix := List.take_prefix s.length (v.padTo s.length)
    rw [h] at hprefix
    exact ⟨_, hprefix⟩
  · intro h
    obtain ⟨m, h⟩ := (starts_padTo_iff s.length).2 h
    have hlength : s.length ≤ (v.padTo s.length).length := by
      rw [padTo, List.length_append, List.length_replicate]
      omega
    rw [List.prefix_iff_eq_take, List.take_append_of_le_length hlength] at h
    exact h.symm

theorem isSkipped_iff {v : Version} {skipped : List Version} :
    v.isSkipped skipped = true ↔ ∃ s ∈ skipped, Starts s v := by
  induction skipped generalizing v with
  | nil => simp [isSkipped]
  | cons s skipped ih =>
    rw [isSkipped, Bool.or_eq_true, beq_iff_eq, take_padTo_eq_iff, ih]
    simp only [starts_padTo_iff, List.mem_cons, exists_eq_or_imp]

/-- The first `n` numbers of a version; zeros stand where it has no more. -/
def start (v : Version) (n : Nat) : Version := (List.range n).map fun i => v.getD i 0

theorem take_padTo (v : Version) (n : Nat) : (v.padTo n).take n = v.start n := by
  have hlength : ((v.padTo n).take n).length = (v.start n).length := by
    simp only [padTo, start, List.length_take, List.length_append, List.length_replicate,
      List.length_map, List.length_range]
    omega
  refine List.ext_getElem hlength fun i hi hi' => ?_
  simp only [padTo, start, List.getElem_take, List.getElem_map, List.getElem_range,
    List.getElem_append]
  split
  · next hinside => simp [hinside]
  · next houtside => simp [houtside]

/-- **A version is skipped exactly if its first numbers are one of the versions that are not
wanted.** The order of these and their repetition make no difference, and neither do the zeros that
the version has got on the way. -/
theorem isSkipped_exact (v : Version) (skipped : List Version) :
    (v.isSkipped skipped = true ↔ ∃ s ∈ skipped, s = v.start s.length) ∧
      (∀ others, (∀ s, s ∈ others ↔ s ∈ skipped) → v.isSkipped others = v.isSkipped skipped) ∧
      ∀ n, (v.padTo n).isSkipped skipped = v.isSkipped skipped := by
  refine ⟨?_, fun others h => ?_, fun n => ?_⟩
  · simp only [isSkipped_iff, ← take_padTo_eq_iff, take_padTo, @eq_comm _ (start v _)]
  · rw [Bool.eq_iff_iff, isSkipped_iff, isSkipped_iff]
    simp only [h]
  · rw [Bool.eq_iff_iff, isSkipped_iff, isSkipped_iff]
    simp only [starts_padTo_iff]

theorem isSkipped_reordered : isSkipped [1, 0] [[2], [1, 0, 0, 0], [1, 1]] = true ∧
    isSkipped [1, 0] [[1, 1], [2], [1, 1], [1, 0, 0, 0]] =
      isSkipped [1, 0] [[2], [1, 0, 0, 0], [1, 1]] := by
  obtain ⟨hstart, horder, -⟩ := isSkipped_exact [1, 0] [[2], [1, 0, 0, 0], [1, 1]]
  refine ⟨hstart.2 ⟨[1, 0, 0, 0], by simp, rfl⟩, horder _ fun s => ?_⟩
  simp only [List.mem_cons, List.not_mem_nil, or_false]
  grind

/-! ### Which version is less -/

end Version

namespace Requirement.Range

end Requirement.Range

end LuaDocs
