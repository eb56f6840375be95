import LuaDocs.Proofs.Name.Plain

/-!
# Trimmed texts

A text is blanks, its trimmed form and blanks again. Blanks that are put before or after a text do
not change its trimmed form.
-/

namespace LuaDocs.Text

variable {s b : List Char}

theorem allBlank_append (a b : List Char) : allBlank (a ++ b) = (allBlank a && allBlank b) :=
  List.all_append

theorem isBlank_of_allBlank (h : allBlank b = true) : ∀ c ∈ b, isBlank c = true :=
  List.all_eq_true.1 h

theorem squeeze_append (a b : List Char) : squeeze (a ++ b) = squeeze a ++ squeeze b :=
  List.filter_append a b

theorem squeeze_of_allBlank (h : allBlank b = true) : squeeze b = [] := by
  rw [squeeze, List.filter_eq_nil_iff]
  intro c hc
  simp [isBlank_of_allBlank h c hc]

theorem trimStart_eq_nil_iff : trimStart s = [] ↔ allBlank s = true := by
  induction s with
  | nil => simp [trimStart, allBlank]
  | cons c s ih =>
    by_cases hc : isBlank c = true
    · have hstart : trimStart (c :: s) = trimStart s := by simp [trimStart, hc]
      have hall : allBlank (c :: s) = allBlank s := by simp [allBlank, hc]
      rw [hstart, hall, ih]
    · simp [trimStart, allBlank, hc]

theorem trimStart_append_blanks (h : allBlank b = true) (s : List Char) :
    trimStart (b ++ s) = trimStart s :=
  List.dropWhile_append_of_pos (isBlank_of_allBlank h)

theorem trimEnd_append_blanks (h : allBlank b = true) (s : List Char) :
    trimEnd (s ++ b) = trimEnd s := by
  have hb : ∀ c ∈ b.reverse, isBlank c = true := fun c hc =>
    isBlank_of_allBlank h c (List.mem_reverse.1 hc)
  rw [trimEnd, trimEnd, List.reverse_append, List.dropWhile_append_of_pos hb]

/-- Blanks before a text are trimmed, -/
theorem trim_append (h : allBlank b = true) (s : List Char) : trim (b ++ s) = trim s := by
  rw [trim, trim, trimStart_append_blanks h]

/-- and so are blanks after it. -/
theorem trim_append_blanks (h : allBlank b = true) (s : List Char) : trim (s ++ b) = trim s := by
  by_cases hs : allBlank s = true
  · rw [trim_append hs, trim, trimStart_eq_nil_iff.2 h, trim, trimStart_eq_nil_iff.2 hs]
  · have hne : trimStart s ≠ [] := mt trimStart_eq_nil_iff.1 hs
    have hstart : trimStart (s ++ b) = trimStart s ++ b := by
      rw [trimStart] at hne
      rw [trimStart, List.dropWhile_append, if_neg (by simpa using hne)]
      rfl
    rw [trim, hstart, trimEnd_append_blanks h, trim]

theorem exists_blanks_trimStart (s : List Char) : ∃ b, allBlank b = true ∧ s = b ++ trimStart s :=
  ⟨s.takeWhile isBlank, List.all_takeWhile, List.takeWhile_append_dropWhile.symm⟩

theorem exists_blanks_trimEnd (s : List Char) : ∃ b, allBlank b = true ∧ s = trimEnd s ++ b := by
  obtain ⟨b, hb, hs⟩ := exists_blanks_trimStart s.reverse
  refine ⟨b.reverse, by simpa [allBlank] using hb, ?_⟩
  rw [trimEnd, ← trimStart, ← List.reverse_append, ← hs, List.reverse_reverse]

/-- **A text is its trimmed form between blanks.** -/
theorem exists_trim (s : List Char) :
    ∃ b b', allBlank b = true ∧ allBlank b' = true ∧ s = b ++ (trim s ++ b') := by
  obtain ⟨b, hb, hs⟩ := exists_blanks_trimStart s
  obtain ⟨b', hb', hs'⟩ := exists_blanks_trimEnd (trimStart s)
  exact ⟨b, b', hb, hb', by rw [trim, ← hs', ← hs]⟩

@[simp] theorem trim_trim (s : List Char) : trim (trim s) = trim s := by
  obtain ⟨b, b', hb, hb', hs⟩ := exists_trim s
  have htrim : trim s = trim (trim s) := calc
    trim s = trim (b ++ (trim s ++ b')) := congrArg trim hs
    _ = trim (trim s) := by rw [trim_append hb, trim_append_blanks hb']
  exact htrim.symm

/-- Nothing is left of a text only if it is blank. -/
theorem trim_eq_nil_iff : trim s = [] ↔ allBlank s = true := by
  constructor
  · intro h
    obtain ⟨b, b', hb, hb', hs⟩ := exists_trim s
    rw [h, List.nil_append] at hs
    rw [hs, allBlank_append, hb, hb']
    rfl
  · intro h
    rw [trim, trimStart_eq_nil_iff.2 h]
    rfl

theorem allBlank_trim (s : List Char) : allBlank (trim s) = allBlank s := by
  rw [Bool.eq_iff_iff, ← trim_eq_nil_iff, trim_trim, trim_eq_nil_iff]

/-- A text is trimmed if neither end of it is. -/
theorem trim_eq_self_iff : trim s = s ↔ trimStart s = s ∧ trimEnd s = s := by
  constructor
  · intro h
    have hstart : trimStart s = s := by
      rw [← h]
      exact trimStart_trim s
    refine ⟨hstart, ?_⟩
    rw [trim, hstart] at h
    exact h
  · rintro ⟨hstart, hend⟩
    rw [trim, hstart, hend]

theorem trimStart_append_of_ne_nil (h : trimStart s = s) (hne : s ≠ []) (t : List Char) :
    trimStart (s ++ t) = s ++ t := by
  rw [trimStart] at h
  rw [trimStart, List.dropWhile_append, h, if_neg (by simpa using hne)]

theorem trimEnd_append_of_ne_nil (h : trimEnd s = s) (hne : s ≠ []) (t : List Char) :
    trimEnd (t ++ s) = t ++ s := by
  have hreverse : trimStart s.reverse = s.reverse := by
    rw [trimStart, ← List.reverse_reverse (List.dropWhile _ _), ← trimEnd, h]
  rw [trimEnd, List.reverse_append, ← trimStart,
    trimStart_append_of_ne_nil hreverse (by simpa using hne)]
  simp

/-- What stands between trimmed texts is kept. -/
theorem trim_append_append {a c : List Char} (ha : trim a = a) (hane : a ≠ []) (hc : trim c = c)
    (hcne : c ≠ []) (b : List Char) : trim (a ++ b ++ c) = a ++ b ++ c := by
  rw [trim_eq_self_iff]
  constructor
  · rw [List.append_assoc]
    exact trimStart_append_of_ne_nil (trim_eq_self_iff.1 ha).1 hane _
  · exact trimEnd_append_of_ne_nil (trim_eq_self_iff.1 hc).2 hcne _

/-- Trimmed texts that are joined make a trimmed text. -/
theorem trim_intercalate {w : List Char} {ts : List (List Char)}
    (h : ∀ t ∈ ts, trim t = t ∧ t ≠ []) : trim (w.intercalate ts) = w.intercalate ts := by
  suffices trim (w.intercalate ts) = w.intercalate ts ∧ (ts ≠ [] → w.intercalate ts ≠ []) from
    this.1
  induction ts with
  | nil => exact ⟨rfl, fun hne => absurd rfl hne⟩
  | cons t ts ih =>
    obtain ⟨⟨ht, hne⟩, hts⟩ := List.forall_mem_cons.1 h
    cases ts with
    | nil =>
      rw [List.intercalate_singleton]
      exact ⟨ht, fun _ => hne⟩
    | cons u ts =>
      obtain ⟨hrest, hrestne⟩ := ih hts
      rw [List.intercalate_cons_cons]
      refine ⟨trim_append_append ht hne hrest (hrestne (List.cons_ne_nil _ _)) w, fun _ => ?_⟩
      simp [hne]

end LuaDocs.Text
