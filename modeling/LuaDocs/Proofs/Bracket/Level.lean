import LuaDocs.Proofs.Bracket
import LuaDocs.Proofs.Text.Trim

/-!
# Where a scan stops

A group is cut at the first character at which the scan stops, and a list is cut at all of them.
What stands before a cut is *unstopped*. It is *level* if the scan comes out of it outside every
bracket and string. The scan meets each of several level texts in a row as if it stood alone, so
that a text can be joined from parts of which only the last may leave something open.
-/

namespace LuaDocs

open Text

namespace Scan

variable {s : Scan} {c : Char} {text : List Char}

/-- Only quotes open strings, and outside strings no character is escaped. -/
def Sound (s : Scan) : Prop :=
  (s.quote = none → s.escaped = false) ∧ ∀ q, s.quote = some q → isQuote q = true

theorem sound_start : start.Sound := ⟨fun _ => rfl, fun _ h => nomatch h⟩

theorem Sound.step (h : s.Sound) (c : Char) : (s.step c).Sound := by
  obtain ⟨depth, quote, escaped⟩ := s
  cases quote with
  | none =>
    obtain rfl : escaped = false := h.1 rfl
    by_cases hopener : isOpener c = true
    · simp [Sound, Scan.step, hopener]
    by_cases hcloser : isCloser c = true
    · simp [Sound, Scan.step, hopener, hcloser]
    by_cases hquote : isQuote c = true <;> simp [Sound, Scan.step, hopener, hcloser, hquote]
  | some q =>
    have hq : isQuote q = true := h.2 q rfl
    cases escaped with
    | true => simpa [Sound, Scan.step] using hq
    | false =>
      by_cases hend : c = q
      · simp [Sound, Scan.step, hend]
      · by_cases hslash : (c == '\\') = true <;> simp [Sound, Scan.step, hend, hslash, hq]

theorem Sound.run (h : s.Sound) (text : List Char) : (s.run text).Sound := by
  induction text generalizing s with
  | nil => exact h
  | cons c text ih => exact ih (h.step c)

/-- There is one state outside every bracket and string. -/
theorem Sound.eq_start (h : s.Sound) (htop : s.atTop = true) : s = .start := by
  obtain ⟨depth, quote, escaped⟩ := s
  simp only [atTop, Bool.and_eq_true, beq_iff_eq, Option.isNone_iff_eq_none] at htop
  obtain ⟨rfl, rfl⟩ := htop
  obtain rfl : escaped = false := h.1 rfl
  rfl

theorem passes_of_isBlank (h : isBlank c = true) : passes c = true :=
  passes_of_class (by decide) h

/-- A character that passes leaves the scan where it is. -/
theorem step_start (h : passes c = true) : start.step c = .start :=
  step_of_passes h 0

theorem run_start (h : ∀ c ∈ text, passes c = true) : start.run text = .start := by
  induction text with
  | nil => rfl
  | cons c text ih =>
    rw [List.forall_mem_cons] at h
    rw [run_cons, step_start h.1, ih h.2]

/-- Characters that pass close no bracket and no string. -/
theorem Sound.atTop_step (hs : s.Sound) (h : passes c = true) : (s.step c).atTop = s.atTop := by
  simp only [passes, Bool.and_eq_true, Bool.not_eq_true'] at h
  obtain ⟨depth, quote, escaped⟩ := s
  cases quote with
  | none => simp [Scan.step, h]
  | some q =>
    have hne : c ≠ q := by
      rintro rfl
      rw [hs.2 c rfl] at h
      cases h.2
    cases escaped with
    | true => simp [Scan.step, atTop]
    | false => by_cases hslash : (c == '\\') = true <;> simp [Scan.step, atTop, hne, hslash]

theorem Sound.atTop_run (hs : s.Sound) (h : ∀ c ∈ text, passes c = true) :
    (s.run text).atTop = s.atTop := by
  induction text generalizing s with
  | nil => rfl
  | cons c text ih =>
    rw [List.forall_mem_cons] at h
    rw [run_cons, ih (hs.step c) h.2, hs.atTop_step h.1]

end Scan

namespace Bracket

variable {stop : Scan → Char → Bool} {s : Scan} {sep c : Char} {a b p text : List Char}
  {ps : List (List Char)}

/-! ### Texts in which a scan does not stop -/

/-- The scan that starts in the state `s` does not stop in the text. -/
def unstopped (stop : Scan → Char → Bool) : Scan → List Char → Bool
  | _, [] => true
  | s, c :: r => !stop s c && unstopped stop (s.step c) r

theorem unstopped_cons : unstopped stop s (c :: text) = true ↔
    stop s c = false ∧ unstopped stop (s.step c) text = true := by
  rw [unstopped, Bool.and_eq_true, Bool.not_eq_true']

theorem unstopped_append : unstopped stop s (a ++ b) = true ↔
    unstopped stop s a = true ∧ unstopped stop (s.run a) b = true := by
  induction a generalizing s with
  | nil => simp [unstopped]
  | cons c a ih =>
    rw [List.cons_append, unstopped_cons, unstopped_cons, ih, Scan.run_cons, and_assoc]

/-- The scan stops nowhere: not at any character after what stands before it. -/
theorem unstopped_iff : unstopped stop s text = true ↔
    ∀ a c b, text = a ++ c :: b → stop (s.run a) c = false := by
  constructor
  · rintro h a c b rfl
    exact (unstopped_cons.1 (unstopped_append.1 h).2).1
  · intro h
    induction text generalizing s with
    | nil => rfl
    | cons c text ih =>
      refine unstopped_cons.2 ⟨h [] c text rfl, ih fun a d b htext => ?_⟩
      exact h (c :: a) d b (by rw [htext, List.cons_append])

/-- The first place where the scan stops. -/
theorem cut?_eq_some_iff : cut? stop s text = some (a, b) ↔
    ∃ c, text = a ++ c :: b ∧ unstopped stop s a = true ∧ stop (s.run a) c = true := by
  constructor
  · intro h
    induction text generalizing s a with
    | nil => cases h
    | cons c text ih =>
      rw [cut?] at h
      split at h
      · next hstop =>
        obtain ⟨rfl, rfl⟩ := Prod.mk.inj (Option.some.inj h)
        exact ⟨c, rfl, rfl, hstop⟩
      · next hstop =>
        obtain ⟨q, hq, heq⟩ := Option.map_eq_some_iff.1 h
        obtain ⟨rfl, rfl⟩ := Prod.mk.inj heq
        obtain ⟨d, rfl, hfree, hd⟩ := ih hq
        exact ⟨d, rfl, unstopped_cons.2 ⟨Bool.eq_false_iff.2 hstop, hfree⟩, hd⟩
  · rintro ⟨c, rfl, hfree, hstop⟩
    induction a generalizing s with
    | nil =>
      rw [Scan.run_nil] at hstop
      rw [List.nil_append, cut?, if_pos hstop]
    | cons d a ih =>
      obtain ⟨hd, hfree⟩ := unstopped_cons.1 hfree
      rw [List.cons_append, cut?, ih hfree hstop]
      simp [hd]

/-- A scan that stops nowhere finds no cut. -/
theorem cut?_eq_none_iff : cut? stop s text = none ↔ unstopped stop s text = true := by
  induction text generalizing s with
  | nil => exact ⟨fun _ => rfl, fun _ => rfl⟩
  | cons c text ih =>
    rw [unstopped_cons, cut?, ← ih]
    split
    · next hstop => simp [hstop]
    · next hstop => simp [hstop]

/-! ### Level texts -/

/-- The scan comes out of the text as it went in: outside every bracket and string. -/
def Level (text : List Char) : Prop := Scan.start.run text = .start

theorem level_nil : Level [] := rfl

theorem level_comma_space : Level [',', ' '] := rfl

theorem level_iff_atTop : Level text ↔ (Scan.start.run text).atTop = true := by
  constructor
  · intro h
    rw [h]
    rfl
  · exact (Scan.sound_start.run text).eq_start

theorem level_of_passes (h : ∀ c ∈ text, Scan.passes c = true) : Level text := Scan.run_start h

theorem Level.run_append (h : Level a) (b : List Char) :
    Scan.start.run (a ++ b) = Scan.start.run b := by
  rw [Scan.run_append, h]

theorem Level.append (h : Level a) : Level (a ++ b) ↔ Level b := by
  rw [Level, h.run_append, ← Level]

theorem Level.unstopped_append (h : Level a) : unstopped stop .start (a ++ b) = true ↔
    unstopped stop .start a = true ∧ unstopped stop .start b = true := by
  rw [Bracket.unstopped_append, h]

theorem passes_of_allBlank (h : allBlank b = true) : ∀ c ∈ b, Scan.passes c = true := fun c hc =>
  Scan.passes_of_isBlank (isBlank_of_allBlank h c hc)

/-- Blanks at the ends of a text are not needed to close anything. -/
theorem level_trim : Level (trim text) ↔ Level text := by
  obtain ⟨b, b', hb, hb', htext⟩ := exists_trim text
  have hblanks : Level b := level_of_passes (passes_of_allBlank hb)
  rw [htext, hblanks.append, ← htext, level_iff_atTop, level_iff_atTop, Scan.run_append,
    (Scan.sound_start.run _).atTop_run (passes_of_allBlank hb')]

theorem unstopped_trim (h : unstopped stop .start text = true) :
    unstopped stop .start (trim text) = true := by
  obtain ⟨b, b', hb, -, htext⟩ := exists_trim text
  have hblanks : Level b := level_of_passes (passes_of_allBlank hb)
  rw [htext, hblanks.unstopped_append, unstopped_append] at h
  exact h.2.1

/-! ### Groups -/

/-- The text between brackets is found whole exactly if no bracket in it ends the group before. -/
theorem unwrap_eq_iff {opening closing : Char} (hopener : Scan.isOpener closing = false)
    {inner : List Char} (hlevel : Level inner) (htrim : trim inner = inner) (rest : List Char) :
    unwrap opening closing (opening :: inner ++ closing :: rest) = (inner, trim rest) ↔
      unstopped (ends closing) .start inner = true := by
  have hends : ends closing (Scan.start.run inner) closing = true := by
    simp [ends, level_iff_atTop.1 hlevel, hopener]
  constructor
  · intro h
    rw [← cut?_eq_none_iff, ← Option.not_isSome_iff_eq_none]
    intro hsome
    obtain ⟨⟨a, b⟩, hcut⟩ := Option.isSome_iff_exists.1 hsome
    obtain ⟨c, rfl, hfree, hstop⟩ := cut?_eq_some_iff.1 hcut
    have hfirst : cut? (ends closing) .start (a ++ c :: b ++ closing :: rest) =
        some (a, b ++ closing :: rest) :=
      cut?_eq_some_iff.2 ⟨c, by simp, hfree, hstop⟩
    rw [List.cons_append, unwrap] at h
    simp only [beq_self_eq_true, if_true, hfirst] at h
    have hlength := congrArg List.length (Prod.mk.inj h).1
    have hle := length_trim_le a
    rw [List.length_append, List.length_cons] at hlength
    omega
  · intro hfree
    have hcut : cut? (ends closing) .start (inner ++ closing :: rest) = some (inner, rest) :=
      cut?_eq_some_iff.2 ⟨closing, rfl, hfree, hends⟩
    rw [List.cons_append, unwrap]
    simp only [beq_self_eq_true, if_true, hcut, htrim]

/-- The bracket with which the text starts is closed, if it is `opening`. -/
def GroupClosed (opening closing : Char) (text : List Char) : Prop :=
  ∀ r, text = opening :: r →
    ∃ inner rest, r = inner ++ closing :: rest ∧ (Scan.start.run inner).atTop = true

/-- What stands in a group that is closed is level and does not end the group. -/
theorem GroupClosed.unwrap_fst {opening closing : Char} (hopener : Scan.isOpener closing = false)
    (h : GroupClosed opening closing text) : Level (unwrap opening closing text).1 ∧
      unstopped (ends closing) .start (unwrap opening closing text).1 = true := by
  cases text with
  | nil => exact ⟨rfl, rfl⟩
  | cons c r =>
    by_cases hc : c = opening
    · subst hc
      obtain ⟨inner, rest, rfl, htop⟩ := h r rfl
      have hends : ends closing (Scan.start.run inner) closing = true := by
        simp [ends, htop, hopener]
      cases hcut : cut? (ends closing) .start (inner ++ closing :: rest) with
      | none =>
        rw [unstopped_iff.1 (cut?_eq_none_iff.1 hcut) inner closing rest rfl] at hends
        cases hends
      | some q =>
        obtain ⟨d, -, hfree, hstop⟩ := cut?_eq_some_iff.1 hcut
        simp only [ends, Bool.and_eq_true] at hstop
        simp only [unwrap, beq_self_eq_true, if_true, hcut]
        exact ⟨level_trim.2 (level_iff_atTop.2 hstop.1.1), unstopped_trim hfree⟩
    · simp [unwrap, hc, level_nil, unstopped]

/-! ### Joined parts -/

/-- Every part but the last is level. -/
def LevelParts (ps : List (List Char)) : Prop := ps.Pairwise fun p _ => Level p

theorem levelParts_cons_cons {q : List Char} :
    LevelParts (p :: q :: ps) ↔ Level p ∧ LevelParts (q :: ps) := by
  rw [LevelParts, List.pairwise_cons, ← LevelParts]
  exact ⟨fun h => ⟨h.1 q List.mem_cons_self, h.2⟩, fun h => ⟨fun _ _ => h.1, h.2⟩⟩

theorem levelParts_of_forall (h : ∀ p ∈ ps, Level p) : LevelParts ps := by
  induction ps with
  | nil => exact .nil
  | cons p ps ih =>
    rw [List.forall_mem_cons] at h
    exact List.pairwise_cons.2 ⟨fun _ _ => h.1, ih h.2⟩

variable {w : List Char}

/-- The scan stops in none of the parts if it does not stop in what they make. -/
theorem unstopped_intercalate (hlevel : Level w) (hw : unstopped stop .start w = true)
    (h : LevelParts ps) : unstopped stop .start (w.intercalate ps) = true ↔
      ∀ p ∈ ps, unstopped stop .start p = true := by
  induction ps with
  | nil => simp [unstopped]
  | cons p ps ih =>
    cases ps with
    | nil => simp
    | cons q ps =>
      obtain ⟨hp, hrest⟩ := levelParts_cons_cons.1 h
      rw [List.intercalate_cons_cons, List.append_assoc, hp.unstopped_append,
        hlevel.unstopped_append, ih hrest, List.forall_mem_cons]
      simp [hw]

theorem level_intercalate (hlevel : Level w) (h : LevelParts ps) :
    Level (w.intercalate ps) ↔ ∀ p ∈ ps, Level p := by
  induction ps with
  | nil => simp [level_nil]
  | cons p ps ih =>
    cases ps with
    | nil => simp
    | cons q ps =>
      obtain ⟨hp, hrest⟩ := levelParts_cons_cons.1 h
      rw [List.intercalate_cons_cons, List.append_assoc, hp.append, hlevel.append, ih hrest,
        List.forall_mem_cons]
      simp [hp]

/-- What reads a text piece by piece reads joined parts one by one. -/
theorem flatMap_of_intercalate {α : Type} {f : List Char → List α} (hnil : f [] = [])
    (hw : ∀ a b, Level a → f (a ++ (w ++ b)) = f a ++ f b) (h : LevelParts ps) :
    f (w.intercalate ps) = ps.flatMap f := by
  induction ps with
  | nil => rw [List.intercalate_nil, hnil, List.flatMap_nil]
  | cons p ps ih =>
    cases ps with
    | nil => simp
    | cons q ps =>
      obtain ⟨hp, hrest⟩ := levelParts_cons_cons.1 h
      rw [List.intercalate_cons_cons, List.append_assoc, hw _ _ hp, ih hrest,
        List.flatMap_cons (x := p)]

theorem flatMap_eq_self {f : List Char → List (List Char)} (h : ∀ p ∈ ps, f p = [p]) :
    ps.flatMap f = ps := by
  induction ps with
  | nil => rfl
  | cons p ps ih =>
    rw [List.forall_mem_cons] at h
    rw [List.flatMap_cons, h.1, ih h.2, List.singleton_append]

end Bracket

end LuaDocs
