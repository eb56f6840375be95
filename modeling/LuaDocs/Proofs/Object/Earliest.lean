import LuaDocs.Proofs.Object.Clashes

/-!
# The earliest definition

Among definitions of one priority the lines decide. A definition that is put to what those before it
have made takes the lead only if its line is strictly earlier, so that of equally early definitions
the first one leads. Origin still comes before the lines: only contenders can lead.

What several definitions have made has the line of the one that leads, provided that the lines of
all of them are known, or those of none. Of definitions of one origin and one priority this is
certain as soon as they can be joined at all.
-/

namespace LuaDocs.Object

open Text

variable {xs ys before after b a : List Head} {o w x y z : Head}

/-! ### Two definitions -/

namespace Head

/-- The definition `y` is put to `x`, which leads unless `y` precedes it. -/
def Takes (x y z : Head) : Prop :=
  ∃ first, y.precedes x = .ok first ∧ z = if first then y.absorb x else x.absorb y

theorem Takes.joins (h : x.Takes y z) : x.Joins y z := by
  obtain ⟨first, hfirst, rfl⟩ := h
  cases first with
  | true => exact .inr ⟨precedes_asymm hfirst, rfl⟩
  | false => exact .inl ⟨hfirst, rfl⟩

/-- The definitions of a list are put to a head, one after the other. -/
abbrev TakesAll : Head → List Head → Head → Prop := Chain Takes

theorem TakesAll.joined (h : x.TakesAll ys z) : x.Joined ys z :=
  chain_joins.1 (h.imp fun _ _ _ => Takes.joins)

/-- The lines of both definitions are known, and that of `x` comes first. -/
def Earlier (x y : Head) : Prop :=
  ∃ m n, x.details.line = some m ∧ y.details.line = some n ∧ m < n

theorem Earlier.asymm (h : x.Earlier y) : ¬ y.Earlier x := by
  rintro ⟨n', m', hy', hx', hlt'⟩
  obtain ⟨m, n, hx, hy, hlt⟩ := h
  have hm : m = m' := Option.some.inj (hx.symm.trans hx')
  have hn : n = n' := Option.some.inj (hy.symm.trans hy')
  omega

theorem not_earlier_self : ¬ x.Earlier x := fun h => h.asymm h

/-- If `y` is earlier than `o` and `x` is not, but its line is known, then `y` is earlier than
`x`. -/
theorem Earlier.trans_not (h : y.Earlier o) (hx : ¬ x.Earlier o)
    (hline : x.details.line.isSome = true) : y.Earlier x := by
  obtain ⟨m, n, hy, ho, hlt⟩ := h
  obtain ⟨k, hk⟩ := Option.isSome_iff_exists.1 hline
  have hle : ¬ k < n := fun hkn => hx ⟨k, n, hk, ho, hkn⟩
  exact ⟨m, k, hy, hk, by omega⟩

theorem earlier_congr (h : w.details.line = o.details.line) : y.Earlier w ↔ y.Earlier o := by
  unfold Earlier
  rw [h]

theorem earlier_iff_of_lineBefore {first : Bool}
    (h : lineBefore x.details.line y.details.line = .ok first) : first = true ↔ x.Earlier y := by
  unfold Earlier
  revert h
  cases x.details.line <;> cases y.details.line <;> intro h <;> cases h <;> simp

/-- If the lines of both are known, or of neither, the leading definition keeps its own. -/
theorem line_absorb (h : x.details.line.isSome = y.details.line.isSome) :
    (x.absorb y).details.line = x.details.line := by
  change x.details.line.or y.details.line = x.details.line
  revert h
  cases x.details.line <;> cases y.details.line <;> simp

/-- Of two definitions of one origin and one priority, the line decides. -/
theorem earlier_iff_of_precedes {first : Bool} (h : x.precedes y = .ok first)
    (horigin : x.details.foreign = y.details.foreign)
    (hpriority : x.form.priority = y.form.priority) : first = true ↔ x.Earlier y := by
  rw [precedes, if_neg (by simp [horigin]), if_neg (by simp [hpriority])] at h
  exact earlier_iff_of_lineBefore h

end Head

/-! ### The first of the earliest -/

/-- The definition `o`, between those that come before it and those that come after it, is the first
of the earliest contenders. -/
structure Foremost (before : List Head) (o : Head) (after : List Head) : Prop where
  remains : Remains before o after
  /-- It is earlier than the contenders that come before it. -/
  sooner : ∀ b x a, before = b ++ x :: a → Remains b x (a ++ o :: after) → o.Earlier x
  /-- None of the contenders that come after it is earlier. -/
  unbeaten : ∀ b y a, after = b ++ y :: a → Remains (before ++ o :: b) y a → ¬ y.Earlier o

/-- No contender is earlier than the foremost one. -/
theorem Foremost.not_earlier (h : Foremost before o after)
    (heq : before ++ o :: after = b ++ x :: a) (hx : Remains b x a) : ¬ x.Earlier o := by
  rcases List.append_eq_append_iff.1 heq with ⟨mid, rfl, hrest⟩ | ⟨mid, rfl, hrest⟩
  · cases mid with
    | nil =>
      obtain ⟨rfl, -⟩ := List.cons.inj hrest
      exact Head.not_earlier_self
    | cons o' mid =>
      obtain ⟨rfl, rfl⟩ := List.cons.inj hrest
      exact h.unbeaten mid x a rfl hx
  · cases mid with
    | nil =>
      obtain ⟨rfl, -⟩ := List.cons.inj hrest
      exact Head.not_earlier_self
    | cons x' mid =>
      obtain ⟨rfl, rfl⟩ := List.cons.inj hrest
      exact (h.sooner b x mid rfl hx).asymm

/-- One more definition, which displaces nothing and is not earlier. -/
theorem Foremost.concat (h : Foremost before o after)
    (hstay : y.details.foreign = true → AllForeign (before ++ o :: after))
    (hlater : Remains (before ++ o :: after) y [] → ¬ y.Earlier o) :
    Foremost before o (after ++ [y]) := by
  refine ⟨remains_concat.2 ⟨h.remains, hstay⟩, fun b x a hb hx => ?_, fun b y' a hb hy => ?_⟩
  · rw [← List.cons_append, ← List.append_assoc, remains_concat] at hx
    exact h.sooner b x a hb hx.1
  · rcases concat_eq_append_cons.1 hb with ⟨rfl, rfl, rfl⟩ | ⟨rest, rfl, rfl⟩
    · exact hlater hy
    · exact h.unbeaten b y' rest rfl (remains_concat.1 hy).1

/-- One more definition, which is earlier than the contenders that it does not displace. -/
theorem foremost_last (hadmitted : y.details.foreign = false → AllForeign xs → xs = [])
    (hsooner : ∀ b x a, xs = b ++ x :: a → Remains b x (a ++ [y]) → y.Earlier x) :
    Foremost xs y [] where
  remains := ⟨hadmitted, fun mid f rest hmid _ => absurd hmid.symm (by simp)⟩
  sooner := hsooner
  unbeaten b y' a hb _ := absurd hb.symm (by simp)

/-- Of definitions of one origin, the foremost is earlier than all before it, and none after it is
earlier. -/
theorem Foremost.of_same_origin {foreign : Bool} (h : Foremost before o after)
    (horigin : ∀ x ∈ before ++ o :: after, x.details.foreign = foreign) :
    (∀ x ∈ before, o.Earlier x) ∧ ∀ x ∈ after, ¬ x.Earlier o := by
  refine ⟨fun x hx => ?_, fun x hx => ?_⟩
  · obtain ⟨b, a, rfl⟩ := List.append_of_mem hx
    refine h.sooner b x a rfl (remains_of_same_origin foreign ?_)
    rwa [← List.cons_append, ← List.append_assoc]
  · obtain ⟨b, a, rfl⟩ := List.append_of_mem hx
    refine h.unbeaten b x a rfl (remains_of_same_origin foreign ?_)
    rwa [List.append_assoc, List.cons_append]

/-! ### What definitions of one priority make -/

/-- What is known of the head `z` that definitions of one priority have made. -/
structure Held (xs : List Head) (z : Head) : Prop where
  foreign : z.details.foreign = true ↔ AllForeign xs
  lead : ∃ before o after, xs = before ++ o :: after ∧ z.form = o.form ∧
    z.details.line = o.details.line ∧ Foremost before o after

theorem held_singleton (x : Head) : Held [x] x where
  foreign := by simp [AllForeign]
  lead := ⟨[], x, [], rfl, rfl, rfl,
    foremost_last (fun _ _ => rfl) fun b x a hb _ => absurd hb.symm (by simp)⟩

variable {priority : Nat} {known : Bool}

theorem Held.exists_line (h : Held xs w) : ∃ o ∈ xs, w.form = o.form ∧
    w.details.line = o.details.line := by
  obtain ⟨-, before, o, after, rfl, hform, hline, -⟩ := h
  exact ⟨o, List.mem_append_right before List.mem_cons_self, hform, hline⟩

/-- What is there keeps the lead over a definition that does not precede it. -/
theorem Held.kept (h : Held xs w) (hline : w.details.line.isSome = y.details.line.isSome)
    (horigin : y.details.foreign = true → w.details.foreign = true)
    (hlater : y.details.foreign = w.details.foreign → ¬ y.Earlier w) :
    Held (xs ++ [y]) (w.absorb y) := by
  obtain ⟨hforeign, before, o, after, rfl, hform, hlead, hforemost⟩ := h
  refine ⟨standing_concat_foreign hforeign, before, o, after ++ [y],
    concat_eq_append_cons.2 (.inr ⟨after, rfl, rfl⟩), hform, (Head.line_absorb hline).trans hlead,
    hforemost.concat (fun hy => hforeign.1 (horigin hy)) fun hremains => ?_⟩
  rw [← Head.earlier_congr hlead]
  refine hlater ?_
  cases hy : y.details.foreign with
  | true => exact (horigin hy).symm
  | false =>
    -- the first definition of the project after foreign ones is not in the running
    refine (Bool.eq_false_iff.2 fun hw => ?_).symm
    exact absurd (hremains.admitted hy (hforeign.1 hw)) (by simp)

/-- A definition that precedes what is there takes the lead. -/
theorem Held.overtaken (h : Held xs w) (hlines : ∀ x ∈ xs, x.details.line.isSome = known)
    (hline : y.details.line.isSome = known)
    (horigin : w.details.foreign = true → y.details.foreign = true)
    (hearlier : y.details.foreign = w.details.foreign → y.Earlier w) :
    Held (xs ++ [y]) (y.absorb w) := by
  obtain ⟨hforeign, before, o, after, rfl, -, hlead, hforemost⟩ := h
  have hsome : y.details.line.isSome = w.details.line.isSome := by
    rw [hline, hlead, hlines o (List.mem_append_right before List.mem_cons_self)]
  refine ⟨?_, before ++ o :: after, y, [], rfl, rfl, Head.line_absorb hsome,
    foremost_last (fun hy hall => ?_) fun b x a hb hx => ?_⟩
  · rw [← standing_concat_foreign hforeign, Bool.and_comm]
    rfl
  · exact absurd (hy.symm.trans (horigin (hforeign.2 hall))) Bool.false_ne_true
  · obtain ⟨hx, hstay⟩ := remains_concat.1 hx
    -- were the definition foreign and what is there not, it would displace the contender
    have hsame : y.details.foreign = w.details.foreign := by
      rw [Bool.eq_iff_iff]
      exact ⟨fun hy => hforeign.2 (hb ▸ hstay hy), horigin⟩
    have hfirst : y.Earlier o := (Head.earlier_congr hlead).1 (hearlier hsame)
    refine hfirst.trans_not (hforemost.not_earlier hb hx) ?_
    obtain ⟨m, -, hm, -⟩ := hfirst
    rw [hlines x (hb ▸ List.mem_append_right b List.mem_cons_self), ← hline, hm]
    rfl

/-- **One more definition** is put to what the others have made. -/
theorem Held.take (h : Held xs w) (htakes : w.Takes y z)
    (hpriority : ∀ x ∈ xs ++ [y], x.form.priority = priority)
    (hlines : ∀ x ∈ xs ++ [y], x.details.line.isSome = known) : Held (xs ++ [y]) z := by
  rw [List.forall_mem_append, List.forall_mem_singleton] at hpriority hlines
  obtain ⟨o, ho, hform, hline⟩ := h.exists_line
  have hpriority : y.form.priority = w.form.priority := by
    rw [hform, hpriority.1 o ho, hpriority.2]
  obtain ⟨first, hfirst, rfl⟩ := htakes
  cases first with
  | false =>
    refine h.kept ?_ (Head.origin_priority_of_precedes hfirst).1 fun hsame hearlier => ?_
    · rw [hline, hlines.1 o ho, hlines.2]
    · exact Bool.false_ne_true ((Head.earlier_iff_of_precedes hfirst hsame hpriority).2 hearlier)
  | true =>
    refine h.overtaken hlines.1 hlines.2
      (Head.origin_priority_of_precedes (Head.precedes_asymm hfirst)).1 fun hsame => ?_
    exact (Head.earlier_iff_of_precedes hfirst hsame hpriority).1 rfl

/-- **Definitions of one priority**, put to each other one after the other. -/
theorem Held.takesAll (h : Held xs w) (htakes : w.TakesAll ys z)
    (hpriority : ∀ x ∈ xs ++ ys, x.form.priority = priority)
    (hlines : ∀ x ∈ xs ++ ys, x.details.line.isSome = known) : Held (xs ++ ys) z := by
  induction ys generalizing xs w with
  | nil =>
    obtain rfl := htakes
    rwa [List.append_nil]
  | cons y ys ih =>
    obtain ⟨v, hv, htakes⟩ := htakes
    rw [List.append_cons] at hpriority hlines ⊢
    exact ih (h.take hv (List.forall_mem_append.1 hpriority).1 (List.forall_mem_append.1 hlines).1)
      htakes hpriority hlines

/-- Of definitions of one origin and one priority that could be joined, the lines of all are known,
or those of none. -/
theorem Head.TakesAll.lines {foreign : Bool} (h : x.TakesAll ys z)
    (horigin : ∀ y ∈ x :: ys, y.details.foreign = foreign)
    (hpriority : ∀ y ∈ x :: ys, y.form.priority = priority) :
    ∀ y ∈ x :: ys, y.details.line.isSome = x.details.line.isSome := by
  induction ys generalizing x with
  | nil => simp
  | cons y ys ih =>
    obtain ⟨w, hw, h⟩ := h
    simp only [List.forall_mem_cons] at horigin hpriority ih ⊢
    have hclash := Head.comparable_iff.1 hw.joins.comparable
    have hline : y.details.line.isSome = x.details.line.isSome := by
      refine Classical.byContradiction fun hne => hclash ⟨?_, ?_, Ne.symm hne⟩
      · rw [horigin.1, horigin.2.1]
      · rw [hpriority.1, hpriority.2.1]
    -- what the first two make is like each of them
    have hmade : w.details.foreign = foreign ∧ w.form.priority = priority ∧
        w.details.line.isSome = x.details.line.isSome := by
      refine hw.joins.induction (P := fun u => u.details.foreign = foreign ∧
        u.form.priority = priority ∧ u.details.line.isSome = x.details.line.isSome)
        ⟨horigin.1, hpriority.1, rfl⟩ ⟨horigin.2.1, hpriority.2.1, hline⟩ ?_
      intro lead other hlead hother _
      refine ⟨?_, hlead.2.1, ?_⟩
      · simp [Head.absorb, Details.absorb, hlead.1, hother.1]
      · simp [Head.absorb, Details.absorb, Option.isSome_or, hlead.2.2, hother.2.2]
    have hrest := (ih h ⟨hmade.1, horigin.2.2⟩ ⟨hmade.2.1, hpriority.2.2⟩).2
    exact ⟨trivial, hline, fun v hv => (hrest v hv).trans hmade.2.2⟩

/-- The definition `o` of a list gives its form to the head `z` that definitions of one priority
have made. -/
structure Leads (xs : List Head) (o z : Head) : Prop where
  contends : Contends xs o
  form : z.form = o.form
  /-- If the lines of all are known, or those of none, it is the foremost. -/
  foremost : ∀ known, (∀ x ∈ xs, x.details.line.isSome = known) →
    ∃ before after, xs = before ++ o :: after ∧ Foremost before o after
  /-- If all are of one origin, it is the first of the earliest. -/
  earliest : ∀ foreign, (∀ x ∈ xs, x.details.foreign = foreign) →
    ∃ before after, xs = before ++ o :: after ∧ (∀ x ∈ before, o.Earlier x) ∧
      ∀ x ∈ after, ¬ x.Earlier o

/-- **Which of several definitions of one priority leads.** -/
theorem exists_leads (h : x.TakesAll ys z)
    (hpriority : ∀ y ∈ x :: ys, y.form.priority = priority) : ∃ o, Leads (x :: ys) o z := by
  by_cases huniform : ∃ known, ∀ y ∈ x :: ys, y.details.line.isSome = known
  · obtain ⟨known, hlines⟩ := huniform
    obtain ⟨-, before, o, after, heq, hform, -, hforemost⟩ :=
      (held_singleton x).takesAll h hpriority hlines
    rw [List.singleton_append] at heq
    refine ⟨o, ⟨before, after, heq, hforemost.remains⟩, hform,
      fun _ _ => ⟨before, after, heq, hforemost⟩, fun foreign horigin => ?_⟩
    exact ⟨before, after, heq, hforemost.of_same_origin (heq ▸ horigin)⟩
  · have hstanding := (standing_singleton x).joined (List.cons_ne_nil x []) h.joined
    obtain ⟨o, ho, hform⟩ := hstanding.form
    refine ⟨o, ho, hform, fun known hlines => absurd ⟨known, hlines⟩ huniform, ?_⟩
    intro foreign horigin
    exact absurd ⟨_, h.lines horigin hpriority⟩ huniform

/-! ### Definitions that are added -/

theorem takes_of_merge {a b c : Object} (h : a.merge b = .ok c) : a.head.Takes b.head c.head :=
  head_merge h

/-- Objects that are added at the path itself are put to what is there. -/
theorem brings_takes {cleanup : Bool} {path : List String} {steps : List (String × Object)}
    (h : ∀ s ∈ steps, (brought path s).isSome = true → splitString '.' s.1 = path) :
    Brings Head.Takes cleanup path steps := by
  intro s hs root next x y hnext hx hy
  obtain rfl := h s hs (by rw [hy]; rfl)
  obtain ⟨first, hfirst, hhead⟩ := headAt?_insert_self hnext hx hy
  exact ⟨_, hhead, first, hfirst, rfl⟩

end LuaDocs.Object
