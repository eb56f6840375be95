import LuaDocs.Proofs.Object.Gathering
import Mathlib.Data.List.Induction

/-!
# Which definition leads

Definitions that meet at a path are joined one after the other, and the one that leads gives the
object its form. Priority decides between definitions of one origin, but origin comes before
priority: a foreign definition leads one of the project. And what a foreign definition and one of
the project make belongs to the project, so that the next foreign definition leads it as well.

Hence not all definitions are in the running. A foreign definition that comes after one of the
project displaces everything before it, whatever its priority. The first definition of the project
that comes after foreign ones is not admitted: it makes the object belong to the project, and leaves
its form alone. Among the definitions that are left, the *contenders*, priority decides.
-/

namespace LuaDocs

open Text

namespace Object

/-! ### Contenders -/

/-- None of the definitions belongs to the project. -/
def AllForeign (xs : List Head) : Prop := ∀ x ∈ xs, x.details.foreign = true

instance (xs : List Head) : Decidable (AllForeign xs) :=
  inferInstanceAs (Decidable (∀ x ∈ xs, x.details.foreign = true))

/-- The definition `o` is in the running, between those that come before it and those that come
after it. -/
structure Remains (before : List Head) (o : Head) (after : List Head) : Prop where
  /-- The first definition of the project is in the running only if no foreign one precedes it. -/
  admitted : o.details.foreign = false → AllForeign before → before = []
  /-- A foreign definition that comes later comes after foreign ones only. -/
  undisplaced : ∀ mid f rest, after = mid ++ f :: rest → f.details.foreign = true →
    AllForeign (before ++ o :: mid)

/-- The definition is in the running among those of the list. -/
def Contends (xs : List Head) (o : Head) : Prop :=
  ∃ before after, xs = before ++ o :: after ∧ Remains before o after

variable {xs ys before after : List Head} {o w x y z f : Head}

theorem Contends.mem (h : Contends xs o) : o ∈ xs := by
  obtain ⟨before, after, rfl, -⟩ := h
  exact List.mem_append_right before List.mem_cons_self

theorem not_contends_nil : ¬ Contends [] o := fun h => List.not_mem_nil h.mem

/-- Where a list is split at one of its elements, the last element is that one, or belongs to what
comes after it. -/
theorem concat_eq_append_cons {α : Type} {l before after : List α} {last a : α} :
    l ++ [last] = before ++ a :: after ↔
      l = before ∧ last = a ∧ after = [] ∨
        ∃ rest, l = before ++ a :: rest ∧ after = rest ++ [last] := by
  constructor
  · intro h
    rcases List.eq_nil_or_concat after with rfl | ⟨rest, last', rfl⟩
    · obtain ⟨rfl, hlast⟩ := List.append_inj' h rfl
      exact .inl ⟨rfl, List.singleton_inj.1 hlast, rfl⟩
    · rw [List.concat_eq_append, ← List.cons_append, ← List.append_assoc] at h
      obtain ⟨rfl, hlast⟩ := List.append_inj' h rfl
      exact .inr ⟨rest, rfl, by rw [hlast, List.concat_eq_append]⟩
  · rintro (⟨rfl, rfl, rfl⟩ | ⟨rest, rfl, rfl⟩)
    · rfl
    · rw [List.append_assoc, List.cons_append]

/-- One more definition at the end. -/
theorem remains_concat : Remains before o (after ++ [y]) ↔
    Remains before o after ∧ (y.details.foreign = true → AllForeign (before ++ o :: after)) := by
  constructor
  · intro h
    refine ⟨⟨h.admitted, fun mid f rest hmid hf => ?_⟩, fun hy => ?_⟩
    · exact h.undisplaced mid f (rest ++ [y])
        (concat_eq_append_cons.2 (.inr ⟨rest, hmid, rfl⟩)) hf
    · exact h.undisplaced after y [] rfl hy
  · rintro ⟨h, hlast⟩
    refine ⟨h.admitted, fun mid f rest hmid hf => ?_⟩
    -- the foreign definition is the last one, or was there before
    rcases concat_eq_append_cons.1 hmid with ⟨rfl, rfl, -⟩ | ⟨rest, hold, -⟩
    · exact hlast hf
    · exact h.undisplaced mid f rest hold hf

/-- One more definition: the contenders stay in the running unless it is foreign and displaces them,
and it is one itself unless it is the first of the project after foreign ones. -/
theorem contends_concat : Contends (xs ++ [y]) o ↔
    Contends xs o ∧ (y.details.foreign = true → AllForeign xs) ∨
      o = y ∧ (y.details.foreign = false → AllForeign xs → xs = []) := by
  constructor
  · rintro ⟨before, after, heq, h⟩
    rcases concat_eq_append_cons.1 heq with ⟨rfl, rfl, -⟩ | ⟨after, rfl, rfl⟩
    · exact .inr ⟨rfl, h.admitted⟩
    · obtain ⟨hold, hlast⟩ := remains_concat.1 h
      exact .inl ⟨⟨before, after, rfl, hold⟩, hlast⟩
  · rintro (⟨⟨before, after, rfl, h⟩, hlast⟩ | ⟨rfl, hfirst⟩)
    · exact ⟨before, after ++ [y], concat_eq_append_cons.2 (.inr ⟨after, rfl, rfl⟩),
        remains_concat.2 ⟨h, hlast⟩⟩
    · refine ⟨xs, [], rfl, hfirst, fun mid f rest hmid _ => ?_⟩
      exact absurd hmid.symm (by simp)

theorem contends_singleton : Contends [y] o ↔ o = y := by
  rw [← List.nil_append [y], contends_concat]
  simp [not_contends_nil]

/-- A foreign definition after one of the project displaces all that come before it. -/
theorem Contends.mem_of_displaced (h : Contends (before ++ f :: after) o)
    (hf : f.details.foreign = true) (hbefore : ¬ AllForeign before) : o ∈ f :: after := by
  induction after using List.reverseRecOn with
  | nil =>
    rcases contends_concat.1 h with ⟨-, hlast⟩ | ⟨rfl, -⟩
    · exact absurd (hlast hf) hbefore
    · exact List.mem_cons_self
  | append_singleton after y ih =>
    rw [← List.cons_append, ← List.append_assoc, contends_concat] at h
    rcases h with ⟨hold, -⟩ | ⟨rfl, -⟩
    · exact List.mem_append_left [y] (ih hold)
    · exact List.mem_append_right (f :: after) List.mem_cons_self

theorem remains_of_same_origin (foreign : Bool)
    (h : ∀ x ∈ before ++ o :: after, x.details.foreign = foreign) : Remains before o after := by
  have ho : o.details.foreign = foreign := h o (List.mem_append_right before List.mem_cons_self)
  refine ⟨fun hproject hall => ?_, fun mid f rest hmid hf x hx => ?_⟩
  · refine List.eq_nil_iff_forall_not_mem.2 fun x hx => ?_
    have hx' := h x (List.mem_append_left _ hx)
    rw [← ho, hproject, hall x hx] at hx'
    cases hx'
  · have hfx : ∀ y ∈ before ++ o :: mid ++ f :: rest, y.details.foreign = foreign := by
      rwa [List.append_assoc, List.cons_append, ← hmid]
    rw [hfx x (List.mem_append_left _ hx), ← hf]
    exact (hfx f (List.mem_append_right _ List.mem_cons_self)).symm

/-- Of definitions of one origin, all are in the running. -/
theorem contends_of_same_origin {foreign : Bool} (h : ∀ x ∈ xs, x.details.foreign = foreign)
    (ho : o ∈ xs) : Contends xs o := by
  obtain ⟨before, after, rfl⟩ := List.append_of_mem ho
  exact ⟨before, after, rfl, remains_of_same_origin foreign h⟩

/-! ### What several definitions make -/

/-- What is known of the head `z` that the definitions of a list have made. -/
structure Standing (xs : List Head) (z : Head) : Prop where
  foreign : z.details.foreign = true ↔ AllForeign xs
  line : z.details.line.isSome = true ↔ ∃ x ∈ xs, x.details.line.isSome = true
  form : ∃ o, Contends xs o ∧ z.form = o.form
  priority : ∀ o, Contends xs o → o.form.priority ≤ z.form.priority

theorem standing_singleton (x : Head) : Standing [x] x where
  foreign := by simp [AllForeign]
  line := by simp
  form := ⟨x, contends_singleton.2 rfl, rfl⟩
  priority o ho := Nat.le_of_eq (by rw [contends_singleton.1 ho])

/-- A definition that does not precede another one is foreign only if the other one is, and of two
definitions of one origin it does not have the greater priority. -/
theorem Head.origin_priority_of_precedes (h : x.precedes y = .ok false) :
    (x.details.foreign = true → y.details.foreign = true) ∧
      (x.details.foreign = y.details.foreign → x.form.priority ≤ y.form.priority) := by
  unfold Head.precedes at h
  split at h
  · next hne =>
    have hx : x.details.foreign = false := Except.ok.inj h
    refine ⟨fun hx' => absurd (hx.symm.trans hx') Bool.false_ne_true, fun heq => ?_⟩
    exact absurd heq (bne_iff_ne.1 hne)
  · next heq =>
    have hsame : x.details.foreign = y.details.foreign := by simpa using heq
    refine ⟨fun hx => hsame ▸ hx, fun _ => ?_⟩
    split at h
    · simpa using Except.ok.inj h
    · next hpriority =>
      have hpriority : x.form.priority = y.form.priority := by simpa using hpriority
      exact Nat.le_of_eq hpriority

theorem standing_concat_foreign (h : w.details.foreign = true ↔ AllForeign xs) :
    (w.details.foreign && y.details.foreign) = true ↔ AllForeign (xs ++ [y]) := by
  rw [Bool.and_eq_true, h, AllForeign, AllForeign, List.forall_mem_append,
    List.forall_mem_singleton]

/-- **One more definition** is joined to what the others have made. -/
theorem Standing.join (h : Standing xs w) (hne : xs ≠ []) (hjoins : w.Joins y z) :
    Standing (xs ++ [y]) z := by
  have hline : (∃ x ∈ xs ++ [y], x.details.line.isSome = true) ↔
      w.details.line.isSome = true ∨ y.details.line.isSome = true := by
    rw [h.line]
    simp [or_and_right, exists_or]
  rcases hjoins with ⟨hfirst, rfl⟩ | ⟨hfirst, rfl⟩
  · obtain ⟨horigin, hpriority⟩ := Head.origin_priority_of_precedes hfirst
    -- the contenders stay in the running
    have hstay : y.details.foreign = true → AllForeign xs := fun hy => h.foreign.1 (horigin hy)
    refine ⟨standing_concat_foreign h.foreign, ?_, ?_, fun o ho => ?_⟩
    · rw [hline]
      simp [Head.absorb, Details.absorb, Option.isSome_or]
    · obtain ⟨o, ho, hform⟩ := h.form
      exact ⟨o, contends_concat.2 (.inl ⟨ho, hstay⟩), hform⟩
    · rcases contends_concat.1 ho with ⟨hold, -⟩ | ⟨rfl, hadmitted⟩
      · exact h.priority o hold
      · refine hpriority ?_
        cases ho' : o.details.foreign with
        | true => exact (horigin ho').symm
        | false =>
          have hproject : ¬ AllForeign xs := fun hall => hne (hadmitted ho' hall)
          exact (Bool.eq_false_iff.2 (h.foreign.not.2 hproject)).symm
  · obtain ⟨horigin, hpriority⟩ := Head.origin_priority_of_precedes hfirst
    refine ⟨?_, ?_, ⟨y, contends_concat.2 (.inr ⟨rfl, fun hy hall => ?_⟩), rfl⟩, fun o ho => ?_⟩
    · rw [← standing_concat_foreign h.foreign, Bool.and_comm]
      rfl
    · rw [hline, or_comm]
      simp [Head.absorb, Details.absorb, Option.isSome_or]
    · exact absurd (hy.symm.trans (horigin (h.foreign.2 hall))) Bool.false_ne_true
    · rcases contends_concat.1 ho with ⟨hold, hstay⟩ | ⟨rfl, -⟩
      · -- what led before is of the origin of the new definition
        refine Nat.le_trans (h.priority o hold) (hpriority ?_)
        cases hy : y.details.foreign with
        | true => exact h.foreign.2 (hstay hy)
        | false => exact Bool.eq_false_iff.2 fun hw => by simp [horigin hw] at hy
      · exact Nat.le_refl _

theorem Standing.joined (h : Standing xs w) (hne : xs ≠ []) (hjoined : w.Joined ys z) :
    Standing (xs ++ ys) z := by
  induction ys generalizing xs w with
  | nil =>
    obtain rfl := hjoined
    rwa [List.append_nil]
  | cons y ys ih =>
    obtain ⟨v, hv, hjoined⟩ := hjoined
    rw [List.append_cons]
    exact ih (h.join hne hv) (by simp) hjoined

/-- **All definitions that meet**, joined one after the other. -/
theorem Gathered.standing (h : Gathered xs (some z)) : Standing xs z := by
  cases xs with
  | nil => cases h
  | cons x xs =>
    obtain ⟨w, hw, hjoined⟩ := h
    cases hw
    exact (standing_singleton x).joined (List.cons_ne_nil x []) hjoined

/-! ### Definitions of one path -/

theorem brought_of_eq {path : List String} {s : String × Object}
    (h : splitString '.' s.1 = path) : brought path s = some (noted path s.2).head := by
  subst h
  exact brought_self s

/-- If all objects are added at one path, they are what meets there. -/
theorem meeting_of_eq {cleanup : Bool} {path : List String} {steps : List (String × Object)}
    (h : ∀ s ∈ steps, splitString '.' s.1 = path) :
    meeting cleanup path steps = steps.map fun s => (noted path s.2).head := by
  have hbrought : steps.filterMap (brought path) = steps.map fun s => (noted path s.2).head := by
    rw [← List.filterMap_eq_map]
    exact List.filterMap_congr fun s hs => brought_of_eq (h s hs)
  cases steps with
  | nil => rfl
  | cons s steps =>
    rw [meeting, made_cons_of_brought (brought_of_eq (h s List.mem_cons_self)), hbrought]
    rfl

end Object

namespace Analysis

open Object

/-- **Which definition leads.** Objects are added to an empty tree in any order and under any paths.
Wherever something meets, there is an object in the end. It has the form of a contender, and no
contender has a greater priority. So it has the greatest priority of all that meet exactly if a
contender has it; definitions of one origin are all contenders, but a foreign definition after one
of the project displaces everything before it. Of objects that are added at one path, all meet
there. -/
theorem exists_leading {cleanup : Bool} {steps : List (String × Object)} {a : Analysis}
    {path : List String} (h : (empty cleanup).addAll steps = .ok a) (hpath : path ≠ [])
    (hmet : meeting cleanup path steps ≠ []) :
    ∃ x, a.root.at? path = some x ∧
      (∃ o, Contends (meeting cleanup path steps) o ∧ x.form = o.form) ∧
      (∀ o, Contends (meeting cleanup path steps) o → o.form.priority ≤ x.form.priority) ∧
      ((∀ y ∈ meeting cleanup path steps, y.form.priority ≤ x.form.priority) ↔
        ∃ o, Contends (meeting cleanup path steps) o ∧
          ∀ y ∈ meeting cleanup path steps, y.form.priority ≤ o.form.priority) ∧
      (∀ foreign, (∀ y ∈ meeting cleanup path steps, y.details.foreign = foreign) →
        ∀ y ∈ meeting cleanup path steps, y.form.priority ≤ x.form.priority) ∧
      (∀ before f after, meeting cleanup path steps = before ++ f :: after →
        f.details.foreign = true → ¬ AllForeign before → ∃ o ∈ f :: after, x.form = o.form) ∧
      ((∀ s ∈ steps, splitString '.' s.1 = path) →
        meeting cleanup path steps = steps.map fun s => (noted path s.2).head) := by
  have hgathered := gathered_addAll h hpath
  obtain ⟨x, hx⟩ : ∃ x, a.root.at? path = some x := by
    obtain ⟨y, ys, hcons⟩ := List.exists_cons_of_ne_nil hmet
    rw [hcons] at hgathered
    obtain ⟨z, hz, -⟩ := hgathered
    obtain ⟨x, hx, -⟩ := Option.map_eq_some_iff.1 hz
    exact ⟨x, hx⟩
  rw [headAt?, hx, Option.map_some] at hgathered
  have hstanding := hgathered.standing
  obtain ⟨o, ho, hform⟩ := hstanding.form
  refine ⟨x, hx, ⟨o, ho, hform⟩, hstanding.priority, ⟨fun hgreatest => ⟨o, ho, ?_⟩, ?_⟩, ?_, ?_,
    meeting_of_eq⟩
  · rw [← hform]
    exact hgreatest
  · rintro ⟨o', ho', hgreatest⟩ y hy
    exact Nat.le_trans (hgreatest y hy) (hstanding.priority o' ho')
  · intro foreign hsame y hy
    exact hstanding.priority y (contends_of_same_origin hsame hy)
  · intro before f after hsplit hf hbefore
    rw [hsplit] at ho
    exact ⟨o, ho.mem_of_displaced hf hbefore, hform⟩

/-- A class of the project. -/
def ownClass : Object :=
  ⟨{ Details.unknown true with line := some 1 }, .class_ ⟨[], [], none, none⟩, []⟩

/-- A variable of a library. -/
def libraryVariable : Object :=
  ⟨{ Details.unknown true with foreign := true, line := some 2 }, .data (some "x") none, []⟩

/-- The variable displaces the class of its name, which has the greater priority. -/
theorem leading_of_libraryVariable :
    ∃ a x, (empty true).addAll [("a", ownClass), ("a", libraryVariable)] = .ok a ∧
      a.root.at? ["a"] = some x ∧ x.form = libraryVariable.form ∧
      x.form.priority < ownClass.form.priority := by
  have hok : ((empty true).addAll [("a", ownClass), ("a", libraryVariable)]).isOk = true := by
    decide +kernel
  obtain ⟨a, ha⟩ := Except.exists_of_isOk hok
  have hmeeting : meeting true ["a"] [("a", ownClass), ("a", libraryVariable)] =
      [(noted ["a"] ownClass).head] ++ (noted ["a"] libraryVariable).head :: [] := by
    decide +kernel
  obtain ⟨x, hx, -, -, -, -, hdisplaced, -⟩ := exists_leading ha (List.cons_ne_nil "a" [])
    (by rw [hmeeting]; exact List.cons_ne_nil _ _)
  obtain ⟨o, ho, hform⟩ := hdisplaced _ _ _ hmeeting rfl (by decide)
  obtain rfl := List.mem_singleton.1 ho
  have hvariable : x.form = libraryVariable.form := hform
  refine ⟨a, x, ha, hx, hvariable, ?_⟩
  rw [hvariable]
  decide

end Analysis

end LuaDocs
