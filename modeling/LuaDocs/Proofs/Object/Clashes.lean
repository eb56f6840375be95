import LuaDocs.Proofs.Object.Comparable
import LuaDocs.Proofs.Object.Leading

/-!
# When merging fails

Two definitions of one origin and one priority are told apart by their lines, and a line cannot be
compared with a missing one: such definitions *clash* if just one of them has a line. Merging two
trees fails exactly if definitions clash at a path that both trees have, however deep.

When objects are added one after the other, a definition is compared with what those before it have
made. This belongs to the project as soon as one of them does, has a line as soon as one of them
does, and has the priority of a contender. So whether the objects can be added is decided by the
definitions that meet at each path, without looking at what they make.
-/

namespace LuaDocs

namespace Object

variable {x y z w : Head} {before after : List Head}

/-! ### Two definitions -/

namespace Head

/-- Two definitions are of one origin and one priority, and just one of them has a line. -/
def Clashes (x y : Head) : Prop :=
  x.details.foreign = y.details.foreign ∧ x.form.priority = y.form.priority ∧
    x.details.line.isSome ≠ y.details.line.isSome

/-- The definitions that cannot be compared are those that clash. -/
theorem comparable_iff : x.Comparable y ↔ ¬ x.Clashes y := by
  unfold Comparable Clashes precedes
  by_cases hforeign : x.details.foreign = y.details.foreign
  · by_cases hpriority : x.form.priority = y.form.priority
    · simp only [hforeign, hpriority, bne_self_eq_false, Bool.false_eq_true, if_false, true_and]
      cases x.details.line <;> cases y.details.line <;> simp [lineBefore]
    · simp [hforeign, hpriority]
  · simp [hforeign]

theorem Joins.comparable (h : x.Joins y z) : x.Comparable y := by
  rcases h with ⟨hfirst, -⟩ | ⟨hfirst, -⟩
  · exact Comparable.symm ⟨false, hfirst⟩
  · exact ⟨false, hfirst⟩

end Head

/-- **Two trees can be merged** exactly if no definitions clash at a path that both have. -/
theorem exists_merge_iff {a b : Object} (ha : a.Keyed) (hb : b.Keyed) :
    (∃ c, a.merge b = .ok c) ↔
      ∀ path x y, a.headAt? path = some x → b.headAt? path = some y → ¬ x.Clashes y := by
  constructor
  · rintro ⟨c, hc⟩ path x y hx hy
    have hmeets := meets_merge hc path
    rw [hx, hy, Meets.some_some] at hmeets
    obtain ⟨z, -, hjoins⟩ := hmeets
    exact Head.comparable_iff.1 hjoins.comparable
  · intro h
    exact exists_merge ha hb fun path x y hx hy => Head.comparable_iff.2 (h path x y hx hy)

/-! ### One definition after the other -/

/-- The definition `y` clashes with those that come before it: it is foreign just if all of them
are, has the priority of the contender that leads, and has a line just if none of them has one. -/
structure Clash (before : List Head) (y : Head) : Prop where
  origin : y.details.foreign = true ↔ AllForeign before
  contender : ∃ o, Contends before o ∧ o.form.priority = y.form.priority
  greatest : ∀ o, Contends before o → o.form.priority ≤ y.form.priority
  line : y.details.line.isSome = true ↔ ¬ ∃ x ∈ before, x.details.line.isSome = true

/-- A definition clashes with those before it if it clashes with what they have made. -/
theorem clash_iff (h : Standing before w) : Clash before y ↔ w.Clashes y := by
  obtain ⟨lead, hlead, hform⟩ := h.form
  have hline : (y.details.line.isSome = true ↔ ¬ ∃ x ∈ before, x.details.line.isSome = true) ↔
      w.details.line.isSome ≠ y.details.line.isSome := by
    rw [← h.line]
    cases w.details.line <;> cases y.details.line <;> simp
  constructor
  · rintro ⟨horigin, ⟨o, ho, hpriority⟩, hgreatest, hmissing⟩
    refine ⟨Bool.eq_iff_iff.2 (h.foreign.trans horigin.symm), Nat.le_antisymm ?_ ?_,
      hline.1 hmissing⟩
    · rw [hform]
      exact hgreatest lead hlead
    · rw [← hpriority]
      exact h.priority o ho
  · rintro ⟨horigin, hpriority, hmissing⟩
    refine ⟨by rw [← horigin, h.foreign], ⟨lead, hlead, by rw [← hform, hpriority]⟩, ?_,
      hline.2 hmissing⟩
    intro o ho
    rw [← hpriority]
    exact h.priority o ho

/-- Of definitions that could be joined, none clashes with those before it. -/
theorem not_clash_of_gathered {result : Option Head}
    (h : Gathered (before ++ y :: after) result) : ¬ Clash before y := by
  cases before with
  | nil =>
    intro hclash
    obtain ⟨o, ho, -⟩ := hclash.contender
    exact not_contends_nil ho
  | cons x xs =>
    obtain ⟨v, -, hjoined⟩ := h
    obtain ⟨w, hw, u, hjoins, -⟩ := Head.joined_append.1 hjoined
    have hstanding : Standing (x :: xs) w :=
      (standing_singleton x).joined (List.cons_ne_nil x []) hw
    rw [clash_iff hstanding]
    exact Head.comparable_iff.1 hjoins.comparable

variable {cleanup : Bool} {path : List String} {s : String × Object}
  {steps : List (String × Object)} {root merged : Object}

theorem meeting_concat_of_brought (h : brought path s = some y) :
    meeting cleanup path (steps ++ [s]) = meeting cleanup path steps ++ [y] := by
  rw [meeting, meeting, made_append_cons_of_brought h, List.filterMap_append, List.append_assoc,
    List.filterMap_cons_some h]
  rfl

/-- One more object leaves what has met at a path before. -/
theorem meeting_isPrefix_concat (cleanup : Bool) (path : List String)
    (steps : List (String × Object)) (s : String × Object) :
    meeting cleanup path steps <+: meeting cleanup path (steps ++ [s]) := by
  cases hs : brought path s with
  | some y =>
    rw [meeting_concat_of_brought hs]
    exact List.prefix_append _ _
  | none =>
    cases hfind : steps.find? (touches path) with
    | none =>
      have hnil : meeting cleanup path steps = [] := by
        rw [meeting_eq_nil_iff]
        exact fun t ht => Bool.eq_false_iff.2 (List.find?_eq_none.1 hfind t ht)
      rw [hnil]
      exact List.nil_prefix
    | some t =>
      have hmade : made path (steps ++ [s]) = made path steps := by
        rw [made, made, List.find?_append, hfind, Option.some_or]
      have hsame : meeting cleanup path (steps ++ [s]) = meeting cleanup path steps := by
        rw [meeting, meeting, hmade, List.filterMap_append, List.filterMap_cons_none hs,
          List.filterMap_nil, List.append_nil]
      exact hsame ▸ List.prefix_rfl

theorem keyed_insertAll (hroot : root.Keyed) (hsteps : ∀ s ∈ steps, s.2.Keyed)
    (h : insertAll cleanup root steps = .ok merged) : merged.Keyed := by
  induction steps generalizing root with
  | nil =>
    cases h
    exact hroot
  | cons s steps ih =>
    obtain ⟨next, hnext, h⟩ := insertAll_cons.1 h
    rw [List.forall_mem_cons] at hsteps
    exact ih (keyed_insert hroot hsteps.1 hnext) hsteps.2 h

/-- **Objects can be added to an empty tree** exactly if at no path a definition clashes with those
that have met there before it. -/
theorem exists_insertAll_iff (hroot : root.children = []) (hsteps : ∀ s ∈ steps, s.2.Keyed) :
    (∃ merged, insertAll cleanup root steps = .ok merged) ↔
      ∀ path, path ≠ [] → ∀ before y after,
        meeting cleanup path steps = before ++ y :: after → ¬ Clash before y := by
  constructor
  · rintro ⟨merged, hmerged⟩ path hpath before y after hsplit
    have hgathered := gathered_insertAll hmerged hpath (headAt?_of_childless hroot hpath)
    rw [hsplit] at hgathered
    exact not_clash_of_gathered hgathered
  · intro h
    -- the last object comes to what the others have made
    induction steps using List.reverseRecOn with
    | nil => exact ⟨root, rfl⟩
    | append_singleton steps s ih =>
      rw [List.forall_mem_append, List.forall_mem_singleton] at hsteps
      obtain ⟨next, hnext⟩ := ih hsteps.1 fun path hpath before y after hsplit => by
        obtain ⟨rest, hrest⟩ := meeting_isPrefix_concat cleanup path steps s
        refine h path hpath before y (after ++ rest) ?_
        rw [← hrest, hsplit, List.append_assoc, List.cons_append]
      have hkeyed : next.Keyed := keyed_insertAll (keyed_of_childless hroot) hsteps.1 hnext
      have hlast : ∃ merged, next.insert cleanup s.1 s.2 = .ok merged := by
        refine exists_insert hkeyed hsteps.2 fun path x y hx hy => ?_
        have hpath : path ≠ [] := by
          obtain ⟨rest, rfl, -⟩ := exists_of_brought hy
          simp [splitString_ne_nil]
        have hgathered := gathered_insertAll hnext hpath (headAt?_of_childless hroot hpath)
        rw [hx] at hgathered
        rw [Head.comparable_iff, ← clash_iff hgathered.standing]
        exact h path hpath _ y [] (meeting_concat_of_brought hy)
      obtain ⟨merged, hmerged⟩ := hlast
      exact ⟨merged, insertAll_append.2 ⟨next, hnext, insertAll_cons.2 ⟨merged, hmerged, rfl⟩⟩⟩

end Object

namespace Analysis

open Object

/-- **When merging succeeds.** Two objects whose trees have no repeated names can be merged exactly
if at no path that both trees have, two definitions of one origin and one priority differ in that
just one of them has a line. And such objects can be added one after the other, under any paths,
exactly if at no path a definition clashes in this way with those that have met there before. -/
theorem merging_succeeds_iff (a b : Object) (cleanup : Bool) (steps : List (String × Object)) :
    (a.Keyed → b.Keyed → ((∃ c, a.merge b = .ok c) ↔
      ∀ path x y, a.headAt? path = some x → b.headAt? path = some y → ¬ x.Clashes y)) ∧
    ((∀ s ∈ steps, s.2.Keyed) → ((∃ done, (empty cleanup).addAll steps = .ok done) ↔
      ∀ path, path ≠ [] → ∀ before y after,
        meeting cleanup path steps = before ++ y :: after → ¬ Clash before y)) := by
  refine ⟨exists_merge_iff, fun hsteps => ?_⟩
  have hroot : (empty cleanup).root.children = [] := rfl
  rw [← exists_insertAll_iff hroot hsteps]
  constructor
  · rintro ⟨done, hdone⟩
    exact ⟨done.root, insertAll_of_addAll hdone⟩
  · rintro ⟨root, hroot⟩
    exact ⟨_, addAll_of_insertAll hroot⟩

/-- A variable of which the line is known or not. -/
def variableAt (line : Option Int) (type : String) : Object :=
  ⟨{ Details.unknown true with line }, .data (some type) none, []⟩

/-- A variable with a line cannot be merged with one without a line, nor added to it. -/
theorem merging_fails_without_line :
    (¬ ∃ c, (variableAt (some 3) "x").merge (variableAt none "y") = .ok c) ∧
    ¬ ∃ done, (empty true).addAll
      [("a", variableAt (some 3) "x"), ("a", variableAt none "y")] = .ok done := by
  have hkeyed : ∀ line type, (variableAt line type).Keyed := fun _ _ => keyed_of_childless rfl
  obtain ⟨hmerge, hadd⟩ := merging_succeeds_iff (variableAt (some 3) "x") (variableAt none "y")
    true [("a", variableAt (some 3) "x"), ("a", variableAt none "y")]
  constructor
  · rw [hmerge (hkeyed _ _) (hkeyed _ _)]
    intro h
    exact h [] _ _ rfl rfl ⟨rfl, rfl, by decide⟩
  · rw [hadd (by simp [hkeyed])]
    intro h
    have hmeeting :
        meeting true ["a"] [("a", variableAt (some 3) "x"), ("a", variableAt none "y")] =
        [(noted ["a"] (variableAt (some 3) "x")).head] ++
          (noted ["a"] (variableAt none "y")).head :: [] := by
      decide +kernel
    refine h ["a"] (List.cons_ne_nil _ _) _ _ _ hmeeting ?_
    rw [clash_iff (standing_singleton _)]
    exact ⟨rfl, rfl, by decide⟩

end Analysis

end LuaDocs
