import LuaDocs.Proofs.Object.Adding

/-!
# What meets at a path

Objects are added to a tree one after the other. What becomes of the object at one path depends only
on the heads that meet there: those that the added objects have at the path, in the order in which
they come. They are joined one by one. A further head meets them if an object below the path is
added before any that has something at it. Then an object of which nothing is known is made at the
path, a *placeholder*, and everything that defines the object later is joined to it.
-/

namespace LuaDocs

open Text

namespace Object

variable {R : Head → Head → Head → Prop} {ys : List Head} {P : Head → Prop}
  {others : List (String × Object)}

/-! ### Adding one object after the other -/

/-- Adds objects to a tree under their paths, one after the other. -/
def insertAll (cleanup : Bool) (root : Object) (steps : List (String × Object)) :
    Except MergeError Object :=
  steps.foldlM (fun root s => root.insert cleanup s.1 s.2) root

variable {cleanup : Bool} {root merged : Object} {s : String × Object}
  {steps : List (String × Object)} {path : List String} {x y z : Head}

theorem insertAll_cons : insertAll cleanup root (s :: steps) = .ok merged ↔
    ∃ next, root.insert cleanup s.1 s.2 = .ok next ∧ insertAll cleanup next steps = .ok merged := by
  rw [insertAll, List.foldlM_cons]
  constructor
  · exact Except.ok_of_bind
  · rintro ⟨next, hnext, h⟩
    rw [hnext]
    exact h

theorem insertAll_append :
    insertAll cleanup root (steps ++ others) = .ok merged ↔
      ∃ next, insertAll cleanup root steps = .ok next ∧
        insertAll cleanup next others = .ok merged := by
  rw [insertAll, List.foldlM_append]
  constructor
  · exact Except.ok_of_bind
  · rintro ⟨next, hnext, h⟩
    rw [insertAll] at hnext
    rw [hnext]
    exact h

/-! ### What one object brings -/

/-- The head that an added object has at a path. -/
def brought (path : List String) (s : String × Object) : Option Head :=
  if splitString '.' s.1 <+: path then
    (noted (splitString '.' s.1) s.2).headAt? (path.drop (splitString '.' s.1).length)
  else none

/-- The path leads to the added object but does not reach it. -/
def Passes (path : List String) (s : String × Object) : Prop :=
  path <+: splitString '.' s.1 ∧ path ≠ splitString '.' s.1

instance (path : List String) (s : String × Object) : Decidable (Passes path s) :=
  inferInstanceAs (Decidable (_ ∧ _))

theorem brought_append (s : String × Object) (rest : List String) :
    brought (splitString '.' s.1 ++ rest) s = (noted (splitString '.' s.1) s.2).headAt? rest := by
  rw [brought, if_pos (List.prefix_append _ _), List.drop_left]

theorem brought_self (s : String × Object) :
    brought (splitString '.' s.1) s = some (noted (splitString '.' s.1) s.2).head := by
  have h := brought_append s []
  rwa [List.append_nil] at h

theorem exists_of_brought (h : brought path s = some y) :
    ∃ rest, path = splitString '.' s.1 ++ rest ∧
      (noted (splitString '.' s.1) s.2).headAt? rest = some y := by
  unfold brought at h
  split at h
  · next habove =>
    obtain ⟨rest, rfl⟩ := habove
    rw [List.drop_left] at h
    exact ⟨rest, rfl, h⟩
  · cases h

theorem brought_of_passes (h : Passes path s) : brought path s = none := by
  refine if_neg fun habove => h.2 ?_
  exact h.1.eq_of_length_le habove.length_le

/-- What an added object has at a path is joined to what is there. -/
theorem meets_of_brought (h : root.insert cleanup s.1 s.2 = .ok merged)
    (hy : brought path s = some y) :
    Meets (root.headAt? path) (some y) (merged.headAt? path) := by
  obtain ⟨rest, rfl, hrest⟩ := exists_of_brought hy
  rw [← hrest]
  exact meets_insert h rest

/-- An added object that has nothing at a path makes a placeholder there, if the path leads to it
and nothing is there yet. -/
theorem headAt?_of_not_brought (h : root.insert cleanup s.1 s.2 = .ok merged) (hpath : path ≠ [])
    (hnone : brought path s = none) :
    merged.headAt? path = if Passes path s then
      some ((root.headAt? path).getD (unknown cleanup).head) else root.headAt? path := by
  split
  · next hpass => exact headAt?_insert_above h hpath hpass.1 hpass.2
  · next hpass =>
    by_cases hbelow : splitString '.' s.1 <+: path
    · obtain ⟨rest, rfl⟩ := hbelow
      rw [brought_append] at hnone
      have hmeets := meets_insert h rest
      rw [hnone, Meets.none_right] at hmeets
      exact hmeets
    · refine headAt?_insert_aside h hbelow fun habove => hpass ⟨habove, ?_⟩
      rintro rfl
      exact hbelow List.prefix_rfl

/-! ### Joining one head after the other -/

/-- The heads of a list are joined to a head, one after the other. -/
def Head.Joined : Head → List Head → Head → Prop
  | x, [], z => z = x
  | x, y :: ys, z => ∃ w, x.Joins y w ∧ w.Joined ys z

/-- The head that the heads of a list make, if there are any. -/
def Gathered : List Head → Option Head → Prop
  | [], z => z = none
  | x :: xs, z => ∃ y, z = some y ∧ x.Joined xs y

theorem Head.joined_append {zs : List Head} :
    x.Joined (ys ++ zs) z ↔ ∃ w, x.Joined ys w ∧ w.Joined zs z := by
  induction ys generalizing x with
  | nil => simp [Head.Joined]
  | cons y ys ih =>
    simp only [List.cons_append, Head.Joined, ih]
    constructor
    · rintro ⟨v, hv, w, hw, hz⟩
      exact ⟨w, ⟨v, hv, hw⟩, hz⟩
    · rintro ⟨w, ⟨v, hv, hw⟩, hz⟩
      exact ⟨v, hv, w, hw, hz⟩

/-- What holds of two heads and is kept where one of them absorbs the other holds of the result. -/
theorem Head.Joins.induction (h : x.Joins y z) (hx : P x) (hy : P y)
    (hlead : ∀ lead other : Head, P lead → P other → other.precedes lead = .ok false →
      P (lead.absorb other)) : P z := by
  rcases h with ⟨hfirst, rfl⟩ | ⟨hfirst, rfl⟩
  · exact hlead x y hx hy hfirst
  · exact hlead y x hy hx hfirst

theorem Head.Joined.induction (h : x.Joined ys z) (hx : P x) (hys : ∀ y ∈ ys, P y)
    (hlead : ∀ lead other : Head, P lead → P other → other.precedes lead = .ok false →
      P (lead.absorb other)) : P z := by
  induction ys generalizing x with
  | nil =>
    obtain rfl := h
    exact hx
  | cons y ys ih =>
    obtain ⟨w, hw, h⟩ := h
    rw [List.forall_mem_cons] at hys
    exact ih h (hw.induction hx hys.1 hlead) hys.2

/-- What holds of all heads that meet and is kept where one absorbs another holds of the head that
they make. -/
theorem Gathered.induction {xs : List Head} (h : Gathered xs (some z)) (hxs : ∀ x ∈ xs, P x)
    (hlead : ∀ lead other : Head, P lead → P other → other.precedes lead = .ok false →
      P (lead.absorb other)) : P z := by
  cases xs with
  | nil => cases h
  | cons x xs =>
    obtain ⟨w, hw, h⟩ := h
    cases hw
    rw [List.forall_mem_cons] at hxs
    exact h.induction hxs.1 hxs.2 hlead

/-! ### Adding where something is -/

/-- The heads of a list are put to a head, one after the other; what two heads make is what `R`
says. -/
def Head.Chain (R : Head → Head → Head → Prop) : Head → List Head → Head → Prop
  | x, [], z => z = x
  | x, y :: ys, z => ∃ w, R x y w ∧ Chain R w ys z

theorem Head.chain_joins : Chain Joins x ys z ↔ x.Joined ys z := by
  induction ys generalizing x with
  | nil => exact Iff.rfl
  | cons y ys ih => simp only [Chain, Joined, ih]

theorem Head.Chain.imp {S : Head → Head → Head → Prop} (h : Chain R x ys z)
    (hRS : ∀ x y z, R x y z → S x y z) : Chain S x ys z := by
  induction ys generalizing x with
  | nil => exact h
  | cons y ys ih =>
    obtain ⟨w, hw, h⟩ := h
    exact ⟨w, hRS x y w hw, ih h⟩

/-- What the objects of a list bring to a path makes with what is there what `R` says. -/
def Brings (R : Head → Head → Head → Prop) (cleanup : Bool) (path : List String)
    (steps : List (String × Object)) : Prop :=
  ∀ s ∈ steps, ∀ root next : Object, ∀ x y, root.insert cleanup s.1 s.2 = .ok next →
    root.headAt? path = some x → brought path s = some y →
    ∃ w, next.headAt? path = some w ∧ R x y w

theorem brings_joins (cleanup : Bool) (path : List String) (steps : List (String × Object)) :
    Brings Head.Joins cleanup path steps := by
  intro s _ root next x y hnext hx hy
  have hmeets := meets_of_brought hnext hy
  rwa [hx, Meets.some_some] at hmeets

/-- Everything that is added at the path of an object is put to it. -/
theorem chain_insertAll (h : insertAll cleanup root steps = .ok merged) (hpath : path ≠ [])
    (hbrings : Brings R cleanup path steps) (hx : root.headAt? path = some x) :
    ∃ z, merged.headAt? path = some z ∧ Head.Chain R x (steps.filterMap (brought path)) z := by
  induction steps generalizing root x with
  | nil =>
    cases h
    exact ⟨x, hx, rfl⟩
  | cons s steps ih =>
    obtain ⟨next, hnext, h⟩ := insertAll_cons.1 h
    obtain ⟨hstep, hbrings⟩ := List.forall_mem_cons.1 hbrings
    cases hs : brought path s with
    | none =>
      have hkept : next.headAt? path = some x := by
        rw [headAt?_of_not_brought hnext hpath hs, hx]
        split <;> rfl
      rw [List.filterMap_cons_none hs]
      exact ih h hbrings hkept
    | some y =>
      obtain ⟨w, hw, hR⟩ := hstep root next x y hnext hx hs
      obtain ⟨z, hz, hchain⟩ := ih h hbrings hw
      rw [List.filterMap_cons_some hs]
      exact ⟨z, hz, w, hR, hchain⟩

/-- **An object that is there** is joined with everything that is added at its path. -/
theorem joined_insertAll (h : insertAll cleanup root steps = .ok merged) (hpath : path ≠ [])
    (hx : root.headAt? path = some x) :
    ∃ z, merged.headAt? path = some z ∧ x.Joined (steps.filterMap (brought path)) z := by
  simp only [← Head.chain_joins]
  exact chain_insertAll h hpath (brings_joins cleanup path steps) hx

/-! ### Placeholders -/

/-- The added object has something at the path, or the path leads to it. -/
def touches (path : List String) (s : String × Object) : Bool :=
  (brought path s).isSome || decide (Passes path s)

/-- The first of the objects that concern the path lies below it: a placeholder is made there. -/
def made (path : List String) (steps : List (String × Object)) : Bool :=
  (steps.find? (touches path)).any fun s => decide (Passes path s)

/-- The heads that meet at a path, the placeholder first. -/
def meeting (cleanup : Bool) (path : List String) (steps : List (String × Object)) : List Head :=
  (if made path steps then [(unknown cleanup).head] else []) ++ steps.filterMap (brought path)

theorem made_cons_of_brought (h : brought path s = some y) : made path (s :: steps) = false := by
  have htouch : touches path s = true := by simp [touches, h]
  have hpass : ¬ Passes path s := fun hpass => by simp [brought_of_passes hpass] at h
  simp [made, htouch, hpass]

theorem made_cons_of_passes (h : Passes path s) : made path (s :: steps) = true := by
  have htouch : touches path s = true := by simp [touches, h]
  simp [made, htouch, h]

theorem made_cons_of_not_touches (h : touches path s = false) :
    made path (s :: steps) = made path steps := by
  simp [made, h]

/-- What comes after an object that has something at the path makes no placeholder there. -/
theorem made_append_cons_of_brought
    (h : brought path s = some y) : made path (steps ++ s :: others) = made path steps := by
  induction steps with
  | nil => exact made_cons_of_brought h
  | cons t steps ih =>
    rw [List.cons_append, made, made, List.find?_cons, List.find?_cons]
    cases touches path t with
    | true => rfl
    | false => exact ih

/-- Where a placeholder is made, an object below the path comes before all that concern the path. -/
theorem exists_of_made (h : made path steps = true) :
    ∃ before s after, steps = before ++ s :: after ∧ Passes path s ∧
      ∀ t ∈ before, touches path t = false := by
  rw [made, Option.any_eq_true] at h
  obtain ⟨s, hs, hpass⟩ := h
  obtain ⟨-, before, after, rfl, hbefore⟩ := List.find?_eq_some_iff_append.1 hs
  refine ⟨before, s, after, rfl, of_decide_eq_true hpass, fun t ht => ?_⟩
  simpa using hbefore t ht

/-- The head that the heads of a list make, if there are any and two heads make what `R` says. -/
def GatheredBy (R : Head → Head → Head → Prop) : List Head → Option Head → Prop
  | [], z => z = none
  | x :: xs, z => ∃ y, z = some y ∧ Head.Chain R x xs y

theorem gatheredBy_insertAll (h : insertAll cleanup root steps = .ok merged) (hpath : path ≠ [])
    (hbrings : Brings R cleanup path steps) (hroot : root.headAt? path = none) :
    GatheredBy R (meeting cleanup path steps) (merged.headAt? path) := by
  induction steps generalizing root with
  | nil =>
    cases h
    exact hroot
  | cons s steps ih =>
    obtain ⟨next, hnext, h⟩ := insertAll_cons.1 h
    obtain ⟨-, hbrings⟩ := List.forall_mem_cons.1 hbrings
    cases hs : brought path s with
    | some y =>
      -- the first of the heads
      have hmeets := meets_of_brought hnext hs
      rw [hroot, Meets.none_left] at hmeets
      rw [meeting, made_cons_of_brought hs, List.filterMap_cons_some hs]
      exact chain_insertAll h hpath hbrings hmeets
    | none =>
      have hstep := headAt?_of_not_brought hnext hpath hs
      by_cases hpass : Passes path s
      · -- a placeholder is made, which everything that follows is joined to
        rw [if_pos hpass, hroot, Option.getD_none] at hstep
        rw [meeting, made_cons_of_passes hpass, List.filterMap_cons_none hs]
        exact chain_insertAll h hpath hbrings hstep
      · rw [if_neg hpass, hroot] at hstep
        have htouch : touches path s = false := by simp [touches, hs, hpass]
        rw [meeting, made_cons_of_not_touches htouch, List.filterMap_cons_none hs]
        exact ih h hbrings hstep

/-- **Each path of an empty tree** gets what the heads make that meet there. -/
theorem gathered_insertAll (h : insertAll cleanup root steps = .ok merged) (hpath : path ≠ [])
    (hroot : root.headAt? path = none) :
    Gathered (meeting cleanup path steps) (merged.headAt? path) := by
  have hgathered := gatheredBy_insertAll h hpath (brings_joins cleanup path steps) hroot
  revert hgathered
  cases meeting cleanup path steps with
  | nil => exact id
  | cons x xs =>
    rintro ⟨y, hy, hchain⟩
    exact ⟨y, hy, Head.chain_joins.1 hchain⟩

/-- Something meets at a path exactly if an added object concerns it. -/
theorem meeting_eq_nil_iff {cleanup : Bool} :
    meeting cleanup path steps = [] ↔ ∀ s ∈ steps, touches path s = false := by
  induction steps with
  | nil => simp [meeting, made]
  | cons s steps ih =>
    rw [List.forall_mem_cons, ← ih]
    cases hs : brought path s with
    | some y => simp [meeting, touches, hs]
    | none =>
      by_cases hpass : Passes path s
      · simp [meeting, made_cons_of_passes hpass, touches, hpass]
      · have htouch : touches path s = false := by simp [touches, hs, hpass]
        simp [meeting, made_cons_of_not_touches htouch, List.filterMap_cons_none hs, htouch]

/-- An empty tree gets the paths that the added objects concern. -/
theorem isSome_insertAll (h : insertAll cleanup root steps = .ok merged) (hpath : path ≠ [])
    (hroot : root.headAt? path = none) :
    (merged.headAt? path).isSome = true ↔ ∃ s ∈ steps, touches path s = true := by
  have hgathered := gathered_insertAll h hpath hroot
  have hnil := @meeting_eq_nil_iff steps path cleanup
  revert hgathered hnil
  cases meeting cleanup path steps with
  | nil =>
    intro hgathered hnil
    have hnone : merged.headAt? path = none := hgathered
    rw [hnone]
    simpa using hnil.1 rfl
  | cons x xs =>
    rintro ⟨z, hz, -⟩ hnil
    rw [hz]
    simpa using hnil.not.1 (List.cons_ne_nil x xs)

/-! ### Which of two definitions leads -/

theorem head_merge {a b c : Object} (h : a.merge b = .ok c) :
    ∃ first, b.head.precedes a.head = .ok first ∧
      c.head = if first then b.head.absorb a.head else a.head.absorb b.head := by
  unfold merge at h
  obtain ⟨first, hfirst, h⟩ := Except.ok_of_bind h
  refine ⟨first, hfirst, ?_⟩
  cases first with
  | true => exact (absorbed_of_absorb h).head
  | false => exact (absorbed_of_absorb h).head

theorem headAt?_insertAt_self {fresh added : Object} {parts : List String}
    (hparts : parts ≠ []) (h : insertAt fresh added root parts = .ok merged)
    (hx : root.headAt? parts = some x) :
    ∃ first, added.head.precedes x = .ok first ∧
      merged.headAt? parts = some (if first then added.head.absorb x else x.absorb added.head) := by
  induction parts generalizing root merged with
  | nil => exact absurd rfl hparts
  | cons name parts ih =>
    rw [headAt?_cons] at hx
    obtain ⟨c, hc, hx⟩ := Option.bind_eq_some_iff.1 hx
    cases parts with
    | nil =>
      obtain rfl := Option.some.inj hx
      rw [insertAt, addChild, hc] at h
      obtain ⟨z, hz, h⟩ := Except.ok_of_bind h
      cases h
      obtain ⟨first, hfirst, hhead⟩ := head_merge hz
      refine ⟨first, hfirst, ?_⟩
      rw [headAt?_set, if_pos rfl, headAt?_nil, hhead]
    | cons next parts =>
      obtain ⟨below, hbelow, rfl⟩ := exists_of_insertAt_cons h
      rw [hc, Option.getD_some] at hbelow
      rw [headAt?_set, if_pos rfl]
      exact ih (List.cons_ne_nil _ _) hbelow hx

/-- An object leads the one that is added at its own path, unless that one precedes it. -/
theorem headAt?_insert_self (h : root.insert cleanup s.1 s.2 = .ok merged)
    (hx : root.headAt? (splitString '.' s.1) = some x)
    (hy : brought (splitString '.' s.1) s = some y) :
    ∃ first, y.precedes x = .ok first ∧ merged.headAt? (splitString '.' s.1) =
      some (if first then y.absorb x else x.absorb y) := by
  rw [brought_self] at hy
  obtain rfl := Option.some.inj hy
  exact headAt?_insertAt_self (splitString_ne_nil _ _) h hx

end Object

namespace Analysis

variable {steps : List (String × Object)} {a : Analysis}

/-- Adding objects to the tree of an analysis. -/
theorem addAll_of_insertAll {root : Object}
    (h : Object.insertAll a.cleanup a.root steps = .ok root) :
    a.addAll steps = .ok { a with root } := by
  induction steps generalizing a with
  | nil =>
    cases h
    rfl
  | cons s steps ih =>
    obtain ⟨next, hnext, h⟩ := Object.insertAll_cons.1 h
    exact addAll_cons.2 ⟨{ a with root := next }, add_eq_ok_iff.2 ⟨next, hnext, rfl⟩, ih h⟩

theorem insertAll_of_addAll {b : Analysis}
    (h : a.addAll steps = .ok b) : Object.insertAll a.cleanup a.root steps = .ok b.root := by
  induction steps generalizing a with
  | nil =>
    cases h
    rfl
  | cons s steps ih =>
    obtain ⟨c, hc, h⟩ := addAll_cons.1 h
    obtain ⟨next, hnext, rfl⟩ := add_eq_ok_iff.1 hc
    exact Object.insertAll_cons.2 ⟨next, hnext, ih h⟩

/-- Each path of an analysis that starts empty gets what the heads make that meet there. -/
theorem gathered_addAll {cleanup : Bool}
    {path : List String} (h : (empty cleanup).addAll steps = .ok a) (hpath : path ≠ []) :
    Object.Gathered (Object.meeting cleanup path steps) (a.root.headAt? path) :=
  Object.gathered_insertAll (insertAll_of_addAll h) hpath (Object.headAt?_of_childless rfl hpath)

end Analysis

end LuaDocs
