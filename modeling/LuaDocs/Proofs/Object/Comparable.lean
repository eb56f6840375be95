import LuaDocs.Proofs.Object.Gathering

/-!
# Merging that cannot fail

Two definitions cannot be merged if they are alike in all that comes before the line and only one of
them has a line. Merging two trees merges the definitions at each path that both have, so it
succeeds if the heads at all these paths can be compared. That holds of trees in which no object has
two children of one name, and adding and merging makes only such trees.
-/

namespace LuaDocs.Object

open Text

/-! ### Comparable heads -/

namespace Head

/-- It can be decided whether the definition `x` comes before `y`. -/
def Comparable (x y : Head) : Prop := ∃ first, x.precedes y = .ok first

variable {x y : Head}

theorem Comparable.symm (h : x.Comparable y) : y.Comparable x := by
  obtain ⟨first, hfirst⟩ := h
  cases first with
  | true => exact ⟨false, precedes_asymm hfirst⟩
  | false =>
    unfold precedes at hfirst
    unfold Comparable precedes
    rw [bne_comm, @bne_comm _ _ _ y.form.priority]
    split at hfirst
    · next hforeign => exact ⟨_, if_pos hforeign⟩
    · next hforeign =>
      rw [if_neg hforeign]
      split at hfirst
      · next hpriority => exact ⟨_, if_pos hpriority⟩
      · next hpriority =>
        rw [if_neg hpriority]
        revert hfirst
        cases x.details.line <;> cases y.details.line <;> simp [lineBefore]

theorem comparable_of_priority_ne (h : x.form.priority ≠ y.form.priority) : x.Comparable y := by
  unfold Comparable precedes
  by_cases hforeign : x.details.foreign = y.details.foreign
  · simp [hforeign, h]
  · simp [hforeign]

theorem comparable_of_line_eq_none (hx : x.details.line = none) (hy : y.details.line = none) :
    x.Comparable y := by
  unfold Comparable precedes
  rw [hx, hy]
  split
  · exact ⟨_, rfl⟩
  · split
    · exact ⟨_, rfl⟩
    · exact ⟨false, rfl⟩

end Head

/-! ### Trees without repeated names -/

/-- No object of the tree has two children of one name. -/
def Keyed (o : Object) : Prop := ∀ path x, o.at? path = some x → Table.Keyed x.children

variable {o a b c root added merged : Object} {name : String}

theorem keyed_iff : o.Keyed ↔
    Table.Keyed o.children ∧ ∀ name c, o.child? name = some c → c.Keyed := by
  constructor
  · intro h
    refine ⟨h [] o rfl, fun name c hc path x hx => h (name :: path) x ?_⟩
    rw [at?, hc]
    exact hx
  · rintro ⟨hself, hchild⟩ path x hx
    cases path with
    | nil =>
      cases hx
      exact hself
    | cons name rest =>
      rw [at?] at hx
      cases hc : o.child? name with
      | none => simp [hc] at hx
      | some c =>
        rw [hc] at hx
        exact hchild name c hc rest x hx

theorem Keyed.table (h : o.Keyed) : Table.Keyed o.children := (keyed_iff.1 h).1

theorem Keyed.child (h : o.Keyed) (hc : o.child? name = some c) : c.Keyed :=
  (keyed_iff.1 h).2 name c hc

theorem Keyed.at? {path : List String} (h : o.Keyed) (hc : o.at? path = some c) : c.Keyed := by
  induction path generalizing o with
  | nil =>
    cases hc
    exact h
  | cons name rest ih =>
    rw [Object.at?] at hc
    cases hd : o.child? name with
    | none => simp [hd] at hc
    | some d =>
      rw [hd] at hc
      exact ih (h.child hd) hc

theorem keyed_of_childless (h : o.children = []) : o.Keyed := by
  refine keyed_iff.2 ⟨h ▸ Table.keyed_nil, fun name c hc => ?_⟩
  rw [child?, h] at hc
  cases hc

theorem keyed_singleton {details : Details} {form : Form} (h : c.Keyed) :
    (⟨details, form, [(name, c)]⟩ : Object).Keyed := by
  refine keyed_iff.2 ⟨List.nodup_singleton _, fun _ d hd => ?_⟩
  obtain ⟨-, rfl⟩ := Prod.mk.inj (List.mem_singleton.1 (Table.mem_of_get? hd))
  exact h

theorem keyed_setChild (ho : o.Keyed) (hc : c.Keyed) (name : String) :
    { o with children := Table.set o.children name c }.Keyed := by
  refine keyed_iff.2 ⟨Table.keyed_set ho.table name c, fun other d hd => ?_⟩
  rw [child?, Table.get?_set] at hd
  split at hd
  · cases hd
    exact hc
  · exact ho.child hd

theorem keyed_children_absorb {lead other : Object} (hlead : Table.Keyed lead.children)
    (hother : Table.Keyed other.children) (h : lead.absorb other = .ok merged) :
    Table.Keyed merged.children := by
  rw [absorb_eq] at h
  obtain ⟨common, hcommon, h⟩ := Except.ok_of_bind h
  cases h
  have hkeys : Table.keys common = Table.keys lead.children :=
    Table.keys_of_mapM fst_of_absorbChild hcommon
  have hkept : Table.Keyed common := by rwa [Table.Keyed, hkeys]
  rw [Table.Keyed, Table.keys, List.map_append]
  refine List.Nodup.append hkept (Table.keyed_filter hother _) ?_
  -- what was added has a name that is new
  rintro name hold hnew
  obtain ⟨row, hrow, rfl⟩ := List.mem_map.1 hnew
  have hhas := (List.mem_filter.1 hrow).2
  rw [Bool.not_eq_true', Table.has, Option.isSome_eq_false_iff, Option.isNone_iff_eq_none,
    Table.get?_eq_none_iff, ← hkeys] at hhas
  exact hhas hold

/-- The children of a merged object: those that only one of the two has, and the merged ones. -/
theorem keyed_absorb {lead other : Object} (hlead : lead.Keyed) (hother : other.Keyed)
    (hmerge : ∀ name c d z, lead.child? name = some c → other.child? name = some d →
      c.merge d = .ok z → z.Keyed) (h : lead.absorb other = .ok merged) : merged.Keyed := by
  refine keyed_iff.2 ⟨keyed_children_absorb hlead.table hother.table h, fun name z hz => ?_⟩
  have habs := absorbed_of_absorb h
  cases hc : lead.child? name with
  | none => exact hother.child (habs.added name hc ▸ hz)
  | some c =>
    cases hd : other.child? name with
    | none =>
      rw [habs.kept name c hc hd] at hz
      cases hz
      exact hlead.child hc
    | some d =>
      obtain ⟨w, hw, hmerged⟩ := habs.common name c d hc hd
      rw [hmerged] at hz
      cases hz
      exact hmerge name c d _ hc hd hw

theorem sizeOf_lt_of_child? (h : o.child? name = some c) : sizeOf c < sizeOf o :=
  sizeOf_lt_of_mem (Table.mem_of_get? h)

/-- Merging gives no object two children of one name. -/
theorem keyed_merge (ha : a.Keyed) (hb : b.Keyed) (h : a.merge b = .ok c) : c.Keyed := by
  induction hn : sizeOf a + sizeOf b using Nat.strongRecOn generalizing a b c with
  | ind n ih =>
    unfold merge at h
    obtain ⟨first, -, h⟩ := Except.ok_of_bind h
    cases first with
    | true =>
      refine keyed_absorb hb ha (fun name c d z hc hd hz => ?_) h
      have hsize := sizeOf_lt_of_child? hc
      have hsize' := sizeOf_lt_of_child? hd
      exact ih _ (by omega) (hb.child hc) (ha.child hd) hz rfl
    | false =>
      refine keyed_absorb ha hb (fun name c d z hc hd hz => ?_) h
      have hsize := sizeOf_lt_of_child? hc
      have hsize' := sizeOf_lt_of_child? hd
      exact ih _ (by omega) (ha.child hc) (hb.child hd) hz rfl

/-- What adding a child writes: the child, merged with the one of its name if there is one. -/
theorem exists_of_addChild (h : root.addChild name added = .ok merged) :
    ∃ z, merged = { root with children := Table.set root.children name z } ∧
      (root.child? name = none ∧ z = added ∨
        ∃ known, root.child? name = some known ∧ known.merge added = .ok z) := by
  unfold addChild at h
  split at h
  · next hnone =>
    cases h
    exact ⟨added, by rw [Table.set_of_get?_eq_none hnone], .inl ⟨hnone, rfl⟩⟩
  · next known hknown =>
    obtain ⟨z, hz, h⟩ := Except.ok_of_bind h
    cases h
    exact ⟨z, rfl, .inr ⟨known, hknown, hz⟩⟩

theorem keyed_addChild (hroot : root.Keyed) (hadded : added.Keyed)
    (h : root.addChild name added = .ok merged) : merged.Keyed := by
  obtain ⟨z, rfl, ⟨-, rfl⟩ | ⟨known, hknown, hz⟩⟩ := exists_of_addChild h
  · exact keyed_setChild hroot hadded name
  · exact keyed_setChild hroot (keyed_merge (hroot.child hknown) hadded hz) name

theorem keyed_insertAt {fresh : Object} {parts : List String} (hfresh : fresh.Keyed)
    (hroot : root.Keyed) (hadded : added.Keyed)
    (h : insertAt fresh added root parts = .ok merged) : merged.Keyed := by
  induction parts generalizing root merged with
  | nil =>
    cases h
    exact hroot
  | cons name parts ih =>
    cases parts with
    | nil => exact keyed_addChild hroot hadded h
    | cons next parts =>
      obtain ⟨below, hbelow, rfl⟩ := exists_of_insertAt_cons h
      refine keyed_setChild hroot (ih ?_ hbelow) name
      cases hc : root.child? name with
      | none => exact hfresh
      | some c => exact hroot.child hc

theorem keyed_noted (h : o.Keyed) (parts : List String) : (noted parts o).Keyed := by
  unfold noted
  split
  · obtain ⟨htable, hchild⟩ := keyed_iff.1 h
    exact keyed_iff.2 ⟨htable, hchild⟩
  · exact h

/-- Adding an object gives no object two children of one name. -/
theorem keyed_insert {cleanup : Bool} {path : String} (hroot : root.Keyed) (hadded : added.Keyed)
    (h : root.insert cleanup path added = .ok merged) : merged.Keyed :=
  keyed_insertAt (keyed_of_childless rfl) hroot (keyed_noted hadded _) h

/-! ### Merging comparable trees -/

theorem exists_absorb {lead other : Object}
    (h : ∀ row ∈ lead.children, ∀ d, other.child? row.1 = some d → ∃ z, row.2.merge d = .ok z) :
    ∃ merged, lead.absorb other = .ok merged := by
  have hrows : ∀ row ∈ lead.children, ∃ row', absorbChild other row = .ok row' := by
    intro row hrow
    unfold absorbChild
    cases hd : Table.get? other.children row.1 with
    | none => exact ⟨row, rfl⟩
    | some d =>
      obtain ⟨z, hz⟩ := h row hrow d hd
      exact ⟨(row.1, z), Except.bind_of_ok hz _⟩
  obtain ⟨common, hcommon⟩ := Except.exists_mapM hrows
  rw [absorb_eq, Except.bind_of_ok hcommon]
  exact ⟨_, rfl⟩

/-- **Merging succeeds** if the heads of the two trees can be compared wherever both have one. -/
theorem exists_merge (ha : a.Keyed) (hb : b.Keyed)
    (h : ∀ path x y, a.headAt? path = some x → b.headAt? path = some y → x.Comparable y) :
    ∃ c, a.merge b = .ok c := by
  induction hn : sizeOf a + sizeOf b using Nat.strongRecOn generalizing a b with
  | ind n ih =>
    -- children of one name are smaller and can be compared
    have hchild : ∀ name c d, a.child? name = some c → b.child? name = some d →
        (∃ z, c.merge d = .ok z) ∧ ∃ z, d.merge c = .ok z := by
      intro name c d hc hd
      have hsize := sizeOf_lt_of_child? hc
      have hsize' := sizeOf_lt_of_child? hd
      have hbelow : ∀ path x y, c.headAt? path = some x → d.headAt? path = some y →
          x.Comparable y := by
        intro path x y hx hy
        refine h (name :: path) x y ?_ ?_
        · rw [headAt?_cons, hc]
          exact hx
        · rw [headAt?_cons, hd]
          exact hy
      exact ⟨ih _ (by omega) (ha.child hc) (hb.child hd) hbelow rfl,
        ih _ (by omega) (hb.child hd) (ha.child hc)
          (fun path x y hx hy => (hbelow path y x hy hx).symm) rfl⟩
    obtain ⟨first, hfirst⟩ := (h [] a.head b.head rfl rfl).symm
    unfold merge
    rw [precedes_eq, Except.bind_of_ok hfirst]
    cases first with
    | true =>
      refine exists_absorb fun row hrow d hd => ?_
      exact (hchild row.1 d row.2 hd (Table.get?_of_mem hb.table hrow)).2
    | false =>
      refine exists_absorb fun row hrow d hd => ?_
      exact (hchild row.1 row.2 d (Table.get?_of_mem ha.table hrow) hd).1

theorem exists_insertAt {fresh : Object} {parts : List String} (hfresh : fresh.children = [])
    (h : ∀ known, root.at? parts = some known → ∃ z, known.merge added = .ok z) :
    ∃ merged, insertAt fresh added root parts = .ok merged := by
  induction parts generalizing root with
  | nil => exact ⟨root, rfl⟩
  | cons name parts ih =>
    cases parts with
    | nil =>
      rw [insertAt, addChild]
      cases hc : root.child? name with
      | none => exact ⟨_, rfl⟩
      | some known =>
        obtain ⟨z, hz⟩ := h known (by rw [at?, hc]; rfl)
        dsimp only
        rw [Except.bind_of_ok hz]
        exact ⟨_, rfl⟩
    | cons next parts =>
      have hbelow : ∃ below, insertAt fresh added ((root.child? name).getD fresh) (next :: parts) =
          .ok below := by
        refine ih fun known hknown => h known ?_
        cases hc : root.child? name with
        | none =>
          rw [hc, Option.getD_none, at?, child?, hfresh] at hknown
          cases hknown
        | some c =>
          rw [at?, hc]
          rwa [hc] at hknown
      obtain ⟨below, hbelow⟩ := hbelow
      rw [insertAt]
      · rw [Except.bind_of_ok hbelow]
        exact ⟨_, rfl⟩
      · exact List.cons_ne_nil next parts

/-- **Adding an object succeeds** if it can be compared with what is there. -/
theorem exists_insert {cleanup : Bool} {s : String × Object} (hroot : root.Keyed)
    (hadded : s.2.Keyed)
    (h : ∀ path x y, root.headAt? path = some x → brought path s = some y → x.Comparable y) :
    ∃ merged, root.insert cleanup s.1 s.2 = .ok merged := by
  refine exists_insertAt rfl fun known hknown => ?_
  refine exists_merge (hroot.at? hknown) (keyed_noted hadded _) fun path x y hx hy => ?_
  refine h (splitString '.' s.1 ++ path) x y ?_ ?_
  · rw [headAt?_append, hknown]
    exact hx
  · rw [brought_append]
    exact hy

end LuaDocs.Object
