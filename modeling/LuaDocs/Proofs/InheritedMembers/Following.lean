import LuaDocs.InheritedMembers
import LuaDocs.Proofs.DepthFirst
import LuaDocs.Proofs.Index.Lookup
import LuaDocs.Proofs.Table

/-!
# Following the bases of a row

A row of the index tables names bases, and each of them is looked up where the object of the row
is described. A base counts if it is found and has a row itself. This makes a graph of the rows, in
which a row can be below itself. The rows below a given one are visited depth first, with the last
base first.

Looking up a name can fail: where all modules are in use but none is listed, there is nothing
to search. Every base that is named on the way is looked up, also one that leads to a row that has
been visited, so that a single base of this kind spoils the whole visit.
-/

namespace LuaDocs.InheritedMembers

open Index

variable {t : Index} {key base : String} {b : Pending} {row : MemberRow} {pool : Table MemberRow}
  {pending : List Pending} {visited : List (String × MemberRow)}

/-- The row `key` names the row `base` as that of a base, where its bases are looked up. -/
def HasBase (t : Index) (key base : String) : Prop :=
  ∃ row name o below, t.members.get? key = some row ∧ name ∈ row.bases ∧
    t.find? row.scope none name = .ok (some (base, o)) ∧ t.members.get? base = some below

/-- The row that the name of a base stands for. -/
def baseKey? (t : Index) (b : Pending) : Option String :=
  match lookup t b with
  | .ok (some base) => if t.members.has base then some base else none
  | _ => none

/-- The rows that a row names as its bases, the last first. -/
def baseKeys (t : Index) (key : String) : List String :=
  ((t.members.get? key).elim [] pendingOf).filterMap (baseKey? t)

theorem baseKeys_of_get? (h : t.members.get? key = some row) :
    baseKeys t key = (pendingOf row).filterMap (baseKey? t) := by
  rw [baseKeys, h, Option.elim_some]

theorem lookup_eq_ok_some : lookup t b = .ok (some base) ↔
    ∃ o, t.find? b.2 none b.1 = .ok (some (base, o)) := by
  unfold lookup
  cases t.find? b.2 none b.1 with
  | error e => simp [Except.map]
  | ok found => simp [Except.map]

theorem baseKey?_eq_some : baseKey? t b = some base ↔
    lookup t b = .ok (some base) ∧ ∃ row, t.members.get? base = some row := by
  unfold baseKey?
  cases lookup t b with
  | error e => simp
  | ok found =>
    cases found with
    | none => simp
    | some other =>
      rw [← Option.isSome_iff_exists, ← Table.has]
      by_cases hhas : t.members.has other <;> simp [hhas]
      · rintro rfl
        exact hhas
      · rintro rfl
        simpa using hhas

theorem mem_pendingOf : b ∈ pendingOf row ↔ b.1 ∈ row.bases ∧ b.2 = row.scope := by
  obtain ⟨name, scope⟩ := b
  simp [pendingOf, eq_comm]

theorem mem_baseKeys : base ∈ baseKeys t key ↔ HasBase t key base := by
  unfold HasBase
  cases h : t.members.get? key with
  | none => simp [baseKeys, h]
  | some row =>
    rw [baseKeys_of_get? h, List.mem_filterMap]
    constructor
    · rintro ⟨⟨name, scope⟩, hb, hbase⟩
      obtain ⟨hname, rfl⟩ := mem_pendingOf.1 hb
      obtain ⟨hlook, below, hbelow⟩ := baseKey?_eq_some.1 hbase
      obtain ⟨o, ho⟩ := lookup_eq_ok_some.1 hlook
      exact ⟨row, name, o, below, rfl, hname, ho, hbelow⟩
    · rintro ⟨_, name, o, below, hrow, hname, ho, hbelow⟩
      cases hrow
      exact ⟨(name, row.scope), mem_pendingOf.2 ⟨hname, rfl⟩,
        baseKey?_eq_some.2 ⟨lookup_eq_ok_some.2 ⟨o, ho⟩, below, hbelow⟩⟩

theorem hasBase_of_mem (hrow : t.members.get? key = some row) (hb : b ∈ pendingOf row)
    (hbase : baseKey? t b = some base) : HasBase t key base := by
  rw [← mem_baseKeys, baseKeys_of_get? hrow]
  exact List.mem_filterMap.2 ⟨b, hb, hbase⟩

/-! ### Visiting rows -/

/-- The pool has the rows that have not been seen. -/
def Leaves (t : Index) (seen : List String) (pool : Table MemberRow) : Prop :=
  ∀ key, pool.get? key = if key ∈ seen then none else t.members.get? key

theorem leaves_members (t : Index) : Leaves t [] t.members := fun _ => rfl

theorem Leaves.drop {seen : List String} (h : Leaves t seen pool) (base : String) :
    Leaves t (base :: seen) (dropRow pool base) := by
  intro key
  rw [dropRow, Table.get?_erase, h key]
  by_cases heq : base = key
  · simp [heq]
  · simp [heq, Ne.symm heq]

theorem Leaves.get? {seen : List String} (h : Leaves t seen pool)
    (hrow : pool.get? key = some row) : key ∉ seen ∧ t.members.get? key = some row := by
  rw [h key] at hrow
  split at hrow
  · cases hrow
  · next hnew => exact ⟨hnew, hrow⟩

theorem lookup_of_baseRow? (h : baseRow? (lookup t) pool b = .ok (some (base, row))) :
    lookup t b = .ok (some base) := by
  obtain ⟨found, hfound, h⟩ := Except.ok_of_map h
  obtain ⟨name, rfl, h⟩ := Option.bind_eq_some_iff.1 h
  obtain ⟨_, -, heq⟩ := Option.map_eq_some_iff.1 h
  rw [hfound, (Prod.mk.inj heq).1]

/-- A base that leads to a row in the pool stands for one that has not been seen. -/
theorem Leaves.reaches {seen : List String} (h : Leaves t seen pool)
    (hrow : baseRow? (lookup t) pool b = .ok (some (base, row))) :
    baseKey? t b = some base ∧ base ∉ seen ∧ t.members.get? base = some row := by
  obtain ⟨hnew, hmember⟩ := h.get? (get?_of_baseRow? hrow)
  exact ⟨baseKey?_eq_some.2 ⟨lookup_of_baseRow? hrow, row, hmember⟩, hnew, hmember⟩

/-- A base that leads to nothing in the pool stands for nothing, or for what has been seen. -/
theorem Leaves.mem_seen {seen : List String} (h : Leaves t seen pool)
    (hnone : baseRow? (lookup t) pool b = .ok none) (hbase : baseKey? t b = some base) :
    base ∈ seen := by
  obtain ⟨hlook, row, hrow⟩ := baseKey?_eq_some.1 hbase
  by_contra hnew
  rw [baseRow?, hlook] at hnone
  simp [Except.map, h base, hnew, hrow] at hnone

/-- **Bases are followed depth first.** -/
theorem depthFirst_follow (seen : List String) (hpool : Leaves t seen pool)
    (h : follow (lookup t) pool pending = .ok visited) :
    DepthFirst (baseKeys t) seen (pending.filterMap (baseKey? t)) (visited.map Prod.fst) := by
  fun_induction follow (lookup t) pool pending generalizing seen visited with
  | case1 =>
    cases h
    exact .done seen
  | case2 => cases h
  | case3 pool b rest hnone ih =>
    exact .skip_name (fun base hbase => hpool.mem_seen hnone hbase) (ih seen hpool h)
  | case4 pool b rest base row hrow ih =>
    obtain ⟨more, hmore, rfl⟩ := Except.ok_of_map h
    obtain ⟨hbase, hnew, hmember⟩ := hpool.reaches hrow
    exact .push_name hbase hnew (baseKeys_of_get? hmember) (ih _ (hpool.drop base) hmore)

/-- What is visited are rows of the pool. -/
theorem get?_of_mem_follow (h : follow (lookup t) pool pending = .ok visited)
    (hmem : (key, row) ∈ visited) : pool.get? key = some row := by
  fun_induction follow (lookup t) pool pending generalizing visited with
  | case1 =>
    cases h
    cases hmem
  | case2 => cases h
  | case3 pool b rest hnone ih => exact ih h hmem
  | case4 pool b rest base row' hrow ih =>
    obtain ⟨more, hmore, rfl⟩ := Except.ok_of_map h
    rcases List.mem_cons.1 hmem with heq | hmem
    · obtain ⟨rfl, rfl⟩ := Prod.mk.inj heq
      exact get?_of_baseRow? hrow
    · have hleft := ih hmore hmem
      rw [dropRow, Table.get?_erase] at hleft
      split at hleft
      · cases hleft
      · exact hleft

/-! ### Names that cannot be looked up -/

/-- The base is named by one of the pending ones, or by a row that is reached from them. -/
def NamedFrom (t : Index) (pending : List Pending) (b : Pending) : Prop :=
  b ∈ pending ∨ ∃ a ∈ pending, ∃ first key row, baseKey? t a = some first ∧
    Relation.ReflTransGen (HasBase t) first key ∧ t.members.get? key = some row ∧ b ∈ pendingOf row

theorem NamedFrom.mono {more : List Pending} (h : NamedFrom t pending b) (hsub : pending ⊆ more) :
    NamedFrom t more b := by
  rcases h with hb | ⟨a, ha, hreach⟩
  · exact .inl (hsub hb)
  · exact .inr ⟨a, hsub ha, hreach⟩

/-- What a row names is named from the base that stands for it. -/
theorem namedFrom_of_append {a : Pending} {rest : List Pending} (ha : baseKey? t a = some base)
    (hrow : t.members.get? base = some row) (h : NamedFrom t (pendingOf row ++ rest) b) :
    NamedFrom t (a :: rest) b := by
  rcases h with hb | ⟨c, hc, first, key, below, hfirst, hreach, hbelow, hb⟩
  · rcases List.mem_append.1 hb with hb | hb
    · exact .inr ⟨a, List.mem_cons_self, base, base, row, ha, .refl, hrow, hb⟩
    · exact .inl (List.mem_cons_of_mem _ hb)
  · rcases List.mem_append.1 hc with hc | hc
    · exact .inr ⟨a, List.mem_cons_self, base, key, below, ha,
        .head (hasBase_of_mem hrow hc hfirst) hreach, hbelow, hb⟩
    · exact .inr ⟨c, List.mem_cons_of_mem _ hc, first, key, below, hfirst, hreach, hbelow, hb⟩

/-- What is named from the bases of a row is named by a row that is reached from it. -/
theorem NamedFrom.exists_reached (hrow : t.members.get? key = some row)
    (h : NamedFrom t (pendingOf row) b) : ∃ other below,
      Relation.ReflTransGen (HasBase t) key other ∧ t.members.get? other = some below ∧
        b ∈ pendingOf below := by
  rcases h with hb | ⟨a, ha, first, other, below, hfirst, hreach, hbelow, hb⟩
  · exact ⟨key, row, .refl, hrow, hb⟩
  · exact ⟨other, below, .head (hasBase_of_mem hrow ha hfirst) hreach, hbelow, hb⟩

/-- A base that cannot be looked up is named on the way if the bases cannot be followed. -/
theorem namedFrom_of_follow_error {e : LookupError} (seen : List String)
    (hpool : Leaves t seen pool) (h : follow (lookup t) pool pending = .error e) :
    ∃ b, NamedFrom t pending b ∧ lookup t b = .error e := by
  fun_induction follow (lookup t) pool pending generalizing seen with
  | case1 => cases h
  | case2 pool b rest e' herror =>
    cases h
    refine ⟨b, .inl List.mem_cons_self, ?_⟩
    unfold baseRow? at herror
    cases hlook : lookup t b with
    | error e => rfl
    | ok found =>
      rw [hlook] at herror
      cases herror
  | case3 pool b rest hnone ih =>
    obtain ⟨c, hc, hlook⟩ := ih seen hpool h
    exact ⟨c, hc.mono (List.subset_cons_self _ _), hlook⟩
  | case4 pool b rest base row hrow ih =>
    obtain ⟨hbase, -, hmember⟩ := hpool.reaches hrow
    cases hmore : follow (lookup t) (dropRow pool base) (pendingOf row ++ rest) with
    | ok more =>
      rw [hmore] at h
      cases h
    | error e' =>
      rw [hmore] at h
      cases h
      obtain ⟨c, hc, hlook⟩ := ih _ (hpool.drop base) hmore
      exact ⟨c, namedFrom_of_append hbase hmember hc, hlook⟩

/-- All that the pending bases and the visited rows name has been looked up. -/
theorem exists_lookup_of_follow (h : follow (lookup t) pool pending = .ok visited)
    (hb : b ∈ pending ∨ ∃ v ∈ visited, b ∈ pendingOf v.2) : ∃ found, lookup t b = .ok found := by
  fun_induction follow (lookup t) pool pending generalizing visited with
  | case1 =>
    cases h
    simp at hb
  | case2 => cases h
  | case3 pool a rest hnone ih =>
    rcases hb with hb | hb
    · rcases List.mem_cons.1 hb with rfl | hb
      · obtain ⟨found, hfound, -⟩ := Except.ok_of_map hnone
        exact ⟨found, hfound⟩
      · exact ih h (.inl hb)
    · exact ih h (.inr hb)
  | case4 pool a rest base row hrow ih =>
    obtain ⟨more, hmore, rfl⟩ := Except.ok_of_map h
    rcases hb with hb | ⟨v, hv, hb⟩
    · rcases List.mem_cons.1 hb with rfl | hb
      · exact ⟨_, lookup_of_baseRow? hrow⟩
      · exact ih hmore (.inl (List.mem_append_right _ hb))
    · rcases List.mem_cons.1 hv with rfl | hv
      · exact ih hmore (.inl (List.mem_append_left _ hb))
      · exact ih hmore (.inr ⟨v, hv, hb⟩)

/-! ### The rows below a row -/

/-- The rows below a row are visited depth first. -/
theorem depthFirst_of_get? (hrow : t.members.get? key = some row)
    (h : follow (lookup t) t.members (pendingOf row) = .ok visited) :
    DepthFirst (baseKeys t) [] (baseKeys t key) (visited.map Prod.fst) := by
  rw [baseKeys_of_get? hrow]
  exact depthFirst_follow [] (leaves_members t) h

theorem mem_iff_hasBase {order : List String}
    (h : DepthFirst (baseKeys t) [] (baseKeys t key) order) :
    base ∈ order ↔ Relation.TransGen (HasBase t) key base :=
  DepthFirst.mem_iff_transGen (fun _ _ => mem_baseKeys) h

/-- No row on the way from `target` has a base that cannot be looked up, because all modules are in
use there and none is listed. -/
def Followable (t : Index) (target : String) : Prop :=
  ∀ key row, Relation.ReflTransGen (HasBase t) target key → t.members.get? key = some row →
    row.scope.usedModules = some .all → ∀ name ∈ row.bases, referredName name = ""

theorem exists_lookup_iff : (∃ found, lookup t b = .ok found) ↔
    (b.2.usedModules = some .all → referredName b.1 = "") := by
  rw [← exists_find?_iff t (Option.some_ne_none "mod").symm]
  unfold lookup
  cases t.find? b.2 none b.1 with
  | error e => simp [Except.map]
  | ok found => simp [Except.map]

/-- **When the bases of a row can be followed.** -/
theorem exists_follow_iff {target : String} (hrow : t.members.get? target = some row) :
    (∃ visited, follow (lookup t) t.members (pendingOf row) = .ok visited) ↔
      Followable t target := by
  constructor
  · rintro ⟨visited, h⟩ key below hreach hbelow hall name hname
    have hnamed : (name, below.scope) ∈ pendingOf row ∨
        ∃ v ∈ visited, (name, below.scope) ∈ pendingOf v.2 := by
      rcases Relation.reflTransGen_iff_eq_or_transGen.1 hreach with rfl | hreach
      · obtain rfl : below = row := Option.some.inj (hbelow.symm.trans hrow)
        exact .inl (mem_pendingOf.2 ⟨hname, rfl⟩)
      · obtain ⟨v, hv, rfl⟩ := List.mem_map.1
          ((mem_iff_hasBase (depthFirst_of_get? hrow h)).2 hreach)
        have hvisited := get?_of_mem_follow h hv
        have hsame : below = v.2 := Option.some.inj (hbelow.symm.trans hvisited)
        exact .inr ⟨v, hv, mem_pendingOf.2 ⟨hsame ▸ hname, congrArg MemberRow.scope hsame⟩⟩
    have hlookup := exists_lookup_iff.1 (exists_lookup_of_follow h hnamed)
    exact hlookup hall
  · intro h
    cases hfollow : follow (lookup t) t.members (pendingOf row) with
    | ok visited => exact ⟨visited, rfl⟩
    | error e =>
      obtain ⟨b, hnamed, hlook⟩ := namedFrom_of_follow_error [] (leaves_members t) hfollow
      obtain ⟨key, below, hreach, hbelow, hb⟩ := hnamed.exists_reached hrow
      obtain ⟨hname, hscope⟩ := mem_pendingOf.1 hb
      obtain ⟨found, hfound⟩ := exists_lookup_iff.2 fun hall =>
        h key below hreach hbelow (hscope ▸ hall) b.1 hname
      rw [hfound] at hlook
      cases hlook

end LuaDocs.InheritedMembers
