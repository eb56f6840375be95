import LuaDocs.Proofs.InheritedMembers.Following
import Mathlib.Data.List.Induction

/-!
# The members that a class inherits

The entries of the visited rows are gone through in order. A member is listed under the first row
that has one of its name, unless the class has one itself.
-/

namespace LuaDocs.InheritedMembers

open Index

variable {t : Index} {target key name : String} {row : MemberRow} {own : List String}
  {xs : List (String × Entry)} {found : List Inherited}

/-- The row `key` has an entry whose last component is `name`. -/
def HasMember (t : Index) (key name : String) : Prop :=
  ∃ row, t.members.get? key = some row ∧ ∃ e ∈ row.entries, ownName e.fullname = name

/-! ### Keeping the first member of a name -/

/-- The entry has the given name. -/
def isNamed (name : String) (x : String × Entry) : Bool := ownName x.2.fullname == name

/-- Of the entries `xs`, each with its row, `found` has the first of each name that is not among
`own`. -/
structure Collects (own : List String) (xs : List (String × Entry)) (found : List Inherited) :
    Prop where
  once : (found.map Inherited.name).Nodup
  listed : ∀ name, name ∈ found.map Inherited.name ↔ name ∉ own ∧ ∃ x ∈ xs, isNamed name x = true
  first : ∀ m ∈ found, ∃ e, xs.find? (isNamed m.name) = some (m.base, e) ∧ e.fullname = m.fullname

theorem add_of_known {base : String} {e : Entry}
    (h : ownName e.fullname ∈ own ∨ ownName e.fullname ∈ found.map Inherited.name) :
    add own found base e = found := by
  rw [add, if_pos]
  simpa using h

theorem add_of_new {base : String} {e : Entry} (hown : ownName e.fullname ∉ own)
    (hfound : ownName e.fullname ∉ found.map Inherited.name) :
    add own found base e = found ++ [⟨ownName e.fullname, base, e.fullname⟩] := by
  rw [add, if_neg]
  simpa using ⟨hown, by simpa using hfound⟩

theorem isNamed_iff {x : String × Entry} : isNamed name x = true ↔ ownName x.2.fullname = name :=
  beq_iff_eq

/-- What has been found first is not found later. -/
theorem find?_concat_of_some {x y : String × Entry}
    (h : xs.find? (isNamed name) = some y) : (xs ++ [x]).find? (isNamed name) = some y := by
  rw [List.find?_append, h, Option.some_or]

/-- One more entry counts if its name is new. -/
theorem Collects.concat (h : Collects own xs found) (base : String) (e : Entry) :
    Collects own (xs ++ [(base, e)]) (add own found base e) := by
  have hnamed : ∀ name, (∃ x ∈ xs ++ [(base, e)], isNamed name x = true) ↔
      (∃ x ∈ xs, isNamed name x = true) ∨ ownName e.fullname = name := by
    intro name
    simp [or_and_right, exists_or, isNamed_iff]
  have hfirst : ∀ m ∈ found, ∃ e', (xs ++ [(base, e)]).find? (isNamed m.name) =
      some (m.base, e') ∧ e'.fullname = m.fullname := by
    intro m hm
    obtain ⟨e', he', hname⟩ := h.first m hm
    exact ⟨e', find?_concat_of_some he', hname⟩
  by_cases hown : ownName e.fullname ∈ own
  · rw [add_of_known (.inl hown)]
    refine ⟨h.once, fun name => ?_, hfirst⟩
    rw [h.listed, hnamed]
    refine and_congr_right fun hnot => (or_iff_left ?_).symm
    rintro rfl
    exact hnot hown
  by_cases hfound : ownName e.fullname ∈ found.map Inherited.name
  · rw [add_of_known (.inr hfound)]
    refine ⟨h.once, fun name => ?_, hfirst⟩
    rw [h.listed, hnamed]
    refine and_congr_right fun _ => (or_iff_left_of_imp ?_).symm
    rintro rfl
    exact ((h.listed _).1 hfound).2
  · rw [add_of_new hown hfound]
    have hnone : xs.find? (isNamed (ownName e.fullname)) = none := by
      rw [List.find?_eq_none]
      intro x hx hname
      exact hfound ((h.listed _).2 ⟨hown, x, hx, hname⟩)
    refine ⟨?_, fun name => ?_, fun m hm => ?_⟩
    · rw [List.map_append]
      exact h.once.append (List.nodup_singleton _) (by simpa using hfound)
    · rw [List.map_append, List.mem_append, h.listed, hnamed, List.map_singleton,
        List.mem_singleton, and_or_left]
      refine or_congr_right ⟨?_, fun hname => hname.2.symm⟩
      rintro rfl
      exact ⟨hown, rfl⟩
    · rcases List.mem_append.1 hm with hm | hm
      · exact hfirst m hm
      · obtain rfl := List.mem_singleton.1 hm
        refine ⟨e, ?_, rfl⟩
        rw [List.find?_append, hnone, Option.none_or]
        exact List.find?_cons_of_pos (isNamed_iff.2 rfl)

theorem collects_foldl (own : List String) (xs : List (String × Entry)) :
    Collects own xs (xs.foldl (fun found x => add own found x.1 x.2) []) := by
  induction xs using List.reverseRecOn with
  | nil => exact ⟨List.nodup_nil, by simp, List.forall_mem_nil _⟩
  | append_singleton xs x ih =>
    rw [List.foldl_append]
    exact ih.concat x.1 x.2

/-! ### What is inherited -/

variable {visited : List (String × MemberRow)}

/-- The entries of rows, each with its row. -/
def rowEntries (rows : List (String × MemberRow)) : List (String × Entry) :=
  rows.flatMap fun v => v.2.entries.map fun e => (v.1, e)

theorem collect_eq (own : List String) (rows : List (String × MemberRow)) :
    collect own rows = (rowEntries rows).foldl (fun found x => add own found x.1 x.2) [] := by
  rw [collect, rowEntries, List.foldl_flatMap]
  simp only [List.foldl_map]

/-- What is right about a list of inherited members. -/
structure Inherits (t : Index) (target : String) (visited : List String)
    (found : List Inherited) : Prop where
  /-- Bases are visited depth first, the last base of a row first. -/
  order : DepthFirst (baseKeys t) [] (baseKeys t target) visited
  reached : ∀ base, base ∈ visited ↔ Relation.TransGen (HasBase t) target base
  /-- A member is listed if a base has it and the class does not. -/
  listed : ∀ name, name ∈ found.map Inherited.name ↔
    (∃ base, Relation.TransGen (HasBase t) target base ∧ HasMember t base name) ∧
      ¬ HasMember t target name
  once : (found.map Inherited.name).Nodup
  /-- A member is listed under the first base that has it. -/
  first : ∀ m ∈ found, ∃ before after row e, visited = before ++ m.base :: after ∧
    (∀ base ∈ before, ¬ HasMember t base m.name) ∧ t.members.get? m.base = some row ∧
      row.entries.find? (fun e => ownName e.fullname == m.name) = some e ∧ e.fullname = m.fullname

theorem hasMember_iff (h : t.members.get? key = some row) :
    HasMember t key name ↔ ∃ e ∈ row.entries, ownName e.fullname = name := by
  simp [HasMember, h]

/-- An entry of the visited rows is a member of a base. -/
theorem exists_rowEntries_iff (hvisited : ∀ v ∈ visited, t.members.get? v.1 = some v.2) :
    (∃ x ∈ rowEntries visited, isNamed name x = true) ↔
      ∃ base ∈ visited.map Prod.fst, HasMember t base name := by
  constructor
  · rintro ⟨x, hx, hname⟩
    obtain ⟨v, hv, hx⟩ := List.mem_flatMap.1 hx
    obtain ⟨e, he, rfl⟩ := List.mem_map.1 hx
    exact ⟨v.1, List.mem_map_of_mem hv,
      (hasMember_iff (hvisited v hv)).2 ⟨e, he, isNamed_iff.1 hname⟩⟩
  · rintro ⟨base, hbase, hmember⟩
    obtain ⟨v, hv, rfl⟩ := List.mem_map.1 hbase
    obtain ⟨e, he, hname⟩ := (hasMember_iff (hvisited v hv)).1 hmember
    exact ⟨(v.1, e), List.mem_flatMap.2 ⟨v, hv, List.mem_map_of_mem he⟩, isNamed_iff.2 hname⟩

/-- The first entry of a name is in the first row that has one. -/
theorem exists_first (hvisited : ∀ v ∈ visited, t.members.get? v.1 = some v.2) {base : String}
    {e : Entry} (h : (rowEntries visited).find? (isNamed name) = some (base, e)) :
    ∃ before after row, visited.map Prod.fst = before ++ base :: after ∧
      (∀ other ∈ before, ¬ HasMember t other name) ∧ t.members.get? base = some row ∧
        row.entries.find? (fun e => ownName e.fullname == name) = some e := by
  rw [rowEntries, List.find?_flatMap, List.findSome?_eq_some_iff] at h
  obtain ⟨before, v, after, rfl, hv, hbefore⟩ := h
  rw [List.find?_map, Option.map_eq_some_iff] at hv
  obtain ⟨e', he', heq⟩ := hv
  obtain ⟨rfl, rfl⟩ := Prod.mk.inj heq
  refine ⟨before.map Prod.fst, after.map Prod.fst, v.2, by simp, ?_,
    hvisited v (by simp), he'⟩
  intro other hother hmember
  obtain ⟨w, hw, rfl⟩ := List.mem_map.1 hother
  obtain ⟨d, hd, hname⟩ :=
    (hasMember_iff (hvisited w (List.mem_append_left _ hw))).1 hmember
  have hnone := hbefore w hw
  rw [List.find?_eq_none] at hnone
  exact hnone (w.1, d) (List.mem_map_of_mem hd) (isNamed_iff.2 hname)

/-- What is collected from the visited rows is what is inherited. -/
theorem inherits_collect (hrow : t.members.get? target = some row)
    (h : follow (lookup t) t.members (pendingOf row) = .ok visited) :
    Inherits t target (visited.map Prod.fst)
      (collect (row.entries.map fun e => ownName e.fullname) visited) := by
  have hvisited : ∀ v ∈ visited, t.members.get? v.1 = some v.2 :=
    fun v hv => get?_of_mem_follow h hv
  have horder := depthFirst_of_get? hrow h
  have hcollects := collects_foldl (row.entries.map fun e => ownName e.fullname)
    (rowEntries visited)
  rw [collect_eq]
  refine ⟨horder, fun base => mem_iff_hasBase horder, fun name => ?_, hcollects.once,
    fun m hm => ?_⟩
  · rw [hcollects.listed, exists_rowEntries_iff hvisited, hasMember_iff hrow, List.mem_map,
      and_comm]
    simp only [mem_iff_hasBase horder]
  · obtain ⟨e, he, hname⟩ := hcollects.first m hm
    obtain ⟨before, after, below, hsplit, hbefore, hbelow, hfind⟩ := exists_first hvisited he
    exact ⟨before, after, below, e, hsplit, hbefore, hbelow, hfind, hname⟩

/-- Without a row nothing is inherited. -/
theorem inherits_nil (hrow : t.members.get? target = none) : Inherits t target [] [] := by
  have horder : DepthFirst (baseKeys t) [] (baseKeys t target) [] := by
    rw [baseKeys, hrow]
    exact .done []
  refine ⟨horder, fun base => mem_iff_hasBase horder, fun name => ?_, List.nodup_nil,
    List.forall_mem_nil _⟩
  have hnone : ∀ base, ¬ Relation.TransGen (HasBase t) target base := fun base hbase =>
    List.not_mem_nil ((mem_iff_hasBase horder).2 hbase)
  simp [hnone]

theorem followable_of_get?_none (hrow : t.members.get? target = none) : Followable t target := by
  intro key row hreach hkey
  rcases Relation.ReflTransGen.cases_head hreach with rfl | ⟨base, ⟨below, _, _, _, hbelow, -⟩, -⟩
  · rw [hrow] at hkey
    cases hkey
  · rw [hrow] at hbelow
    cases hbelow

/-- Members can be listed exactly if the bases can be followed. -/
theorem exists_members_iff : (∃ found, members t target = .ok found) ↔ Followable t target := by
  unfold members
  cases hrow : t.members.get? target with
  | none => exact iff_of_true ⟨[], rfl⟩ (followable_of_get?_none hrow)
  | some row =>
    rw [← exists_follow_iff hrow]
    constructor
    · rintro ⟨found, h⟩
      obtain ⟨visited, hvisited, -⟩ := Except.ok_of_bind h
      exact ⟨visited, hvisited⟩
    · rintro ⟨visited, hvisited⟩
      exact ⟨_, Except.bind_of_ok hvisited _⟩

/-- What is listed is what is inherited. -/
theorem exists_inherits (h : members t target = .ok found) :
    ∃ visited, Inherits t target visited found := by
  unfold members at h
  cases hrow : t.members.get? target with
  | none =>
    rw [hrow] at h
    cases h
    exact ⟨[], inherits_nil hrow⟩
  | some row =>
    rw [hrow] at h
    obtain ⟨visited, hvisited, h⟩ := Except.ok_of_bind h
    cases h
    exact ⟨_, inherits_collect hrow hvisited⟩

end LuaDocs.InheritedMembers
