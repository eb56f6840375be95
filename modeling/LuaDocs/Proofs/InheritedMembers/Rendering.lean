import LuaDocs.Proofs.InheritedMembers.Listing
import LuaDocs.Proofs.MemberTable

/-!
# The nodes of inherited members

What is inherited is shown in one paragraph for each base that something is inherited from, under a
common heading. Every member is shown once, in the paragraph of its base.
-/

namespace LuaDocs.InheritedMembers

open Index

variable {t : Index} {parens : Bool} {document target : String} {found : List Inherited}

/-! ### Groups of members -/

/-- The members that come from a base. -/
def comingFrom (found : List Inherited) (base : String) : List Inherited :=
  found.filter fun m => m.base == base

/-- The members are divided by their bases: each is in one group, together with those of its
base. -/
structure Grouped (found : List Inherited) (groups : List (String × List Inherited)) : Prop where
  distinct : (groups.map Prod.fst).Nodup
  base_eq : ∀ g ∈ groups, ∀ m ∈ g.2, m.base = g.1
  all : (groups.flatMap Prod.snd).Perm found

/-- The bases in the order of their paragraphs. -/
def shownBases (found : List Inherited) : List String :=
  (found.map Inherited.base).eraseDups.mergeSort

/-- The members of a base in the order in which they are shown. -/
def shownMembers (found : List Inherited) (base : String) : List Inherited :=
  (comingFrom found base).mergeSort fun a b => decide (a.name ≤ b.name)

/-- The bases with their members, in order. -/
def groups (found : List Inherited) : List (String × List Inherited) :=
  (shownBases found).map fun base => (base, shownMembers found base)

theorem nodup_shownBases (found : List Inherited) : (shownBases found).Nodup :=
  (List.mergeSort_perm _ _).nodup_iff.2 (List.nodup_eraseDups _)

/-- Every member is in the group of its base. -/
theorem grouped_groups (found : List Inherited) : Grouped found (groups found) where
  distinct := by
    rw [groups, List.map_map]
    exact (List.map_id _).symm ▸ nodup_shownBases found
  base_eq := by
    intro g hg m hm
    obtain ⟨base, -, rfl⟩ := List.mem_map.1 hg
    have hmem := (List.mem_filter.1 (List.mem_mergeSort.1 hm)).2
    exact beq_iff_eq.1 hmem
  all := by
    have hsorted : ((groups found).flatMap Prod.snd).Perm
        ((shownBases found).flatMap (comingFrom found)) := by
      rw [groups, List.flatMap_map]
      exact List.Perm.flatMap_left _ fun base _ => List.mergeSort_perm _ _
    refine hsorted.trans (List.flatMap_filter_perm (nodup_shownBases found) fun m hm => ?_)
    exact List.mem_mergeSort.2 (List.mem_eraseDups.2 (List.mem_map_of_mem hm))

/-! ### Nodes -/

/-- The node is a paragraph that shows a base and the members that come from it. -/
def IsParagraph (t : Index) (parens : Bool) (document : String)
    (group : String × List Inherited) (node : Node) : Prop :=
  ∃ ref refs, MemberTable.refer t parens document group.1 group.1 = .ok ref ∧
    List.Forall₂ (fun m n => MemberTable.refer t parens document m.fullname m.name = .ok n)
      group.2 refs ∧
    node = .plain .paragraph
      (.text "Inherited from " :: ref :: .text ": " :: refs.intersperse (.text ", "))

/-- The nodes show the members in paragraphs, one for each base; without members there are no
nodes. -/
def Shows (t : Index) (parens : Bool) (document : String) (nodes : List Node)
    (found : List Inherited) : Prop :=
  found = [] ∧ nodes = [] ∨ found ≠ [] ∧ ∃ groups paragraphs, Grouped found groups ∧
    List.Forall₂ (IsParagraph t parens document) groups paragraphs ∧
    nodes = [.plain .paragraph [.leaf .strong "Other members:"], .plain .admonition paragraphs]

/-- The objects that are described have types that can be referred to. -/
def TypesKnown (t : Index) : Prop :=
  ∀ key row, t.objects.get? key = some row → row.objtype.roles?.isSome = true

theorem isParagraph_of_paragraph {base : String} {node : Node}
    (h : paragraph t parens document found base = .ok node) :
    IsParagraph t parens document (base, shownMembers found base) node := by
  obtain ⟨ref, href, h⟩ := Except.ok_of_bind h
  obtain ⟨refs, hrefs, h⟩ := Except.ok_of_bind h
  cases h
  exact ⟨ref, refs, href, Except.forall₂_of_mapM hrefs, rfl⟩

/-- The nodes of the list show what is listed. -/
theorem shows_render {nodes : List Node} (hfound : members t target = .ok found)
    (h : render t parens document (some target) = .ok nodes) :
    Shows t parens document nodes found := by
  unfold render at h
  dsimp only at h
  rw [hfound] at h
  by_cases hempty : found = []
  · subst hempty
    cases h
    exact .inl ⟨rfl, rfl⟩
  · obtain ⟨paragraphs, hparagraphs, h⟩ := Except.ok_of_bind
      ((if_neg (by simpa using hempty)).symm.trans h)
    cases h
    refine .inr ⟨hempty, groups found, paragraphs, grouped_groups found, ?_, rfl⟩
    rw [groups, List.forall₂_map_left_iff]
    exact (Except.forall₂_of_mapM hparagraphs).imp fun _ _ => isParagraph_of_paragraph

/-- An object, or its name, can be shown if the types of all objects are known. -/
theorem exists_refer (ht : TypesKnown t) (parens : Bool) (document fullname name : String) :
    ∃ node, MemberTable.refer t parens document fullname name = .ok node :=
  MemberTable.exists_refer_iff.2 fun key row h => ht key row (get?_of_find? h)

theorem exists_paragraph (ht : TypesKnown t) (parens : Bool) (document : String)
    (found : List Inherited) (base : String) :
    ∃ node, paragraph t parens document found base = .ok node := by
  obtain ⟨ref, href⟩ := exists_refer ht parens document base base
  obtain ⟨refs, hrefs⟩ := Except.exists_mapM fun m (_ : m ∈ shownMembers found base) =>
    exists_refer ht parens document m.fullname m.name
  exact ⟨_, (Except.bind_of_ok href _).trans (Except.bind_of_ok hrefs _)⟩

/-- What is listed can be shown if the types of all objects are known. -/
theorem exists_render (ht : TypesKnown t) (hfound : members t target = .ok found) :
    ∃ nodes, render t parens document (some target) = .ok nodes := by
  unfold render
  dsimp only
  rw [hfound]
  by_cases hempty : found = []
  · subst hempty
    exact ⟨[], rfl⟩
  · obtain ⟨paragraphs, hparagraphs⟩ := Except.exists_mapM fun base (_ : base ∈ shownBases found) =>
      exists_paragraph ht parens document found base
    exact ⟨_, (if_neg (by simpa using hempty)).trans (Except.bind_of_ok hparagraphs _)⟩

/-- Nothing can be shown if a base on the way cannot be looked up. -/
theorem render_of_not_followable (h : ¬ Followable t target) (parens : Bool) (document : String) :
    render t parens document (some target) = .error (.lookup .unlistedModules) := by
  cases hmembers : members t target with
  | ok found => exact absurd (exists_members_iff.1 ⟨found, hmembers⟩) h
  | error e =>
    unfold render
    dsimp only
    rw [hmembers]
    rfl

/-- **What is shown of the members that a class inherits.** If no base on the way is looked up where
all modules are in use, the list has every member of a row that is reached by names of bases,
unless the class has a member of that name itself, each once and under the first row that has it;
and the nodes show what is listed. Otherwise nothing is listed. -/
theorem inherited_exact (t : Index) (target : String) :
    (Followable t target → ∃ found visited, members t target = .ok found ∧
      Inherits t target visited found ∧ ∀ parens document,
        (∀ nodes, render t parens document (some target) = .ok nodes →
          Shows t parens document nodes found) ∧
        (TypesKnown t → ∃ nodes, render t parens document (some target) = .ok nodes)) ∧
    (¬ Followable t target → ∀ parens document,
      render t parens document (some target) = .error (.lookup .unlistedModules)) := by
  refine ⟨fun h => ?_, render_of_not_followable⟩
  obtain ⟨found, hfound⟩ := exists_members_iff.2 h
  obtain ⟨visited, hinherits⟩ := exists_inherits hfound
  exact ⟨found, visited, hfound, hinherits, fun parens document =>
    ⟨fun _ => shows_render hfound, fun ht => exists_render ht hfound⟩⟩

/-- The row of a class with the given members and bases, and the modules in use there. -/
def classRow (names bases : List String) (used : Option Selection) : MemberRow :=
  ⟨"index", names.map fun name => ⟨"index", name⟩, bases, ⟨none, none, used⟩⟩

/-- A class that is described in a document. -/
def classObject : ObjectRow := ⟨"index", .class_, false, "", none⟩

/-- Three classes, two of which are bases of each other. -/
def roundClasses (used : Option Selection) : Index where
  objects := [("A", classObject), ("B", classObject), ("C", classObject)]
  globals := []
  members := [("A", classRow ["A.x"] ["B"] used), ("B", classRow ["B.x", "B.y"] ["C", "A"] none),
    ("C", classRow ["C.z"] [] none)]

theorem inherited_roundClasses :
    (∃ found visited, members (roundClasses none) "A" = .ok found ∧
      Inherits (roundClasses none) "A" visited found ∧ "z" ∈ found.map Inherited.name ∧
        "x" ∉ found.map Inherited.name) ∧
    render (roundClasses (some .all)) true "index" (some "A") =
      .error (.lookup .unlistedModules) := by
  have hA : (roundClasses none).members.get? "A" = some (classRow ["A.x"] ["B"] none) := by
    decide +kernel
  have hB : (roundClasses none).members.get? "B" =
      some (classRow ["B.x", "B.y"] ["C", "A"] none) := by decide +kernel
  have hC : (roundClasses none).members.get? "C" = some (classRow ["C.z"] [] none) := by
    decide +kernel
  have hfollow : Followable (roundClasses none) "A" := by
    intro key row _ hrow hall
    have hmem := Table.mem_of_get? hrow
    simp only [roundClasses, List.mem_cons, List.not_mem_nil, or_false, Prod.mk.injEq] at hmem
    rcases hmem with ⟨-, rfl⟩ | ⟨-, rfl⟩ | ⟨-, rfl⟩ <;> cases hall
  have hAB : HasBase (roundClasses none) "A" "B" :=
    ⟨_, "B", classObject, _, hA, List.mem_cons_self,
      Except.toOption_eq_some.1 (by decide +kernel), hB⟩
  have hBC : HasBase (roundClasses none) "B" "C" :=
    ⟨_, "C", classObject, _, hB, List.mem_cons_self,
      Except.toOption_eq_some.1 (by decide +kernel), hC⟩
  obtain ⟨found, visited, hfound, hinherits, -⟩ := (inherited_exact _ _).1 hfollow
  refine ⟨⟨found, visited, hfound, hinherits, ?_, ?_⟩, (inherited_exact _ _).2 ?_ true "index"⟩
  · refine (hinherits.listed "z").2 ⟨⟨"C", .tail (.single hAB) hBC, ?_⟩, ?_⟩
    · exact (hasMember_iff hC).2 ⟨⟨"index", "C.z"⟩, List.mem_cons_self, by decide +kernel⟩
    · rw [hasMember_iff hA]
      decide +kernel
  · intro hmem
    exact ((hinherits.listed "x").1 hmem).2
      ((hasMember_iff hA).2 ⟨⟨"index", "A.x"⟩, List.mem_cons_self, by decide +kernel⟩)
  · intro h
    have hname := h "A" _ .refl (Table.get?_cons _ _ _) rfl "B" List.mem_cons_self
    revert hname
    decide +kernel

end LuaDocs.InheritedMembers
