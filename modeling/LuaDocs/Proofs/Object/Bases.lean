import LuaDocs.Proofs.DepthFirst
import LuaDocs.Proofs.Object.Comparable
import LuaDocs.Proofs.Object.Find

/-!
# The bases of a class

A class names its bases by their paths, and a name counts if it leads to an object of the tree.
Following the names of bases gives a graph on the objects of the tree, in which a class may be
below itself, or below another one in several ways. The bases of a class are all that is below it
in this graph, itself apart, in depth-first order with the last name first.

Objects are followed in a list of all objects of the tree, from which an object is taken out when
it is met. If no object has two children of one name, what is left in this list at a path that has
not been met is the object that the path leads to.
-/

namespace LuaDocs.Object

open Text

variable {root o x : Object} {self path base : List String}
  {pool : List (List String × Object)}

/-- The object at `path` names the object at `base` as its base. -/
def HasBase (root : Object) (path base : List String) : Prop :=
  ∃ o name b, root.at? path = some o ∧ name ∈ o.baseNames ∧ root.find? name = some b ∧
    splitString '.' name = base

/-- The path that the name of a base stands for, if it leads to an object. -/
def basePath? (root : Object) (name : String) : Option (List String) :=
  (root.find? name).map fun _ => splitString '.' name

/-- The paths of the bases that the object at a path names, the last first. -/
def basePaths (root : Object) (path : List String) : List (List String) :=
  ((root.at? path).elim [] baseNames).reverse.filterMap root.basePath?

theorem basePaths_of_at? (h : root.at? path = some o) :
    root.basePaths path = o.baseNames.reverse.filterMap root.basePath? := by
  rw [basePaths, h, Option.elim_some]

theorem mem_basePaths : base ∈ root.basePaths path ↔ root.HasBase path base := by
  unfold HasBase
  cases h : root.at? path with
  | none => simp [basePaths, h]
  | some o => simp [basePaths_of_at? h, basePath?]

/-! ### The list of all objects -/

/-- An object is found by its path, if no object has two children of one name. -/
theorem Keyed.at?_of_mem_entries (hroot : root.Keyed) (h : (path, x) ∈ root.entries) :
    root.at? path = some x := by
  induction path generalizing root with
  | nil =>
    obtain ⟨_, _, -, ⟨hpath, -⟩ | ⟨_, hpath, -⟩⟩ := mem_entries.1 h
    · cases hpath
    · cases hpath
  | cons first rest ih =>
    obtain ⟨name, c, hc, hwhere⟩ := mem_entries.1 h
    have hchild : root.child? name = some c := Table.get?_of_mem hroot.table hc
    rcases hwhere with ⟨hpath, rfl⟩ | ⟨rest', hpath, hrest⟩
    · obtain ⟨rfl, rfl⟩ := List.cons.inj hpath
      rw [Object.at?, hchild]
      rfl
    · obtain ⟨rfl, rfl⟩ := List.cons.inj hpath
      rw [Object.at?, hchild]
      exact ih (hroot.child hchild) hrest

theorem mem_of_entry?_eq_some (h : entry? pool path = some x) : (path, x) ∈ pool := by
  obtain ⟨e, he, rfl⟩ := Option.map_eq_some_iff.1 h
  have hpath : e.1 = path := by simpa using List.find?_some he
  exact hpath ▸ List.mem_of_find?_eq_some he

theorem entry?_eq_none_iff : entry? pool path = none ↔ ∀ x, (path, x) ∉ pool := by
  rw [ entry?, Option.map_eq_none_iff, List.find?_eq_none]
  constructor
  · intro h x hx
    exact h _ hx (beq_self_eq_true path)
  · rintro h ⟨p, x⟩ hx heq
    exact h x (beq_iff_eq.1 heq ▸ hx)

/-- The list of all objects has the object that a path leads to. -/
theorem Keyed.entry?_entries (hroot : root.Keyed) (hpath : path ≠ []) :
    entry? root.entries path = root.at? path := by
  cases h : entry? root.entries path with
  | some x => exact (hroot.at?_of_mem_entries (mem_of_entry?_eq_some h)).symm
  | none =>
    cases hat : root.at? path with
    | none => rfl
    | some x => exact absurd (mem_entries_of_at? hpath hat) (entry?_eq_none_iff.1 h x)

theorem entry?_dropEntry_self : entry? (dropEntry pool path) path = none := by
  rw [ entry?_eq_none_iff]
  intro x hx
  simpa using (List.mem_filter.1 hx).2

theorem entry?_dropEntry_of_ne {other : List String} (h : other ≠ path) :
    entry? (dropEntry pool path) other = entry? pool other := by
  rw [ entry?, entry?, dropEntry, List.find?_filter]
  congr 2
  funext e
  by_cases he : e.1 = other
  · simp [he, h]
  · simp [he]

/-- What is left in the pool was there before. -/
theorem entry?_of_entry?_dropEntry {other : List String}
    (h : entry? (dropEntry pool path) other = some x) : entry? pool other = some x := by
  by_cases heq : other = path
  · rw [heq, entry?_dropEntry_self] at h
    cases h
  · rwa [ entry?_dropEntry_of_ne heq] at h

/-! ### Following bases -/

/-- The pool has what is left of the tree when the paths in `seen` have been met. -/
structure Leaves (root : Object) (own : List String) (seen : List (List String))
    (pool : List (List String × Object)) : Prop where
  own_seen : own ∈ seen
  /-- What has been seen is taken out; only the class itself may still be there. -/
  taken : ∀ path ∈ seen, path ≠ own → entry? pool path = none
  left : ∀ path, path ≠ [] → path ∉ seen → entry? pool path = root.at? path

variable {seen : List (List String)}

theorem leaves_entries (hroot : root.Keyed) (self : List String) :
    Leaves root self [self] root.entries where
  own_seen := List.mem_singleton_self self
  taken := fun _ hpath hne => absurd (List.mem_singleton.1 hpath) hne
  left := fun _ hpath _ => hroot.entry?_entries hpath

/-- Meeting the class itself changes nothing for the others. -/
theorem Leaves.drop_self (h : Leaves root self seen pool) :
    Leaves root self seen (dropEntry pool self) where
  own_seen := h.own_seen
  taken := fun path hpath hne => (entry?_dropEntry_of_ne hne).trans (h.taken path hpath hne)
  left := by
    intro path hpath hnew
    have hne : path ≠ self := fun heq => hnew (heq ▸ h.own_seen)
    rw [ entry?_dropEntry_of_ne hne]
    exact h.left path hpath hnew

theorem Leaves.drop (h : Leaves root self seen pool) (path : List String) :
    Leaves root self (path :: seen) (dropEntry pool path) where
  own_seen := List.mem_cons_of_mem _ h.own_seen
  taken := by
    intro other hother hne
    by_cases heq : other = path
    · rw [heq, entry?_dropEntry_self]
    · rw [ entry?_dropEntry_of_ne heq]
      exact h.taken other ((List.mem_cons.1 hother).resolve_left heq) hne
  left := by
    intro other hother hnew
    rw [List.mem_cons, not_or] at hnew
    rw [ entry?_dropEntry_of_ne hnew.1]
    exact h.left other hother hnew.2

/-- A name that leads to nothing in the pool stands for nothing, or for what has been seen. -/
theorem Leaves.mem_seen_of_basePath? (h : Leaves root self seen pool) {name : String}
    (hname : root.basePath? name = some path) (hnone : entry? pool path = none) : path ∈ seen := by
  obtain ⟨b, hb, rfl⟩ := Option.map_eq_some_iff.1 hname
  by_contra hnew
  rw [h.left _ (splitString_ne_nil '.' name) hnew, ← find?, hb] at hnone
  cases hnone

/-- **Bases are followed depth first.** -/
theorem depthFirst_followBases (seen : List (List String)) (h : Leaves root self seen pool)
    (pending : List String) :
    DepthFirst root.basePaths seen (pending.filterMap root.basePath?)
      ((followBases self pool pending).map Prod.fst) := by
  fun_induction followBases self pool pending generalizing seen with
  | case1 => exact .done seen
  | case2 pool name rest path hnone ih =>
    refine .skip_name (fun p hp => ?_) (ih seen h)
    obtain ⟨b, hb, rfl⟩ := Option.map_eq_some_iff.1 hp
    exact h.mem_seen_of_basePath? hp hnone
  | case3 pool name rest path base hbase pool' hself ih =>
    have hself : path = self := beq_iff_eq.1 hself
    refine .skip_name (fun p hp => ?_) (ih seen ?_)
    · obtain ⟨b, hb, rfl⟩ := Option.map_eq_some_iff.1 hp
      rw [← hself] at h
      exact h.own_seen
    · exact hself ▸ h.drop_self
  | case4 pool name rest path base hbase pool' hself ih =>
    have hself : path ≠ self := fun heq => hself (beq_iff_eq.2 heq)
    have hnew : path ∉ seen := by
      intro hseen
      rw [h.taken path hseen hself] at hbase
      cases hbase
    have hat : root.at? path = some base :=
      (h.left path (splitString_ne_nil '.' name) hnew).symm.trans hbase
    have hname : root.basePath? name = some path := by
      rw [basePath?, find?, hat]
      rfl
    exact .push_name hname hnew (basePaths_of_at? hat) (ih _ (h.drop path))

/-- What is followed are objects of the pool. -/
theorem entry?_of_mem_followBases {pending : List String}
    (h : (path, x) ∈ followBases self pool pending) : entry? pool path = some x := by
  fun_induction followBases self pool pending with
  | case1 => cases h
  | case2 pool name rest here hnone ih => exact ih h
  | case3 pool name rest here base hbase pool' hself ih => exact entry?_of_entry?_dropEntry (ih h)
  | case4 pool name rest here base hbase pool' hself ih =>
    rcases List.mem_cons.1 h with heq | h
    · obtain ⟨rfl, rfl⟩ := Prod.mk.inj heq
      exact hbase
    · exact entry?_of_entry?_dropEntry (ih h)

/-! ### The bases of a class -/

/-- The bases of an object are listed depth first, the last name first. -/
theorem depthFirst_bases (hroot : root.Keyed) (self : List String) :
    DepthFirst root.basePaths [self] (root.basePaths self)
      ((root.bases self).map Prod.fst) := by
  unfold bases
  cases h : root.at? self with
  | none =>
    rw [basePaths, h]
    exact .done _
  | some o =>
    rw [basePaths_of_at? h]
    exact depthFirst_followBases _ (leaves_entries hroot self) _

/-- The bases of an object are objects of the tree with their paths. -/
theorem at?_of_mem_bases (hroot : root.Keyed) (h : (path, x) ∈ root.bases self) :
    root.at? path = some x := by
  unfold bases at h
  cases hself : root.at? self with
  | none =>
    rw [hself] at h
    cases h
  | some o =>
    rw [hself] at h
    exact hroot.at?_of_mem_entries (mem_of_entry?_eq_some (entry?_of_mem_followBases h))

/-- **The bases of a class** are the objects that are reached from it by names of bases, itself
apart. Each is listed once, and the order is depth first with the last name first. -/
theorem bases_eq_reachable (hroot : root.Keyed) (self : List String) :
    ((root.bases self).map Prod.fst).Nodup ∧
      (∀ path x, (path, x) ∈ root.bases self ↔
        path ≠ self ∧ Relation.TransGen root.HasBase self path ∧ root.at? path = some x) ∧
      ∀ order, DepthFirst root.basePaths [self] (root.basePaths self) order ↔
        order = (root.bases self).map Prod.fst := by
  have horder := depthFirst_bases hroot self
  have hmem : ∀ path, path ∈ (root.bases self).map Prod.fst ↔
      path ≠ self ∧ Relation.TransGen root.HasBase self path :=
    fun _ => DepthFirst.mem_below_iff (fun _ _ => mem_basePaths) horder
  refine ⟨horder.nodup, fun path x => ⟨fun h => ?_, ?_⟩, fun order => ⟨fun h => ?_, ?_⟩⟩
  · obtain ⟨hne, hreach⟩ := (hmem path).1 (List.mem_map_of_mem h)
    exact ⟨hne, hreach, at?_of_mem_bases hroot h⟩
  · rintro ⟨hne, hreach, hx⟩
    obtain ⟨⟨path', y⟩, hy, rfl⟩ := List.mem_map.1 ((hmem path).2 ⟨hne, hreach⟩)
    rw [at?_of_mem_bases hroot hy] at hx
    exact Option.some.inj hx ▸ hy
  · exact h.unique horder
  · rintro rfl
    exact horder

/-- A class that names the given bases. -/
def classOf (bases : List String) : Object :=
  ⟨.unknown false, .class_ ⟨bases, [], none, none⟩, []⟩

/-- Four classes that are below each other in circles; one of them names itself and a class that
does not exist. -/
def tangledClasses : Object :=
  ⟨.unknown false, .bare, [("A", classOf ["A", "B", "C", "Missing"]), ("B", classOf ["D"]),
    ("C", classOf ["D", "A"]), ("D", classOf ["B"])]⟩

theorem bases_tangledClasses : tangledClasses.Keyed ∧
    (tangledClasses.bases ["A"]).map Prod.fst = [["C"], ["D"], ["B"]] := by
  have hkeyed : tangledClasses.Keyed := by
    refine keyed_iff.2 ⟨by rw [Table.Keyed]; decide, fun name c hc => keyed_of_childless ?_⟩
    have hmem := mem_children_of_child? hc
    simp only [tangledClasses, List.mem_cons, List.not_mem_nil, or_false, Prod.mk.injEq] at hmem
    rcases hmem with ⟨-, rfl⟩ | ⟨-, rfl⟩ | ⟨-, rfl⟩ | ⟨-, rfl⟩ <;> rfl
  have hA : tangledClasses.basePaths ["A"] = [["C"], ["B"], ["A"]] := by decide +kernel
  have hB : tangledClasses.basePaths ["B"] = [["D"]] := by decide +kernel
  have hC : tangledClasses.basePaths ["C"] = [["A"], ["D"]] := by decide +kernel
  have hD : tangledClasses.basePaths ["D"] = [["B"]] := by decide +kernel
  refine ⟨hkeyed, (((bases_eq_reachable hkeyed ["A"]).2.2 _).1 ?_).symm⟩
  -- of the three names that lead anywhere, the last brings all others
  rw [hA]
  refine .push (by decide) ?_
  rw [hC]
  refine .skip (by decide) (.push (by decide) ?_)
  rw [hD]
  refine .push (by decide) ?_
  rw [hB]
  exact .skip (by decide) (.skip (by decide) (.skip (by decide) (.done _)))

end LuaDocs.Object
