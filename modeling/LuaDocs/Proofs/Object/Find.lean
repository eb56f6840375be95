import LuaDocs.Object.Find
import LuaDocs.Proofs.Name.Plain
import LuaDocs.Proofs.Table

/-!
# Paths in the tree

Every object below the root has a path, and the path of a child is that of its parent with the name
of the child at its end. Where a path leads, the names before the last one are divided: those of
modules come first and name the module, the others name the class.
-/

namespace LuaDocs.Object

open Text

variable {o c x : Object} {name : String} {path : List String}

theorem mem_entries : (path, x) ∈ o.entries ↔
    ∃ name c, (name, c) ∈ o.children ∧
      (path = [name] ∧ x = c ∨ ∃ rest, path = name :: rest ∧ (rest, x) ∈ c.entries) := by
  rw [entries, List.mem_flatMap]
  constructor
  · rintro ⟨⟨⟨name, c⟩, hc⟩, -, h⟩
    refine ⟨name, c, hc, ?_⟩
    rcases List.mem_cons.1 h with heq | h
    · exact .inl (Prod.mk.inj heq)
    · obtain ⟨⟨rest, y⟩, hy, heq⟩ := List.mem_map.1 h
      obtain ⟨rfl, rfl⟩ := Prod.mk.inj heq
      exact .inr ⟨rest, rfl, hy⟩
  · rintro ⟨name, c, hc, h⟩
    refine ⟨⟨(name, c), hc⟩, List.mem_attach _ _, ?_⟩
    rcases h with ⟨rfl, rfl⟩ | ⟨rest, rfl, hrest⟩
    · exact List.mem_cons_self
    · exact List.mem_cons_of_mem _ (List.mem_map.2 ⟨(rest, x), hrest, rfl⟩)

theorem mem_entries_root (h : (name, c) ∈ o.children) : ([name], c) ∈ o.entries :=
  mem_entries.2 ⟨name, c, h, .inl ⟨rfl, rfl⟩⟩

/-- The path of a child is that of its parent with the name of the child at its end. -/
theorem mem_entries_child (hx : (path, x) ∈ o.entries) (hc : (name, c) ∈ x.children) :
    (path ++ [name], c) ∈ o.entries := by
  induction path generalizing o with
  | nil =>
    obtain ⟨_, _, -, ⟨h, -⟩ | ⟨_, h, -⟩⟩ := mem_entries.1 hx
    · cases h
    · cases h
  | cons first rest ih =>
    obtain ⟨n, d, hd, ⟨h, rfl⟩ | ⟨rest', h, hrest⟩⟩ := mem_entries.1 hx
    · obtain ⟨rfl, rfl⟩ := List.cons.inj h
      exact mem_entries.2 ⟨first, x, hd, .inr ⟨[name], rfl, mem_entries_root hc⟩⟩
    · obtain ⟨rfl, rfl⟩ := List.cons.inj h
      exact mem_entries.2 ⟨first, d, hd, .inr ⟨rest ++ [name], rfl, ih hrest⟩⟩

theorem mem_children_of_child? (h : o.child? name = some c) : (name, c) ∈ o.children :=
  Table.mem_of_get? h

theorem mem_entries_of_at? (hne : path ≠ []) (h : o.at? path = some x) :
    (path, x) ∈ o.entries := by
  induction path generalizing o with
  | nil => exact absurd rfl hne
  | cons name rest ih =>
    rw [at?] at h
    split at h
    · next c hc =>
      refine mem_entries.2 ⟨name, c, mem_children_of_child? hc, ?_⟩
      cases rest with
      | nil => exact .inl ⟨rfl, (Option.some.inj h).symm⟩
      | cons second rest => exact .inr ⟨_, rfl, ih (List.cons_ne_nil _ _) h⟩
    · cases h

/-- All names in the tree are plain. -/
def PlainNames (root : Object) : Prop :=
  ∀ e ∈ root.entries, ∀ name ∈ e.1, Name.isPlain name = true

instance (root : Object) : Decidable root.PlainNames :=
  inferInstanceAs (Decidable (∀ e ∈ root.entries, ∀ _ ∈ _, _ = _))

/-- Only children of the root are marked as globals. -/
def GlobalsAtRoot (root : Object) : Prop :=
  ∀ e ∈ root.entries, e.2.details.toplevel = true → e.1.length = 1

instance (root : Object) : Decidable root.GlobalsAtRoot :=
  inferInstanceAs (Decidable (∀ e ∈ root.entries, _ → _))

theorem at?_append (root : Object) (p q : List String) :
    root.at? (p ++ q) = (root.at? p).bind fun o => o.at? q := by
  induction p generalizing root with
  | nil => rfl
  | cons name p ih =>
    rw [List.cons_append, at?, at?]
    cases root.child? name with
    | none => rfl
    | some c => exact ih c

theorem at?_cons_of_child? {root : Object} (h : root.child? name = some c) (rest : List String) :
    root.at? (name :: rest) = c.at? rest := by rw [at?, h]

/-! ### The names on the way -/

/-- The path of names `m ++ k` runs through the modules `m`, and the first object that is no module
is the first one of `k`. -/
structure Divided (root : Object) (m k : List String) : Prop where
  modules : ∀ p, p ≠ [] → p <+: m → ∃ o, root.at? p = some o ∧ o.kind? = some .module_
  leaves : ∀ name ∈ k.head?, ∃ o, root.at? (m ++ [name]) = some o ∧ o.kind? ≠ some .module_

namespace Divided

variable {root : Object} {m k : List String}

theorem root_of_leaves
    (h : ∀ name ∈ k.head?, ∃ o, root.at? [name] = some o ∧ o.kind? ≠ some .module_) :
    root.Divided [] k :=
  ⟨fun _ hne hp => absurd (List.prefix_nil.1 hp) hne, h⟩

theorem cons (hc : root.child? name = some c) (hkind : c.kind? = some .module_)
    (h : c.Divided m k) : root.Divided (name :: m) k := by
  refine ⟨fun p hne hp => ?_, fun next hnext => ?_⟩
  · obtain ⟨first, p, rfl⟩ := List.exists_cons_of_ne_nil hne
    obtain ⟨rfl, hstarts⟩ := List.cons_prefix_cons.1 hp
    rw [at?_cons_of_child? hc]
    by_cases hnil : p = []
    · rw [hnil]
      exact ⟨c, rfl, hkind⟩
    · exact h.modules p hnil hstarts
  · rw [List.cons_append, at?_cons_of_child? hc]
    exact h.leaves next hnext

theorem dropLast_class (h : root.Divided m (k ++ [name])) : root.Divided m k :=
  ⟨h.modules, fun first hfirst => h.leaves first (by rw [List.head?_append, hfirst]; rfl)⟩

theorem dropLast_module (h : root.Divided (m ++ [name]) []) : root.Divided m [] :=
  ⟨fun p hne hp => h.modules p hne (hp.trans (List.prefix_append _ _)), nofun⟩

end Divided

/-- How a walk ends at an object when the given names are left. -/
def ending (o : Object) : List String → Except String Object
  | [] => .ok o
  | name :: _ => .error name

/-- Below an object that is no module, all names belong to the class. -/
theorem walk_class {classes : List String} (hne : classes ≠ []) (root : Object)
    (modules names : List String) :
    ∃ k rest o, names = k ++ rest ∧ root.at? k = some o ∧
      (∀ name ∈ rest.head?, o.child? name = none) ∧
      root.walk modules classes names = (o.ending rest, modules, k.reverse ++ classes) := by
  induction names generalizing root classes with
  | nil => exact ⟨[], [], root, rfl, rfl, nofun, rfl⟩
  | cons name names ih =>
    rw [walk]
    cases hc : root.child? name with
    | none =>
      refine ⟨[], name :: names, root, rfl, rfl, fun first hfirst => ?_, rfl⟩
      rw [← Option.some.inj hfirst, hc]
    | some c =>
      obtain ⟨k, rest, o, rfl, hat, hrest, hwalk⟩ := ih (List.cons_ne_nil name classes) c
      refine ⟨name :: k, rest, o, rfl, (at?_cons_of_child? hc k).trans hat, hrest, ?_⟩
      simp [hne, hwalk]

/-- A walk runs through modules, then through a class, and ends where the names or the objects
end. -/
theorem walk_modules (root : Object) (modules names : List String) :
    ∃ m k rest o, names = m ++ k ++ rest ∧ root.at? (m ++ k) = some o ∧
      (∀ name ∈ rest.head?, o.child? name = none) ∧ root.Divided m k ∧
      root.walk modules [] names = (o.ending rest, m.reverse ++ modules, k.reverse) := by
  induction names generalizing root modules with
  | nil => exact ⟨[], [], [], root, rfl, rfl, nofun, .root_of_leaves nofun, rfl⟩
  | cons name names ih =>
    rw [walk]
    cases hc : root.child? name with
    | none =>
      refine ⟨[], [], name :: names, root, rfl, rfl, fun first hfirst => ?_,
        .root_of_leaves nofun, rfl⟩
      rw [← Option.some.inj hfirst, hc]
    | some c =>
      by_cases hkind : c.kind? = some .module_
      · obtain ⟨m, k, rest, o, rfl, hat, hrest, hdivided, hwalk⟩ := ih c (name :: modules)
        refine ⟨name :: m, k, rest, o, rfl, (at?_cons_of_child? hc _).trans hat, hrest,
          hdivided.cons hc hkind, ?_⟩
        simpa [hkind] using hwalk
      · -- from here on the names belong to the class
        obtain ⟨k, rest, o, rfl, hat, hrest, hwalk⟩ :=
          walk_class (List.cons_ne_nil name []) c modules names
        refine ⟨[], name :: k, rest, o, rfl, (at?_cons_of_child? hc k).trans hat, hrest,
          .root_of_leaves fun first hfirst => ?_, ?_⟩
        · rw [← Option.some.inj hfirst, at?_cons_of_child? hc]
          exact ⟨c, rfl, hkind⟩
        · simp [hkind, hwalk]

/-! ### Where a path leads -/

/-- A path leads to an object, or there is a first name on it that leads nowhere. In either case the
names before it are divided. -/
theorem locate_cases (root : Object) (path : String) :
    ∃ m k name rest o, splitString '.' path = m ++ k ++ name :: rest ∧ root.Divided m k ∧
      (rest = [] ∧ root.at? (splitString '.' path) = some o ∧
          root.locate path = ⟨some o, joinStrings '.' m, joinStrings '.' k, name⟩ ∨
        root.at? (m ++ k) = some o ∧ o.child? name = none ∧
          root.locate path = ⟨none, joinStrings '.' m, joinStrings '.' k, name⟩) := by
  obtain ⟨m, k, rest, o, hpath, hat, hrest, hdivided, hwalk⟩ :=
    root.walk_modules [] (splitString '.' path)
  unfold locate
  rw [hwalk]
  cases rest with
  | cons name rest =>
    exact ⟨m, k, name, rest, o, hpath, hdivided,
      .inr ⟨hat, hrest name rfl, by simp [ending, dotted]⟩⟩
  | nil =>
    rw [List.append_nil] at hpath
    -- the last name is that of the object
    obtain rfl | ⟨k, name, rfl⟩ := List.eq_nil_or_concat k
    · obtain rfl | ⟨m, name, rfl⟩ := List.eq_nil_or_concat m
      · exact absurd (List.map_eq_nil_iff.1 hpath) (splitAt_ne_nil _ _)
      · rw [List.concat_eq_append] at *
        exact ⟨m, [], name, [], o, by simp [hpath], hdivided.dropLast_module,
          .inl ⟨rfl, hpath ▸ hat, by simp [ending, dotted]⟩⟩
    · rw [List.concat_eq_append] at *
      exact ⟨m, k, name, [], o, by simp [hpath], hdivided.dropLast_class,
        .inl ⟨rfl, hpath ▸ hat, by simp [ending, dotted]⟩⟩

/-- Where a path leads. -/
theorem object_locate (root : Object) (path : String) :
    (root.locate path).object = root.at? (splitString '.' path) := by
  obtain ⟨m, k, name, rest, o, hpath, -, ⟨-, hat, hlocate⟩ | ⟨hat, hnone, hlocate⟩⟩ :=
    root.locate_cases path
  · rw [hlocate, hat]
  · rw [hlocate, hpath, at?_append, hat, Option.bind_some, at?, hnone]

/-- The module, the class and the name of an object make its path. -/
theorem path_of_locate {root : Object} {path : String} (h : (root.locate path).object = some o) :
    root.at? (splitString '.' path) = some o ∧ ∃ m k,
      (root.locate path).moduleName = joinStrings '.' m ∧
      (root.locate path).className = joinStrings '.' k ∧
      splitString '.' path = m ++ k ++ [(root.locate path).name] := by
  refine ⟨(object_locate root path).symm.trans h, ?_⟩
  obtain ⟨m, k, name, rest, x, hpath, -, ⟨rfl, -, hlocate⟩ | ⟨-, -, hlocate⟩⟩ :=
    root.locate_cases path
  · rw [hlocate]
    exact ⟨m, k, rfl, rfl, hpath⟩
  · rw [hlocate] at h
    cases h

/-- Of the objects on a path, the last one that exists is `a`; the names `above` lead to it. -/
structure Deepest (root : Object) (path above : List String) (a : Object) : Prop where
  starts : above <+: path
  leads : root.at? above = some a
  ends : ∀ p, p <+: path → above.length < p.length → root.at? p = none

/-- The location divides a path: its module is made of the names `m` and its class of the names `k`.
If there is an object, the parts make the path; if not, they make the path to the last object. -/
structure Location.Divides (l : Location) (root : Object) (path : String) (m k : List String) :
    Prop where
  moduleName : l.moduleName = joinStrings '.' m
  className : l.className = joinStrings '.' k
  names : m ++ k ++ [l.name] <+: splitString '.' path
  divided : root.Divided m k
  found : l.object ≠ none →
    Index.joinGiven [some l.moduleName, some l.className, some l.name] = path
  missing : l.object = none →
    Index.joinGiven [some l.moduleName, some l.className] = joinStrings '.' (m ++ k) ∧
      ∃ a, root.Deepest (splitString '.' path) (m ++ k) a ∧ l.name ∉ Table.keys a.children

theorem deepest_of_child? {root : Object} {above rest : List String} (hat : root.at? above = some o)
    (h : o.child? name = none) : root.Deepest (above ++ name :: rest) above o := by
  refine ⟨List.prefix_append _ _, hat, fun p hp hlength => ?_⟩
  obtain ⟨q, rfl⟩ := List.prefix_of_prefix_length_le (List.prefix_append _ _) hp
    (Nat.le_of_lt hlength)
  rw [List.prefix_append_right_inj] at hp
  cases q with
  | nil => simp at hlength
  | cons first q =>
    obtain ⟨rfl, -⟩ := List.cons_prefix_cons.1 hp
    rw [at?_append, hat, Option.bind_some, at?, h]

/-- **How a path is divided.** The object is the one that the path leads to. Its module, its class
and its name make the path; the module is made of modules, and the class starts with an object that
is none. If the path leads nowhere, the module and the class make the path to the last object on it
that exists, and the name is not one of its children. -/
theorem locate_divides (root : Object) (path : String)
    (hne : ∀ name ∈ splitString '.' path, name ≠ "") :
    (root.locate path).object = root.find? path ∧
      ∃ m k, (root.locate path).Divides root path m k := by
  refine ⟨object_locate root path, ?_⟩
  obtain ⟨m, k, name, rest, o, hpath, hdivided, hcases⟩ := root.locate_cases path
  rw [hpath] at hne
  have hparent := Index.joinGiven_join (List.forall_mem_append.1 hne).1
  refine ⟨m, k, ?_⟩
  obtain ⟨rfl, -, hlocate⟩ | ⟨hat, hnone, hlocate⟩ := hcases
  · rw [hlocate]
    refine ⟨rfl, rfl, hpath ▸ List.prefix_rfl, hdivided, fun _ => ?_, nofun⟩
    calc Index.joinGiven ([some (joinStrings '.' m), some (joinStrings '.' k)] ++ [some name])
      _ = joinStrings '.' (m ++ k ++ [name]) := Index.joinGiven_below hne hparent
      _ = path := by rw [← hpath, joinStrings_splitString]
  · rw [hlocate]
    refine ⟨rfl, rfl, ⟨rest, by simp [hpath]⟩, hdivided, fun h => absurd rfl h, fun _ => ?_⟩
    exact ⟨hparent, o, hpath ▸ deepest_of_child? hat hnone, Table.get?_eq_none_iff.1 hnone⟩

/-- A function in a module in a class in a module. -/
def workshop : Object :=
  ⟨.unknown false, .bare, [("shop", ⟨.unknown false, .bare, [("Tool",
    ⟨.unknown false, .class_ ⟨[], [], none, none⟩, [("parts", ⟨.unknown false, .bare,
      [("oil", ⟨.unknown false, .function ⟨[], [], [], [], false⟩, []⟩)]⟩)]⟩)]⟩)]⟩

theorem locate_workshop :
    ((workshop.find? "shop.Tool.parts.oil").isSome = true ∧ ∃ m k,
      (workshop.locate "shop.Tool.parts.oil").Divides workshop "shop.Tool.parts.oil" m k) ∧
    workshop.find? "shop.Tool.hinge.oil" = none ∧ ∃ m k,
      (workshop.locate "shop.Tool.hinge.oil").Divides workshop "shop.Tool.hinge.oil" m k :=
  ⟨⟨by decide +kernel, (locate_divides _ _ (by decide +kernel)).2⟩, by decide +kernel,
    (locate_divides _ _ (by decide +kernel)).2⟩

end LuaDocs.Object
