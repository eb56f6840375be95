import LuaDocs.Members
import LuaDocs.Proofs.Table

/-!
# The members that are listed

Listing members sorts the candidates, which are the children of an object and the globals of a
module, and keeps those that are selected. Whether a member is selected depends on the names that
are excluded through its own name only, so that changing these names takes away or brings back the
members of these names and leaves all others in the list.
-/

namespace LuaDocs.Members

variable {root o : Object} {ignoreFiles withGlobals : Bool} {path : List String}
  {parent : Option (List String)} {options : Options} {ms : List Member} {m : Member}

theorem mem_children_iff :
    m ∈ children path o ↔ ∃ c ∈ o.children, m = ⟨c.1, path ++ [c.1], c.2⟩ := by
  simp [children, eq_comm]

/-- A global is a child of the root and no module. -/
theorem exists_of_mem_globals (h : m ∈ globals root o options) :
    ∃ c ∈ root.children, isGlobalOf o c.2 = true ∧ m = ⟨c.1, [c.1], c.2⟩ := by
  unfold globals at h
  split at h
  · split at h
    · obtain ⟨c, hc, rfl⟩ := List.mem_map.1 h
      obtain ⟨hmem, hglobal⟩ := List.mem_filter.1 hc
      exact ⟨c, hmem, (Bool.and_eq_true_iff.1 hglobal).2, rfl⟩
    · cases h
  · cases h

/-- The children of an object, and the globals of a module where they are asked for. -/
def candidates (root : Object) (path : List String) (o : Object) (options : Options)
    (withGlobals : Bool) : List Member :=
  children path o ++ if withGlobals then globals root o options else []

theorem mem_candidates_iff : m ∈ candidates root path o options withGlobals ↔
    m ∈ children path o ∨ withGlobals = true ∧ m ∈ globals root o options := by
  cases withGlobals <;> simp [candidates]

/-- When members can be listed, and which they are. -/
theorem list_eq_ok_iff : list root ignoreFiles path o parent options withGlobals = .ok ms ↔
    ∃ order, Order.ofName? (orderName o options) = some order ∧
      (candidates root path o options withGlobals = [] ∨ canExclude options = true) ∧
      ms = (sort order ignoreFiles (candidates root path o options withGlobals)).filter
        (selected options (inheritedNames root parent)) := by
  rw [list, ← candidates]
  cases Order.ofName? (orderName o options) with
  | none => simp
  | some order =>
    dsimp only
    split
    · next hbad =>
      rw [Bool.and_eq_true, Bool.not_eq_true', Bool.not_eq_true', List.isEmpty_eq_false_iff] at hbad
      simp [hbad.1, hbad.2]
    · next hgood =>
      have hgood : candidates root path o options withGlobals = [] ∨ canExclude options = true := by
        by_contra hnot
        rw [not_or, Bool.not_eq_true] at hnot
        exact hgood (by rw [List.isEmpty_eq_false_iff.2 hnot.1, hnot.2]; rfl)
      constructor
      · intro h
        exact ⟨order, rfl, hgood, (Except.ok.inj h).symm⟩
      · rintro ⟨order', horder, -, rfl⟩
        rw [Option.some.inj horder]

/-- The members that are listed are the candidates that are selected. -/
theorem mem_list_iff (h : list root ignoreFiles path o parent options withGlobals = .ok ms) :
    m ∈ ms ↔ (m ∈ children path o ∨ withGlobals = true ∧ m ∈ globals root o options) ∧
      selected options (inheritedNames root parent) m = true := by
  obtain ⟨order, -, -, rfl⟩ := list_eq_ok_iff.1 h
  rw [List.mem_filter, sort, List.mem_mergeSort, mem_candidates_iff]

/-- Members can be listed if the order is known and the exclusions are names. -/
theorem exists_list_of_order {order : Order}
    (horder : Order.ofName? (orderName o options) = some order)
    (hexclude : canExclude options = true) :
    ∃ ms, list root ignoreFiles path o parent options withGlobals = .ok ms :=
  ⟨_, list_eq_ok_iff.2 ⟨order, horder, .inr hexclude, rfl⟩⟩

/-! ### What the list depends on -/

variable {options' : Options}

theorem candidates_congr (h : options'.get? "globals" = options.get? "globals") :
    candidates root path o options' withGlobals = candidates root path o options withGlobals := by
  rw [candidates, candidates, globals, globals, h]

theorem orderName_congr (horder : options'.get? "member-order" = options.get? "member-order")
    (hmodule : options'.get? "module-member-order" = options.get? "module-member-order") :
    orderName o options' = orderName o options := by
  unfold orderName
  dsimp only
  rw [horder, hmodule]

theorem isExcluded_congr (h : options'.get? "exclude-members" = options.get? "exclude-members") :
    isExcluded options' = isExcluded options := by
  funext name
  rw [isExcluded, isExcluded, h]

theorem canExclude_congr (h : options'.get? "exclude-members" = options.get? "exclude-members") :
    canExclude options' = canExclude options := by
  rw [canExclude, canExclude, h]

/-- A member that is not excluded is described. -/
def admitted (options : Options) (inherited : List String) (m : Member) : Bool :=
  isNamed options m.name || m.object.details.toplevel ||
    let traits := Trait.list.filter fun t => t.holds inherited m
    if traits.isEmpty then admits options "members"
    else traits.all fun t => admits options t.option

theorem selected_eq (options : Options) (inherited : List String) (m : Member) :
    selected options inherited m = (!isExcluded options m.name && admitted options inherited m) :=
  rfl

theorem Trait.option_mem_listOptions (t : Trait) : t.option ∈ listOptions := by
  cases t <;> decide

/-- A member that is described stays so if no list gets shorter and no option is taken back. -/
theorem admitted_mono {inherited : List String}
    (hnamed : isNamed options m.name = true → isNamed options' m.name = true)
    (hadmits : ∀ key ∈ listOptions, admits options key = true → admits options' key = true)
    (h : admitted options inherited m = true) : admitted options' inherited m = true := by
  unfold admitted at h ⊢
  rw [Bool.or_eq_true, Bool.or_eq_true] at h ⊢
  refine h.imp (Or.imp_left hnamed) fun htraits => ?_
  dsimp only at htraits ⊢
  split at htraits
  · next hnone =>
    rw [if_pos hnone]
    exact hadmits _ List.mem_cons_self htraits
  · next hsome =>
    rw [if_neg hsome]
    rw [List.all_eq_true] at htraits ⊢
    exact fun t ht => hadmits _ t.option_mem_listOptions (htraits t ht)

theorem isNamed_iff {name : String} : isNamed options name = true ↔
    ∃ key ∈ listOptions, ∃ v, options.get? key = some v ∧ name ∈ v.items := by
  rw [isNamed, List.any_eq_true]
  refine exists_congr fun key => and_congr_right fun _ => ?_
  cases options.get? key <;> simp

/-- Whether a member is described if it is not excluded depends on the options about members. -/
theorem admitted_congr {inherited : List String}
    (h : ∀ key ∈ listOptions, options'.get? key = options.get? key) :
    admitted options' inherited m = admitted options inherited m := by
  have hmono : ∀ {first second : Options}, (∀ key ∈ listOptions, second.get? key = first.get? key) →
      admitted first inherited m = true → admitted second inherited m = true := by
    intro first second hsame
    refine admitted_mono (fun hnamed => ?_) fun key hkey hadmits => ?_
    · obtain ⟨key, hkey, v, hv, hname⟩ := isNamed_iff.1 hnamed
      exact isNamed_iff.2 ⟨key, hkey, v, (hsame key hkey).trans hv, hname⟩
    · rwa [admits, hsame key hkey]
  exact Bool.eq_iff_iff.2 ⟨hmono fun key hkey => (h key hkey).symm, hmono h⟩

/-! ### Excluding other names -/

variable {v : OptionValue}

theorem get?_exclude {key : String} (h : key ≠ "exclude-members") :
    (options.set "exclude-members" v).get? key = options.get? key := by
  rw [Table.get?_set, if_neg h.symm]

theorem ne_of_mem_listOptions {key : String} (h : key ∈ listOptions) : key ≠ "exclude-members" := by
  rintro rfl
  revert h
  decide

/-- **Excluding other names changes the list in the members of these names only.** -/
theorem exists_list_exclude (h : list root ignoreFiles path o parent options withGlobals = .ok ms)
    (hv : canExclude (options.set "exclude-members" v) = true) :
    ∃ ms', list root ignoreFiles path o parent (options.set "exclude-members" v) withGlobals =
        .ok ms' ∧
      ∀ m ∈ ms, m ∈ ms' ↔ isExcluded (options.set "exclude-members" v) m.name = false := by
  obtain ⟨order, horder, -, -⟩ := list_eq_ok_iff.1 h
  have hname : orderName o (options.set "exclude-members" v) = orderName o options :=
    orderName_congr (get?_exclude (by decide)) (get?_exclude (by decide))
  have hcandidates : candidates root path o (options.set "exclude-members" v) withGlobals =
      candidates root path o options withGlobals := candidates_congr (get?_exclude (by decide))
  rw [← hname] at horder
  obtain ⟨ms', hlist⟩ := exists_list_of_order horder hv
  refine ⟨ms', hlist, fun m hm => ?_⟩
  rw [mem_list_iff h, ← mem_candidates_iff, selected_eq, Bool.and_eq_true] at hm
  rw [mem_list_iff hlist, ← mem_candidates_iff, hcandidates, selected_eq,
    admitted_congr fun key hkey => get?_exclude (ne_of_mem_listOptions hkey), hm.2.2, Bool.and_true,
    Bool.not_eq_true']
  exact and_iff_right hm.1

end LuaDocs.Members
