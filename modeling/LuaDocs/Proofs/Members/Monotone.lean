import LuaDocs.Proofs.Members

/-!
# Asking for more members

Options say which members are listed. Where an option about members is set for the first time, or
its list of names gets longer, every member that was listed before is still listed, and those that
are listed keep their order. Where more names are excluded, members are taken from the list and
nothing else happens to it. The order that the options ask for decides on nothing but the order.
-/

namespace LuaDocs

/-- The value is a list of names. -/
def OptionValue.IsList (v : OptionValue) : Prop := ∃ items, v = .names items ∨ v = .nameSet items

namespace Members

variable {root o : Object} {ignoreFiles withGlobals : Bool} {path : List String}
  {parent : Option (List String)} {options options' : Options} {ms : List Member}

/-- The options differ in the values of the given keys only. -/
def SameBut (keys : List String) (options options' : Options) : Prop :=
  ∀ key, key ∉ keys → options'.get? key = options.get? key

theorem sameBut_set {keys : List String} {key : String} (h : key ∈ keys) (v : OptionValue) :
    SameBut keys options (options.set key v) := by
  intro other hother
  exact Table.get?_set_of_ne options v fun heq => hother (heq ▸ h)

/-- An option that was not there asks for everything or lists names, or its list gets longer. -/
structure Widens (key : String) (options options' : Options) : Prop where
  same : SameBut [key] options options'
  value : (options.get? key = none ∧ ∃ v, options'.get? key = some v ∧ (v = .all ∨ v.IsList)) ∨
    ∃ v v', options.get? key = some v ∧ options'.get? key = some v' ∧ v.IsList ∧ v'.IsList ∧
      v.items ⊆ v'.items

/-- The option excludes the given names; nothing is excluded if it is not there or has no value. -/
def Excludes (options : Options) (items : List String) : Prop :=
  match options.get? "exclude-members" with
  | none | some .all => items = []
  | some (.names names) | some (.nameSet names) => items = names
  | some _ => False

/-- More names are excluded. -/
structure ExcludesMore (options options' : Options) : Prop where
  same : SameBut ["exclude-members"] options options'
  names : ∃ items items', Excludes options items ∧ Excludes options' items' ∧ items ⊆ items'

/-- The options that decide on the order. -/
def orderOptions : List String := ["member-order", "module-member-order"]

/-! ### What is selected -/

/-- What lists names does not ask for everything. -/
theorem Widens.admits {key other : String} (h : Widens key options options')
    (hadmits : admits options other = true) : admits options' other = true := by
  by_cases heq : other = key
  · subst heq
    have hall : options.get? other = some .all := by simpa [Members.admits] using hadmits
    rcases h.value with ⟨hnone, -⟩ | ⟨v, v', hv, -, ⟨items, hlist⟩, -⟩
    · rw [hnone] at hall
      cases hall
    · rw [hv] at hall
      rcases hlist with rfl | rfl <;> cases hall
  · rwa [Members.admits, h.same other (by simpa using heq)]

theorem Widens.isNamed {key name : String} (h : Widens key options options')
    (hnamed : isNamed options name = true) : isNamed options' name = true := by
  obtain ⟨other, hother, v, hv, hname⟩ := isNamed_iff.1 hnamed
  by_cases heq : other = key
  · subst heq
    rcases h.value with ⟨hnone, -⟩ | ⟨w, w', hw, hw', -, -, hsub⟩
    · rw [hnone] at hv
      cases hv
    · obtain rfl : w = v := Option.some.inj (hw.symm.trans hv)
      exact isNamed_iff.2 ⟨other, hother, w', hw', hsub hname⟩
  · exact isNamed_iff.2
      ⟨other, hother, v, (h.same other (by simpa using heq)).trans hv, hname⟩

theorem Excludes.isExcluded_iff {items : List String} (h : Excludes options items)
    {name : String} : isExcluded options name = true ↔ name ∈ items := by
  unfold Excludes at h
  unfold isExcluded
  cases hv : options.get? "exclude-members" with
  | none =>
    rw [hv] at h
    simp [h]
  | some v => cases v <;> simp_all [covers, OptionValue.items]

theorem Excludes.canExclude {items : List String} (h : Excludes options items) :
    canExclude options = true := by
  unfold Excludes at h
  unfold Members.canExclude
  cases hv : options.get? "exclude-members" with
  | none => rfl
  | some v => cases v <;> simp_all

/-! ### How the list changes -/

/-- Where an option about members asks for more, nothing is taken from the list. -/
theorem exists_list_widens {key : String} (hkey : key ∈ listOptions)
    (hwidens : Widens key options options')
    (h : list root ignoreFiles path o parent options withGlobals = .ok ms) :
    ∃ ms', list root ignoreFiles path o parent options' withGlobals = .ok ms' ∧
      ms.Sublist ms' := by
  obtain ⟨order, horder, hexclude, rfl⟩ := list_eq_ok_iff.1 h
  have hother : ∀ other, other ∉ listOptions → options'.get? other = options.get? other := by
    intro other hout
    exact hwidens.same other fun hmem => hout (List.mem_singleton.1 hmem ▸ hkey)
  have hexcluded := hother "exclude-members" (by decide)
  have hcandidates : candidates root path o options' withGlobals =
      candidates root path o options withGlobals := candidates_congr (hother _ (by decide))
  refine ⟨_, list_eq_ok_iff.2 ⟨order, ?_, ?_, rfl⟩, ?_⟩
  · rwa [orderName_congr (hother _ (by decide)) (hother _ (by decide))]
  · rwa [hcandidates, canExclude_congr hexcluded]
  · rw [hcandidates]
    refine List.monotone_filter_right _ fun m hm => ?_
    rw [selected_eq, Bool.and_eq_true] at hm ⊢
    exact ⟨isExcluded_congr hexcluded ▸ hm.1,
      admitted_mono hwidens.isNamed (fun _ _ => hwidens.admits) hm.2⟩

/-- Where more names are excluded, nothing is added to the list. -/
theorem exists_list_excludesMore (hmore : ExcludesMore options options')
    (h : list root ignoreFiles path o parent options withGlobals = .ok ms) :
    ∃ ms', list root ignoreFiles path o parent options' withGlobals = .ok ms' ∧
      ms'.Sublist ms := by
  obtain ⟨order, horder, -, rfl⟩ := list_eq_ok_iff.1 h
  obtain ⟨items, items', hitems, hitems', hsub⟩ := hmore.names
  have hother : ∀ other, other ≠ "exclude-members" → options'.get? other = options.get? other :=
    fun other hne => hmore.same other fun hmem => hne (List.mem_singleton.1 hmem)
  refine ⟨_, list_eq_ok_iff.2 ⟨order, ?_, .inr hitems'.canExclude, rfl⟩, ?_⟩
  · rwa [orderName_congr (hother _ (by decide)) (hother _ (by decide))]
  · rw [candidates_congr (hother _ (by decide))]
    refine List.monotone_filter_right _ fun m hm => ?_
    rw [selected_eq, Bool.and_eq_true, Bool.not_eq_true', Bool.eq_false_iff, ne_eq,
      hitems'.isExcluded_iff] at hm
    rw [selected_eq, Bool.and_eq_true, Bool.not_eq_true', Bool.eq_false_iff, ne_eq,
      hitems.isExcluded_iff]
    refine ⟨fun hmem => hm.1 (hsub hmem), ?_⟩
    rw [← hm.2]
    exact (admitted_congr fun key hkey => hother key (ne_of_mem_listOptions hkey)).symm

/-- Where another order is asked for, the same members are listed. -/
theorem exists_list_reordered {order' : Order} (hsame : SameBut orderOptions options options')
    (horder' : Order.ofName? (orderName o options') = some order')
    (h : list root ignoreFiles path o parent options withGlobals = .ok ms) :
    ∃ ms', list root ignoreFiles path o parent options' withGlobals = .ok ms' ∧ ms'.Perm ms := by
  obtain ⟨order, -, hexclude, rfl⟩ := list_eq_ok_iff.1 h
  have hexcluded := hsame "exclude-members" (by decide)
  have hcandidates : candidates root path o options' withGlobals =
      candidates root path o options withGlobals := candidates_congr (hsame _ (by decide))
  have hselected : selected options' (inheritedNames root parent) =
      selected options (inheritedNames root parent) := by
    funext m
    rw [selected_eq, selected_eq, isExcluded_congr hexcluded, admitted_congr]
    intro key hkey
    refine hsame key fun hmem => ?_
    simp only [orderOptions, List.mem_cons, List.not_mem_nil, or_false] at hmem
    rcases hmem with rfl | rfl
    all_goals
      revert hkey
      decide
  refine ⟨_, list_eq_ok_iff.2 ⟨order', horder', ?_, rfl⟩, ?_⟩
  · rwa [hcandidates, canExclude_congr hexcluded]
  · rw [hcandidates, hselected]
    exact ((List.mergeSort_perm _ _).trans (List.mergeSort_perm _ _).symm).filter _

/-- **How the list of members changes with the options.** Where an option about members is set for
the first time or its list gets longer, the old list is a part of the new one, in the same order.
Where more names are excluded, the new list is a part of the old one. Where only the order is
another one, the members are the same. -/
theorem list_monotone (h : list root ignoreFiles path o parent options withGlobals = .ok ms)
    (options' : Options) :
    (∀ key ∈ listOptions, Widens key options options' →
      ∃ ms', list root ignoreFiles path o parent options' withGlobals = .ok ms' ∧
        ms.Sublist ms') ∧
    (ExcludesMore options options' →
      ∃ ms', list root ignoreFiles path o parent options' withGlobals = .ok ms' ∧
        ms'.Sublist ms) ∧
    (SameBut orderOptions options options' →
      ∀ order, Order.ofName? (orderName o options') = some order →
        ∃ ms', list root ignoreFiles path o parent options' withGlobals = .ok ms' ∧
          ms'.Perm ms) :=
  ⟨fun _ hkey hwidens => exists_list_widens hkey hwidens h,
    fun hmore => exists_list_excludesMore hmore h,
    fun hsame _ horder => exists_list_reordered hsame horder h⟩

/-- An object with two members without documentation. -/
def undocumentedPair : Object :=
  ⟨.unknown false, .bare, [("a", .unknown false), ("b", .unknown false)]⟩

/-- One of the two members is listed by its name. -/
def onlyFirst : Options := [("members", .names ["a"])]

theorem undocumentedPair_monotone : ∃ ms,
    list undocumentedPair false [] undocumentedPair none onlyFirst false = .ok ms ∧
      (∃ ms', list undocumentedPair false [] undocumentedPair none
        (onlyFirst.set "members" (.nameSet ["b", "a"])) false = .ok ms' ∧ ms.Sublist ms' ∧
          ⟨"b", ["b"], .unknown false⟩ ∉ ms ∧ ⟨"b", ["b"], .unknown false⟩ ∈ ms') ∧
      (∃ ms', list undocumentedPair false [] undocumentedPair none
        (onlyFirst.set "exclude-members" (.names ["a"])) false = .ok ms' ∧ ms'.Sublist ms) ∧
      ∃ ms', list undocumentedPair false [] undocumentedPair none
        (onlyFirst.set "member-order" (.text "groupwise")) false = .ok ms' ∧ ms'.Perm ms := by
  have hordered : Order.ofName? (orderName undocumentedPair onlyFirst) = some .bySource := by
    decide +kernel
  obtain ⟨ms, hlist⟩ : ∃ ms, list undocumentedPair false [] undocumentedPair none onlyFirst false =
    .ok ms := exists_list_of_order hordered rfl
  refine ⟨ms, hlist, ?_, ?_, ?_⟩
  · obtain ⟨ms', hlist', hsub⟩ := (list_monotone hlist (onlyFirst.set "members"
      (.nameSet ["b", "a"]))).1 "members" (by decide) ⟨sameBut_set (by decide) _, .inr
        ⟨_, _, rfl, rfl, ⟨_, .inl rfl⟩, ⟨_, .inr rfl⟩, by decide⟩⟩
    refine ⟨ms', hlist', hsub, fun hmem => ?_, (mem_list_iff hlist').2 ⟨.inl (mem_children_iff.2
      ⟨_, List.mem_cons_of_mem _ List.mem_cons_self, rfl⟩), by decide +kernel⟩⟩
    have hselected := ((mem_list_iff hlist).1 hmem).2
    revert hselected
    decide +kernel
  · exact (list_monotone hlist _).2.1
      ⟨sameBut_set (by decide) _, [], ["a"], rfl, rfl, List.nil_subset _⟩
  · exact (list_monotone hlist _).2.2 (sameBut_set (by decide) _) .groupwise (by decide +kernel)

end Members

end LuaDocs
