import LuaDocs.Proofs.Apidoc.Addresses
import LuaDocs.Proofs.Apidoc.Pages
import LuaDocs.Proofs.Bracket.Pieces
import LuaDocs.Proofs.Members

/-!
# Members that stay on the page of a module

The page of a module tells its directive by name which members to leave out: those that were
excluded before, and those that have a page of their own or are ignored. The names are printed as a
list, which the directive reads again.

A member stays on the page exactly if the names that are read do not contain its own. If all names
can stand in a list, this means that no member of its name gets a page or is ignored. So what is
described neither on the page nor on a page of its own is a member that has its name in common with
one that was taken from the page, such as a global called like a submodule.

## Main results

* `OptionValue.ofList_intercalate`: a list of names that is printed and read again
* `Apidoc.Layout.exists_excluded`: the names that are printed
* `Apidoc.kept_iff`: the members that stay on the page
-/

namespace LuaDocs

open Text

/-! ### Lists of names that are printed and read again -/

/-- The name can stand in a list of names: all brackets in it are closed, no comma stands outside of
them, it does not start with a plus sign, and there are no blanks at its ends. -/
structure Name.IsItem (name : String) : Prop where
  level : Bracket.Level name.toList
  whole : Bracket.unstopped (Bracket.separates ',') .start name.toList = true
  trimmed : trim name.toList = name.toList
  nonempty : name.toList ≠ []
  unsigned : name.toList.head? ≠ some '+'

/-- What is read is a list of names, unless there are none. -/
theorem OptionValue.ofList_cases (value : Option String) :
    ofList value = .all ∨ ∃ items, ofList value = .names items := by
  unfold ofList
  split
  · exact .inl rfl
  · split
    · exact .inr ⟨_, rfl⟩
    · exact .inr ⟨_, rfl⟩

/-- Names that can stand in a list are read as they were printed. -/
theorem OptionValue.ofList_intercalate {items : List String} (hne : items ≠ [])
    (h : ∀ name ∈ items, Name.IsItem name) :
    ofList (some (", ".intercalate items)) = .names items := by
  have htext : (", ".intercalate items).toList =
      [',', ' '].intercalate (items.map String.toList) := by
    rw [String.toList_intercalate]
    rfl
  have hitems : ∀ t ∈ items.map String.toList, trim t = t ∧ t ≠ [] := by
    intro t ht
    obtain ⟨name, hname, rfl⟩ := List.mem_map.1 ht
    exact ⟨(h name hname).trimmed, (h name hname).nonempty⟩
  have hsplit : Bracket.split ',' (", ".intercalate items).toList = items.map String.toList := by
    rw [htext, Bracket.split_intercalate_eq_iff (by decide) (by decide)]
    · intro t ht
      obtain ⟨name, hname, rfl⟩ := List.mem_map.1 ht
      exact (h name hname).whole
    · intro t ht
      obtain ⟨name, hname, rfl⟩ := List.mem_map.1 ht
      exact ⟨(h name hname).level, (h name hname).trimmed, (h name hname).nonempty⟩
  have hhead : (", ".intercalate items).toList ≠ [] ∧
      (", ".intercalate items).toList.head? ≠ some '+' := by
    obtain ⟨first, rest, rfl⟩ := List.exists_cons_of_ne_nil hne
    obtain ⟨c, cs, hfirst⟩ :=
      List.exists_cons_of_ne_nil (h first List.mem_cons_self).nonempty
    have hplus := (h first List.mem_cons_self).unsigned
    rw [hfirst] at hplus
    rw [htext, List.map_cons, hfirst]
    cases rest <;> simpa [List.intercalate] using hplus
  have hfilter : (some (", ".intercalate items)).filter (fun s => !s.isEmpty) =
      some (", ".intercalate items) := by
    have hnonempty : ", ".intercalate items ≠ "" := fun hempty =>
      hhead.1 (String.toList_eq_nil_iff.2 hempty)
    rw [Option.filter_some, if_pos (by simpa using hnonempty)]
  unfold ofList
  rw [hfilter]
  dsimp only
  rw [htext, trim_intercalate hitems, ← htext]
  split
  · next r heq =>
    rw [heq] at hhead
    exact absurd rfl hhead.2
  · rw [hsplit, List.map_map]
    simp

namespace Members

variable {options : Options}

/-- A list of names that is read can be asked for names. -/
theorem canExclude_ofList (options : Options) (value : Option String) :
    canExclude (options.set "exclude-members" (.ofList value)) = true := by
  rw [canExclude, Table.get?_set_self]
  rcases OptionValue.ofList_cases value with hall | ⟨items, hnames⟩
  · rw [hall]
  · rw [hnames]

/-- Names that can stand in a list exclude the same members after they were printed and read. -/
theorem isExcluded_printed {items : List String} (h : ∀ name ∈ items, Name.IsItem name)
    (name : String) :
    isExcluded (options.set "exclude-members" (.ofList (some (", ".intercalate items.mergeSort))))
      name = items.contains name := by
  rw [isExcluded, Table.get?_set_self]
  by_cases hne : items = []
  · rw [hne, List.mergeSort_nil]
    rfl
  · have hsorted : items.mergeSort ≠ [] := by
      rw [ne_eq, ← List.length_eq_zero_iff, List.length_mergeSort, List.length_eq_zero_iff]
      exact hne
    rw [OptionValue.ofList_intercalate hsorted fun n hn => h n (List.mem_mergeSort.1 hn)]
    show items.mergeSort.contains name = items.contains name
    rw [Bool.eq_iff_iff, List.contains_iff_mem, List.contains_iff_mem, List.mem_mergeSort]

end Members

namespace Apidoc

variable {tree : Object} {ignoreFiles deeper isGlobal : Bool} {s : Settings}
  {parentModule : Option String} {fullname : String}

/-! ### The names that are printed -/

/-- The names that are excluded are listed, in some order or in none. -/
theorem exclusions_cases {options : Options} {start : OptionValue}
    (h : exclusions options = .ok start) :
    (start = .names start.items ∨ start = .nameSet start.items) ∧
      ∀ name, Members.isExcluded options name = start.items.contains name := by
  unfold exclusions at h
  unfold Members.isExcluded
  split at h
  · next hnone =>
    obtain rfl := Except.ok.inj h
    rw [hnone]
    exact ⟨.inr rfl, fun _ => rfl⟩
  · next hall =>
    obtain rfl := Except.ok.inj h
    rw [hall]
    exact ⟨.inr rfl, fun _ => rfl⟩
  · next items hitems =>
    obtain rfl := Except.ok.inj h
    rw [hitems]
    exact ⟨.inl rfl, fun _ => rfl⟩
  · next items hitems =>
    obtain rfl := Except.ok.inj h
    rw [hitems]
    exact ⟨.inr rfl, fun _ => rfl⟩
  · cases h

/-- The names that are printed are those that were excluded before, and those of the members that
are not described on the page. -/
theorem Layout.exists_excluded (l : Layout tree ignoreFiles s deeper fullname) :
    ∃ items : List String, optionText l.division.excluded = ", ".intercalate items.mergeSort ∧
      ∀ name, name ∈ items ↔ name ∈ l.start.items ∨
        ∃ m ∈ l.members, separates s m = true ∧ m.name = name := by
  rcases excluded_cases l.divided with ⟨hnone, hsame⟩ | ⟨items, items', hitems, hitems', hmem⟩
  · refine ⟨l.start.items, ?_, fun name => ⟨.inl, fun hor => hor.resolve_right ?_⟩⟩
    · rw [hsame]
      rcases (exclusions_cases l.started).1 with hnames | hnames
      · rw [hnames]
        rfl
      · rw [hnames]
        rfl
    · rintro ⟨m, hm, hsep, -⟩
      rw [hnone m hm] at hsep
      cases hsep
  · refine ⟨items', by rw [hitems']; rfl, fun name => ?_⟩
    have hstart : l.start = .nameSet items := hitems
    rw [hmem, hstart]
    rfl

theorem Layout.get?_excluded (l : Layout tree ignoreFiles s deeper fullname) (isGlobal : Bool)
    (parentModule : Option String) :
    (l.page isGlobal parentModule).options.get? "exclude-members" =
      some (optionText l.division.excluded) := by
  have hrow : Table.get? ((l.options.set "exclude-members" l.division.excluded).map
      fun row => (row.1, optionText row.2)) "exclude-members" =
        some (optionText l.division.excluded) := by
    rw [Table.get?_mapRows, Table.get?_set_self]
    rfl
  rw [Layout.page]
  dsimp only
  split
  · rw [Table.get?_set, if_neg (by decide), Table.get?_set, if_neg (by decide), hrow]
  · exact hrow

/-! ### Members that stay -/

variable {members : List Member}

/-- The members of a module are those that were divided, if it was divided at all. -/
theorem Layout.exists_mem_members (l : Layout tree ignoreFiles s deeper fullname)
    (hkind : l.object.kind? = some .module_)
    (h : Members.list tree ignoreFiles (splitString '.' fullname) l.object none l.options true =
      .ok members) (P : Member → Prop) :
    (∃ m ∈ l.members, P m) ↔ deeper = true ∧ ∃ m ∈ members, P m := by
  have hlisted := l.listed
  cases deeper with
  | false =>
    rw [if_neg (by simp)] at hlisted
    simp [hlisted]
  | true =>
    rw [if_pos (by simp [hkind]), h] at hlisted
    rw [Except.ok.inj hlisted]
    simp

/-- In a module without globals members have names of their own. -/
theorem Layout.eq_of_name (l : Layout tree ignoreFiles s deeper fullname) (hkeyed : tree.Keyed)
    (hglobals : l.options.get? "globals" = none)
    (h : Members.list tree ignoreFiles (splitString '.' fullname) l.object none l.options true =
      .ok members) {m m' : Member} (hm : m ∈ members) (hm' : m' ∈ members)
    (hname : m'.name = m.name) : m' = m := by
  have hchild : ∀ m ∈ members, ∃ c ∈ l.object.children,
      m = ⟨c.1, splitString '.' fullname ++ [c.1], c.2⟩ := by
    intro m hm
    rcases ((Members.mem_list_iff h).1 hm).1 with hchild | ⟨-, hglobal⟩
    · exact Members.mem_children_iff.1 hchild
    · rw [Members.globals, hglobals] at hglobal
      cases hglobal
  obtain ⟨c, hc, rfl⟩ := hchild m hm
  obtain ⟨c', hc', rfl⟩ := hchild m' hm'
  rw [List.inj_on_of_nodup_map (hkeyed _ _ l.at?_object) hc' hc hname]

/-- The names that can be printed on the page of a module can stand in a list. -/
structure Layout.Printable (l : Layout tree ignoreFiles s deeper fullname)
    (members : List Member) : Prop where
  excluded : ∀ name ∈ l.start.items, Name.IsItem name
  taken : ∀ m ∈ members, separates s m = true → Name.IsItem m.name

/-- Members are listed again if the names that are printed do not contain theirs: where names can
stand in a list, if no member of their name is taken from the page. -/
theorem Layout.stays_iff (l : Layout tree ignoreFiles s deeper fullname)
    (hkind : l.object.kind? = some .module_)
    (h : Members.list tree ignoreFiles (splitString '.' fullname) l.object none l.options true =
      .ok members) (hprintable : l.Printable members) {m : Member} (hm : m ∈ members) :
    Members.isExcluded (l.options.set "exclude-members"
        (.ofList (some (optionText l.division.excluded)))) m.name = false ↔
      (deeper = true → ∀ m' ∈ members, separates s m' = true → m'.name ≠ m.name) := by
  obtain ⟨items, htext, hitems⟩ := l.exists_excluded
  have hitem : ∀ name ∈ items, Name.IsItem name := by
    intro name hname
    rcases (hitems name).1 hname with hbefore | htaken
    · exact hprintable.excluded name hbefore
    · rw [l.exists_mem_members hkind h] at htaken
      obtain ⟨-, m', hm', hsep, rfl⟩ := htaken
      exact hprintable.taken m' hm' hsep
  -- a member that is listed was not excluded before
  have hbefore : m.name ∉ l.start.items := by
    have hselected := ((Members.mem_list_iff h).1 hm).2
    rw [Members.selected_eq, Bool.and_eq_true, Bool.not_eq_true',
      (exclusions_cases l.started).2] at hselected
    simpa using hselected.1
  rw [htext, Members.isExcluded_printed hitem, List.contains_eq_mem, decide_eq_false_iff_not,
    hitems, or_iff_right hbefore, l.exists_mem_members hkind h]
  simp only [not_and, not_exists, ne_eq]

/-- The member is accounted for: it stays on the page of the module, or has a page of its own that
this page lists, or is ignored. -/
def Accounted (s : Settings) (fullname : String) (page : Page) (kept : List Member)
    (m : Member) : Prop :=
  m ∈ kept ∨ childName fullname m ∈ page.below ∨ isIgnored s (childName fullname m) = true

/-- The members `kept` are what is left of the members of a module on its page, where the names that
are printed on the page are excluded. -/
structure Layout.Keeps (l : Layout tree ignoreFiles s deeper fullname) (page : Page)
    (printed : String) (members kept : List Member) : Prop where
  listed : Members.list tree ignoreFiles (splitString '.' fullname) l.object none
    (l.options.set "exclude-members" (.ofList (some printed))) true = .ok kept
  mem_iff : ∀ m ∈ members, m ∈ kept ↔ Members.isExcluded
    (l.options.set "exclude-members" (.ofList (some printed))) m.name = false
  paged : deeper = true → ∀ m ∈ members, separates s m = true →
    childName fullname m ∈ page.below ∨ isIgnored s (childName fullname m) = true
  accounted_iff : l.Printable members → ∀ m ∈ members, Accounted s fullname page kept m ↔
    (deeper = true → ∀ m' ∈ members, separates s m' = true → m'.name ≠ m.name) ∨
    childName fullname m ∈ page.below ∨ isIgnored s (childName fullname m) = true
  /-- No member is lost if all members of its name are taken from the page or none is. -/
  accounted : l.Printable members → ∀ m ∈ members,
    (∀ m' ∈ members, m'.name = m.name → separates s m' = separates s m) →
    Accounted s fullname page kept m
  /-- Without globals no member is lost. -/
  accounted_of_keyed : l.Printable members → tree.Keyed → l.options.get? "globals" = none →
    ∀ m ∈ members, Accounted s fullname page kept m

/-- **A member of a module is lost exactly if its name is that of a member that was taken from the
page, and it neither has a page of its own nor is ignored.** This is about the members that are
listed when the names that are printed on the page are excluded, for names that can stand in a list;
in general what stays depends on the names that are read. -/
theorem kept_iff {page : Page} {below : Table Bool}
    (h : pageOf tree ignoreFiles s deeper isGlobal parentModule fullname = .ok (page, below)) :
    ∃ l : Layout tree ignoreFiles s deeper fullname, page = l.page isGlobal parentModule ∧
      ∃ printed, page.options.get? "exclude-members" = some printed ∧
      ∀ members, l.object.kind? = some .module_ →
        Members.list tree ignoreFiles (splitString '.' fullname) l.object none l.options true =
          .ok members →
        ∃ kept, l.Keeps page printed members kept := by
  obtain ⟨l, rfl, -⟩ := exists_layout h
  refine ⟨l, rfl, _, l.get?_excluded isGlobal parentModule, fun members hkind hlist => ?_⟩
  obtain ⟨kept, hkept, hmem⟩ :=
    Members.exists_list_exclude hlist (Members.canExclude_ofList l.options _)
  have hpaged : deeper = true → ∀ m ∈ members, separates s m = true →
      childName fullname m ∈ (l.page isGlobal parentModule).below ∨
        isIgnored s (childName fullname m) = true := by
    intro hdeeper m hm hsep
    cases hignored : isIgnored s (childName fullname m) with
    | true => exact .inr rfl
    | false =>
      refine .inl ((mem_keys_below_iff l.divided).2 (.inr ?_))
      rw [l.exists_mem_members hkind hlist]
      exact ⟨hdeeper, m, hm, hsep, rfl, hignored⟩
  have haccounted : l.Printable members →
      ∀ m ∈ members, Accounted s fullname (l.page isGlobal parentModule) kept m ↔
        (deeper = true → ∀ m' ∈ members, separates s m' = true → m'.name ≠ m.name) ∨
        childName fullname m ∈ (l.page isGlobal parentModule).below ∨
          isIgnored s (childName fullname m) = true := by
    intro hprintable m hm
    rw [Accounted, hmem m hm, l.stays_iff hkind hlist hprintable hm]
  have hsame : l.Printable members → ∀ m ∈ members,
      (∀ m' ∈ members, m'.name = m.name → separates s m' = separates s m) →
        Accounted s fullname (l.page isGlobal parentModule) kept m := by
    intro hprintable m hm hsame
    rw [haccounted hprintable m hm]
    by_cases htaken : deeper = true ∧ separates s m = true
    · exact .inr (hpaged htaken.1 m hm htaken.2)
    · refine .inl fun hdeeper m' hm' hsep hname => htaken ⟨hdeeper, ?_⟩
      rw [← hsame m' hm' hname, hsep]
  refine ⟨kept, hkept, hmem, hpaged, haccounted, hsame,
    fun hprintable hkeyed hglobals m hm => hsame hprintable m hm fun m' hm' hname => ?_⟩
  rw [l.eq_of_name hkeyed hglobals hlist hm hm' hname]

/-- A global `x` that is defined in the file of the module `m`. -/
def sharedGlobal : Object :=
  ⟨{ Object.Details.unknown false with files := [⟨"", ["m.lua"]⟩], toplevel := true },
    .data none none, []⟩

/-- The module `m` with a submodule `x`. -/
def sharedModule : Object :=
  ⟨{ Object.Details.unknown false with files := [⟨"", ["m.lua"]⟩] }, .bare,
    [("x", ⟨.unknown false, .bare, []⟩)]⟩

/-- The global and the submodule have one name. -/
def sharedTree : Object := ⟨.unknown false, .bare, [("m", sharedModule), ("x", sharedGlobal)]⟩

/-- Submodules get pages, and globals are described with modules. -/
def sharedSettings : Settings :=
  { pageSettings with
    options := ("globals", .all) :: pageSettings.options
    separateMembers := false }

theorem isItem_x : Name.IsItem "x" :=
  ⟨rfl, by decide, by decide, by decide, by decide⟩

/-- The global and the submodule are listed, and only the submodule is taken from the page. -/
theorem exists_sharedLayout : ∃ l : Layout sharedTree false sharedSettings true "m",
    l.object = sharedModule ∧ l.start = .nameSet [] ∧
      ⟨"x", ["x"], sharedGlobal⟩ ∈ l.members ∧
      (∃ m ∈ l.members, separates sharedSettings m = true) ∧
      ∀ m ∈ l.members, separates sharedSettings m = true →
        m.name = "x" ∧ childName "m" m = "m.x" := by
  obtain ⟨members, hlist⟩ : ∃ members, Members.list sharedTree false (splitString '.' "m")
      sharedModule none sharedSettings.options true = .ok members :=
    ⟨_, Members.list_eq_ok_iff.2 ⟨.bySource, by decide +kernel, .inr (by decide +kernel), rfl⟩⟩
  obtain ⟨division, hdivided⟩ := exists_divided (s := sharedSettings) "m" members [] []
  have hmem := fun m => Members.mem_list_iff (m := m) hlist
  have hglobals : Members.globals sharedTree sharedModule sharedSettings.options =
      [⟨"x", ["x"], sharedGlobal⟩] := by rfl
  refine ⟨⟨sharedModule, sharedSettings.options, members, .nameSet [], division, rfl, rfl, rfl,
    hlist, hdivided⟩, rfl, rfl, ?_,
    ⟨⟨"x", splitString '.' "m" ++ ["x"], ⟨.unknown false, .bare, []⟩⟩, ?_, rfl⟩,
    fun m hm hsep => ?_⟩
  · rw [hmem, hglobals]
    exact ⟨.inr ⟨rfl, List.mem_singleton_self _⟩, by decide +kernel⟩
  · rw [hmem]
    exact ⟨.inl (List.mem_singleton_self _), by decide +kernel⟩
  · rw [hmem, hglobals] at hm
    rcases hm.1 with hchild | ⟨-, hglobal⟩
    · rw [List.mem_singleton.1 hchild]
      exact ⟨rfl, by decide +kernel⟩
    · rw [List.mem_singleton.1 hglobal] at hsep
      exact absurd hsep (by decide +kernel)

/-- A global is lost that is called like a submodule. -/
theorem lost_global :
    ∃ page below, pageOf sharedTree false sharedSettings true false none "m" = .ok (page, below) ∧
      ∃ l : Layout sharedTree false sharedSettings true "m", page = l.page false none ∧
        ∃ printed kept, page.options.get? "exclude-members" = some printed ∧
          Members.list sharedTree false (splitString '.' "m") l.object none
            (l.options.set "exclude-members" (.ofList (some printed))) true = .ok kept ∧
          ⟨"x", ["x"], sharedGlobal⟩ ∈ l.members ∧
          ¬ Accounted sharedSettings "m" page kept ⟨"x", ["x"], sharedGlobal⟩ := by
  obtain ⟨l', hobject, hstart, hglobal, ⟨m, hm, hsep⟩, hmodules⟩ := exists_sharedLayout
  have hok := pageOf_of_layout l' false none
  obtain ⟨l, hpage, printed, hprinted, hall⟩ := kept_iff hok
  obtain rfl : l = l' := l.unique l'
  have hkind : l.object.kind? = some .module_ := by rw [hobject]; rfl
  have hlist := l.listed
  rw [if_pos (by simp [hkind])] at hlist
  obtain ⟨kept, hkept⟩ := hall l.members hkind hlist
  refine ⟨_, _, hok, l, rfl, printed, kept, hprinted, hkept.listed, hglobal, ?_⟩
  have hprintable : l.Printable l.members := by
    refine ⟨by rw [hstart]; exact List.forall_mem_nil _, fun m hm hsep => ?_⟩
    rw [(hmodules m hm hsep).1]
    exact isItem_x
  rw [hkept.accounted_iff hprintable _ hglobal, not_or, not_or]
  refine ⟨fun hnone => hnone rfl m hm hsep (hmodules m hm hsep).1, fun hbelow => ?_,
    by decide +kernel⟩
  rcases (mem_keys_below_iff l.divided).1 hbelow with hnone | ⟨m', hm', hsep', hchild, -⟩
  · cases hnone
  · rw [(hmodules m' hm' hsep').2] at hchild
    exact absurd hchild (by decide +kernel)

end Apidoc

end LuaDocs
