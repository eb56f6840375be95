import LuaDocs.Proofs.Apidoc.Directory
import LuaDocs.Proofs.Apidoc.Kept
import LuaDocs.Proofs.Config.Roots

/-!
# When a run ends well

A run ends well exactly if every page that is asked for can be made, and nothing lies deeper in the
directory than the files of the pages. A page is asked for if it is the first one, or listed on a
page that is asked for and can be made.

With the options of a configuration, there are three reasons why a page cannot be made: there is no
object of its name, the documentation of the object sets an option that cannot be set, or names are
excluded by a list and a member of a module would have to be added to it. A list that was given
cannot be changed, not even if it is empty. In a tree whose names have no dots, whose globals are
marked as such and whose documentation sets options that can be set, only the last reason remains.

## Main results

* `Apidoc.exists_pages_iff`: a run ends well if all pages that are asked for can be made
* `Apidoc.nonempty_layout_iff`: the reasons why a page cannot be made
* `Apidoc.completes_iff`: when a run ends well
-/

namespace LuaDocs

open Text

/-! ### Options with which members can be listed -/

namespace Options

/-- The options that decide which members are excluded and in which order members are listed. -/
def listing : List String := ["exclude-members", "member-order", "module-member-order"]

/-- The options that decide how members are listed have values that were read for them. -/
def Listable (o : Options) : Prop :=
  ∀ key ∈ listing, ∀ v, o.get? key = some v →
    ∃ c text, autoSpec.get? key = some c ∧ c.read text = .ok v

variable {o o' : Options} {key : String} {v : OptionValue}

theorem Listable.setDefault (h : Listable o) (hkey : key ∉ listing) (v : OptionValue) :
    Listable (o.setDefault key v) := by
  intro k hk w hw
  have hne : key ≠ k := fun heq => hkey (heq ▸ hk)
  rw [Table.get?_setDefault_of_ne o v hne] at hw
  exact h k hk w hw

/-- What the documentation of an object sets is added if it can be read. -/
theorem addSetting_eq_ok_iff {object : String} {row : String × String} :
    o.addSetting object row = .ok o' ↔
      ∃ c v, autoSpec.get? row.1 = some c ∧ c.read (some row.2) = .ok v ∧ o' = o.set row.1 v := by
  constructor
  · intro h
    unfold Options.addSetting at h
    split at h
    · cases h
    · next c hc =>
      split at h
      · next v hv => exact ⟨c, v, hc, hv, (Except.ok.inj h).symm⟩
      · cases h
  · rintro ⟨c, v, hc, hv, rfl⟩
    rw [Options.addSetting, hc]
    dsimp only
    rw [hv]

theorem Listable.addSetting {object : String} {row : String × String} (h : Listable o)
    (hrow : o.addSetting object row = .ok o') : Listable o' := by
  obtain ⟨c, v, hc, hv, rfl⟩ := addSetting_eq_ok_iff.1 hrow
  intro k hk w hw
  rw [Table.get?_set] at hw
  split at hw
  · next heq =>
    rw [← heq, ← Option.some.inj hw]
    exact ⟨c, some row.2, hc, hv⟩
  · exact h k hk w hw

/-- Members are excluded by a list that was given, or not at all. -/
theorem Listable.excluded (h : Listable o) : o.get? "exclude-members" = none ∨
    o.get? "exclude-members" = some .all ∨
    ∃ items, o.get? "exclude-members" = some (.names items) := by
  have hspec : autoSpec.get? "exclude-members" = some .names := by decide +kernel
  cases hv : o.get? "exclude-members" with
  | none => exact .inl rfl
  | some v =>
    obtain ⟨c, text, hc, hread⟩ := h _ (by decide) v hv
    obtain rfl : Converter.names = c := Option.some.inj (hspec.symm.trans hc)
    obtain rfl : OptionValue.ofList text = v := Except.ok.inj hread
    rcases OptionValue.ofList_cases text with hall | ⟨items, hitems⟩
    · exact .inr (.inl (congrArg some hall))
    · exact .inr (.inr ⟨items, congrArg some hitems⟩)

/-- An order that is given is one of the words that exist. -/
theorem Listable.mem_memberOrders (h : Listable o)
    (hkey : key ∈ ["member-order", "module-member-order"]) {w : String}
    (hw : ((o.get? key).filter OptionValue.isTrue).map OptionValue.shown = some w) :
    w ∈ memberOrders := by
  have hspec : ∀ key ∈ ["member-order", "module-member-order"],
      key ∈ listing ∧ autoSpec.get? key = some (.choice memberOrders) := by
    decide +kernel
  obtain ⟨v, hv, rfl⟩ := Option.map_eq_some_iff.1 hw
  obtain ⟨c, text, hc, hread⟩ := h key (hspec key hkey).1 v (Option.filter_eq_some_iff.1 hv).1
  obtain rfl := Option.some.inj ((hspec key hkey).2.symm.trans hc)
  cases text with
  | none => cases hread
  | some text =>
    unfold Converter.read at hread
    dsimp only at hread
    split at hread
    · next hword =>
      rw [← Except.ok.inj hread]
      exact List.contains_iff_mem.1 hword
    · cases hread

/-- The order in which members are listed exists. -/
theorem Listable.exists_order (h : Listable o) (x : Object) :
    ∃ order, Members.Order.ofName? (Members.orderName x o) = some order := by
  have hgetD : ∀ key ∈ ["member-order", "module-member-order"], ∀ default ∈ memberOrders,
      (((o.get? key).filter OptionValue.isTrue).map OptionValue.shown).getD default ∈
        memberOrders := by
    intro key hkey default hdefault
    cases hw : ((o.get? key).filter OptionValue.isTrue).map OptionValue.shown with
    | none => exact hdefault
    | some w => exact h.mem_memberOrders hkey hw
  have hname : Members.orderName x o ∈ memberOrders := by
    have hmember := hgetD "member-order" (by decide) "bysource" (by decide)
    unfold Members.orderName
    dsimp only
    split
    · exact hgetD "module-member-order" (by decide) _ hmember
    · exact hmember
  have hall : ∀ name ∈ memberOrders, (Members.Order.ofName? name).isSome = true := by decide
  exact Option.isSome_iff_exists.1 (hall _ hname)

end Options

/-- Members can be listed. -/
theorem Members.exists_list {o : Options} (h : o.Listable) (root : Object) (ignoreFiles : Bool)
    (path : List String) (x : Object) (parent : Option (List String)) (withGlobals : Bool) :
    ∃ ms, list root ignoreFiles path x parent o withGlobals = .ok ms := by
  obtain ⟨order, horder⟩ := h.exists_order x
  refine ⟨_, list_eq_ok_iff.2 ⟨order, horder, .inr ?_, rfl⟩⟩
  unfold canExclude
  rcases h.excluded with hnone | hall | ⟨items, hnames⟩
  · rw [hnone]
  · rw [hall]
  · rw [hnames]

/-! ### What the documentation of an object sets -/

/-- All that the documentation of the object sets can be set. -/
def Object.Settable (x : Object) : Prop :=
  ∀ row ∈ x.reading.options, ∃ c v, Options.autoSpec.get? row.1 = some c ∧
    c.read (some row.2) = .ok v

/-- The options of the documentation can be added exactly if all of them can be set. -/
theorem Object.settable_iff {x : Object} (o : Options) (name : String) :
    x.Settable ↔ ∃ o', x.reading.options.foldlM (Options.addSetting name) o = .ok o' := by
  unfold Object.Settable
  induction x.reading.options generalizing o with
  | nil => exact iff_of_true (List.forall_mem_nil _) ⟨o, rfl⟩
  | cons row rows ih =>
    rw [List.forall_mem_cons, List.foldlM_cons]
    constructor
    · rintro ⟨⟨c, v, hc, hv⟩, hrows⟩
      rw [Except.bind_of_ok (Options.addSetting_eq_ok_iff.2 ⟨c, v, hc, hv, rfl⟩)]
      exact (ih _).1 hrows
    · rintro ⟨o', h⟩
      obtain ⟨o₁, hrow, hrows⟩ := Except.ok_of_bind h
      obtain ⟨c, v, hc, hv, -⟩ := Options.addSetting_eq_ok_iff.1 hrow
      exact ⟨⟨c, v, hc, hv⟩, (ih _).2 ⟨o', hrows⟩⟩

namespace Apidoc

variable {tree : Object} {ignoreFiles deeper : Bool} {s : Settings} {fullname : String}

/-! ### Why a page cannot be made -/

/-- A member of the module would have to be added to a list of names that was given. -/
def Blocked (tree : Object) (ignoreFiles : Bool) (s : Settings) (deeper : Bool)
    (fullname : String) : Prop :=
  deeper = true ∧ ∃ object options items members,
    findObject tree fullname = .ok object ∧ object.kind? = some .module_ ∧
    object.reading.options.foldlM (Options.addSetting fullname) s.options = .ok options ∧
    options.get? "exclude-members" = some (.names items) ∧
    Members.list tree ignoreFiles (splitString '.' fullname) object none options true =
      .ok members ∧
    ∃ m ∈ members, separates s m = true

/-- Members that are described on the page of the module are not divided. -/
theorem foldlM_divide_of_forall {members : List Member}
    (h : ∀ m ∈ members, separates s m = false) (d : Division) :
    members.foldlM (divide s fullname) d = .ok d := by
  induction members with
  | nil => rfl
  | cons m members ih =>
    rw [List.forall_mem_cons] at h
    have hm : divide s fullname d m = .ok d := by
      unfold divide
      rw [if_pos (by simpa [separates] using h.1)]
      rfl
    rw [List.foldlM_cons, Except.bind_of_ok hm, ih h.2]

theorem Layout.not_blocked (l : Layout tree ignoreFiles s deeper fullname) :
    ¬ Blocked tree ignoreFiles s deeper fullname := by
  rintro ⟨rfl, object, options, items, members, hfound, hkind, hsettled, hitems, hlist, m, hm,
    hsep⟩
  obtain rfl := Except.ok.inj (l.found.symm.trans hfound)
  obtain rfl := Except.ok.inj (l.settled.symm.trans hsettled)
  have hlisted := l.listed
  rw [if_pos (by simp [hkind]), hlist] at hlisted
  rw [Except.ok.inj hlisted] at hm
  have hstart : l.start = .names items := by
    have hstarted := l.started
    rw [exclusions, hitems] at hstarted
    exact (Except.ok.inj hstarted).symm
  rcases excluded_cases l.divided with ⟨hnone, -⟩ | ⟨_, _, hset, -⟩
  · rw [hnone m hm] at hsep
    cases hsep
  · rw [hstart] at hset
    cases hset

/-- **A page can be made exactly if there is an object of its name whose documentation sets what can
be set, and no member has to be added to a list that was given.** -/
theorem nonempty_layout_iff (hs : s.options.Listable) :
    Nonempty (Layout tree ignoreFiles s deeper fullname) ↔
      (∃ object, findObject tree fullname = .ok object ∧ object.Settable) ∧
        ¬ Blocked tree ignoreFiles s deeper fullname := by
  constructor
  · rintro ⟨l⟩
    exact ⟨⟨l.object, l.found, (Object.settable_iff _ _).2 ⟨l.options, l.settled⟩⟩, l.not_blocked⟩
  · rintro ⟨⟨object, hfound, hsettable⟩, hfree⟩
    obtain ⟨options, hsettled⟩ := (Object.settable_iff s.options fullname).1 hsettable
    have hoptions : options.Listable :=
      Except.foldlM_induction hs (fun _ _ _ _ h hrow => h.addSetting hrow) hsettled
    obtain ⟨members, hlisted⟩ : ∃ members, if deeper && object.kind? == some .module_ then
        Members.list tree ignoreFiles (splitString '.' fullname) object none options true =
          .ok members else members = [] := by
      split
      · exact Members.exists_list hoptions _ _ _ _ _ _
      · exact ⟨[], rfl⟩
    have hdivided : ∃ start division, exclusions options = .ok start ∧
        members.foldlM (divide s fullname) ⟨start, []⟩ = .ok division := by
      rcases hoptions.excluded with hnone | hall | ⟨items, hitems⟩
      · obtain ⟨division, hdivision⟩ := exists_divided (s := s) fullname members [] []
        exact ⟨_, division, by rw [exclusions, hnone], hdivision⟩
      · obtain ⟨division, hdivision⟩ := exists_divided (s := s) fullname members [] []
        exact ⟨_, division, by rw [exclusions, hall], hdivision⟩
      · refine ⟨.names items, _, by rw [exclusions, hitems], foldlM_divide_of_forall ?_ _⟩
        intro m hm
        by_contra hsep
        rw [Bool.not_eq_false] at hsep
        split at hlisted
        · next hdeeper =>
          rw [Bool.and_eq_true, beq_iff_eq] at hdeeper
          exact hfree ⟨hdeeper.1, object, options, items, members, hfound, hdeeper.2, hsettled,
            hitems, hlisted, m, hm, hsep⟩
        · rw [hlisted] at hm
          cases hm
    obtain ⟨start, division, hstarted, hdivision⟩ := hdivided
    exact ⟨⟨object, options, members, start, division, hfound, hsettled, hstarted, hlisted,
      hdivision⟩⟩

/-! ### The pages that are asked for -/

/-- The pages that are asked for: the first one, and those that are listed on pages that are asked
for and can be made. -/
inductive Asked (tree : Object) (ignoreFiles : Bool) (s : Settings) (start : Visit) : Visit → Prop
  | start : Asked tree ignoreFiles s start start
  | listed {v : Visit} {c : String × Bool} (h : Asked tree ignoreFiles s start v)
      (l : Layout tree ignoreFiles s (decide (0 < v.depth)) v.fullname)
      (hc : c ∈ l.division.below) : Asked tree ignoreFiles s start (v.child c)

variable {v v' v'' : Visit} {ws : List Sheet}

theorem Asked.trans (h : Asked tree ignoreFiles s v v') (h' : Asked tree ignoreFiles s v' v'') :
    Asked tree ignoreFiles s v v'' := by
  induction h' with
  | start => exact h
  | listed _ l hc ih => exact ih.listed l hc

/-- In a run that ends well, every page that is asked for is written. -/
theorem Asked.exists_sheet (h : v.pages tree ignoreFiles s = .ok ws)
    (hasked : Asked tree ignoreFiles s v v') : ∃ w ∈ ws, w.toVisit = v' := by
  induction hasked with
  | start =>
    obtain ⟨root, rest, rfl, hroot, -⟩ := rest_pages h
    exact ⟨root, List.mem_cons_self, hroot⟩
  | listed _ l hc ih =>
    obtain ⟨w, hw, rfl⟩ := ih
    obtain ⟨l', -, hbelow⟩ := exists_layout (made_of_mem_pages h w hw).page
    rw [l'.unique l] at hbelow
    exact exists_sheet_of_mem_below h w hw _ (hbelow ▸ hc)

theorem exists_pageText {format : String} (hformat : format = "rst" ∨ format = "md") (p : Page) :
    ∃ text, pageText format p = .ok text := by
  rcases hformat with rfl | rfl
  · exact ⟨_, rfl⟩
  · exact ⟨_, rfl⟩

/-- A page that can be made is written with those below it, if these can be written. -/
theorem exists_pages_of_below (hformat : s.format = "rst" ∨ s.format = "md")
    (l : Layout tree ignoreFiles s (decide (0 < v.depth)) v.fullname)
    (hbelow : v.depth ≠ 0 → ∀ c ∈ l.division.below,
      ∃ ws, (v.child c).pages tree ignoreFiles s = .ok ws) :
    ∃ ws, v.pages tree ignoreFiles s = .ok ws := by
  obtain ⟨text, htext⟩ := exists_pageText hformat (l.page v.isGlobal v.parentModule)
  have hmade := pageOf_of_layout l v.isGlobal v.parentModule
  obtain ⟨depth, first, isGlobal, parentModule, fullname⟩ := v
  unfold Visit.pages
  cases depth with
  | zero =>
    rw [pages, Except.bind_of_ok hmade, Except.bind_of_ok htext]
    exact ⟨_, rfl⟩
  | succ depth =>
    obtain ⟨rest, hrest⟩ := Except.exists_mapM (hbelow (Nat.succ_ne_zero depth))
    rw [pages, Except.bind_of_ok hmade, Except.bind_of_ok htext]
    exact ⟨_, Except.bind_of_ok hrest _⟩

/-- **A run ends well exactly if every page that is asked for can be made.** -/
theorem exists_pages_iff (hformat : s.format = "rst" ∨ s.format = "md") :
    (∃ ws, v.pages tree ignoreFiles s = .ok ws) ↔ ∀ v', Asked tree ignoreFiles s v v' →
      Nonempty (Layout tree ignoreFiles s (decide (0 < v'.depth)) v'.fullname) := by
  constructor
  · rintro ⟨ws, h⟩ v' hasked
    obtain ⟨w, hw, rfl⟩ := hasked.exists_sheet h
    obtain ⟨l, -, -⟩ := exists_layout (made_of_mem_pages h w hw).page
    exact ⟨l⟩
  · intro h
    induction hn : v.depth generalizing v with
    | zero =>
      obtain ⟨l⟩ := h v .start
      exact exists_pages_of_below hformat l fun hne => absurd hn hne
    | succ n ih =>
      obtain ⟨l⟩ := h v .start
      refine exists_pages_of_below hformat l fun _ c hc => ih (fun v' hasked => ?_) ?_
      · exact h v' ((Asked.start.listed l hc).trans hasked)
      · show v.depth - 1 = n
        omega

/-! ### Pages of objects that are there -/

theorem findObject_eq_ok_iff {object : Object} :
    findObject tree fullname = .ok object ↔ tree.at? (splitString '.' fullname) = some object := by
  rw [← Object.object_locate]
  unfold findObject
  dsimp only
  split
  · next found hfound => rw [hfound, Except.ok.injEq, Option.some.injEq]
  · next hnone => simp [hnone]

/-- Without dots in names, the objects of all pages that are asked for are there. -/
theorem Asked.exists_object (hmarked : tree.Marked) (hundotted : tree.Undotted)
    (hstart : ∃ object, findObject tree v.fullname = .ok object)
    (h : Asked tree ignoreFiles s v v') : ∃ object, findObject tree v'.fullname = .ok object := by
  cases h with
  | start => exact hstart
  | @listed u c _ l hc =>
    obtain ⟨m, hm, -, hname, -⟩ := l.exists_member hc
    have hfullname : (u.child c).fullname = childName u.fullname m := hname.symm
    refine ⟨m.object, findObject_eq_ok_iff.2 ?_⟩
    rw [hfullname, l.splitString_childName hmarked hundotted hm]
    exact l.at?_member hmarked.keyed hm

theorem settable_of_findObject {object : Object} (h : ∀ e ∈ tree.entries, e.2.Settable)
    (hfound : findObject tree fullname = .ok object) : object.Settable :=
  h _ (Object.mem_entries_of_at? (Object.splitString_ne_nil _ _) (findObject_eq_ok_iff.1 hfound))

/-! ### Runs -/

/-- The path lies in the directory, but is none of its files. -/
def Nested (dir : Path) (path : String) : Prop :=
  (Path.ofString path).isBelow dir = true ∧ (Path.ofString path).parent ≠ dir

theorem Sheet.not_nested {dir : Path} {format : String} (hformat : format = "rst" ∨ format = "md")
    (hdir : dir.Proper) (w : Sheet) : ¬ Nested dir (w.place dir format) := by
  rintro ⟨-, hparent⟩
  rw [Sheet.place, Path.ofString_toString_child hdir (w.isPart_file hformat)] at hparent
  exact hparent (by simp [Path.parent])

/-- A directory is brought up to date exactly if nothing lies deeper in it than its files. -/
theorem exists_update_iff {dir : Path} {generated : List File} {disk : Table String}
    (hgenerated : ∀ name ∈ Table.keys generated, ¬ Nested dir (dir.child name).toString) :
    (∃ disk' r, update dir generated true disk = (.ok disk', r)) ↔
      ∀ path ∈ disk.keys, ¬ Nested dir path := by
  have hwritten : (∀ path ∈ Table.keys (Table.update disk
        (generated.map fun f => ((dir.child f.1).toString, f.2))), ¬ Nested dir path) ↔
      ∀ path ∈ disk.keys, ¬ Nested dir path := by
    have hpaths := Table.keys_mapKeys generated fun name => (dir.child name).toString
    simp only [Table.mem_keys_update, hpaths]
    refine ⟨fun h path hpath => h path (.inl hpath), fun h path hpath => hpath.elim (h path) ?_⟩
    intro hmem
    obtain ⟨name, hname, rfl⟩ := List.mem_map.1 hmem
    exact hgenerated name hname
  rw [← hwritten]
  unfold update
  simp only [Bool.not_true, Bool.false_eq_true, if_false]
  split
  · next hany =>
    obtain ⟨f, hf, hnested⟩ := List.any_eq_true.1 hany
    rw [Bool.and_eq_true, bne_iff_ne] at hnested
    refine iff_of_false (fun h => ?_) fun h => h f.1 (List.mem_map_of_mem hf) hnested
    obtain ⟨disk', r, h⟩ := h
    cases (Prod.mk.inj h).1
  · next hany =>
    refine iff_of_true ⟨_, _, rfl⟩ fun path hpath hnested => hany ?_
    obtain ⟨f, hf, rfl⟩ := List.mem_map.1 hpath
    refine List.any_eq_true.2 ⟨f, hf, ?_⟩
    rw [Bool.and_eq_true, bne_iff_ne]
    exact hnested

/-- **A run ends well exactly if there is a list of its pages and nothing lies deeper in the
directory than their files.** -/
theorem run_error_eq_none_iff {sys : System} {out dir : Path} {disk : Table String} {p : Probing}
    (hformat : s.format = "rst" ∨ s.format = "md") (hdir : dir.Proper) :
    (run tree ignoreFiles sys out dir fullname s disk p).error = none ↔
      (∀ path ∈ disk.keys, ¬ Nested dir path) ∧
      ∃ ws, Visit.pages tree ignoreFiles { s with options := withPageDefaults s.options }
        ⟨s.depth.toNat, true, false, none, fullname⟩ = .ok ws := by
  have hupdate : ∀ ws : List Sheet,
      (∃ disk' r, update dir (filesOf s.format ws) true disk = (.ok disk', r)) ↔
        ∀ path ∈ disk.keys, ¬ Nested dir path := by
    refine fun ws => exists_update_iff fun name hname => ?_
    obtain ⟨w, -, rfl⟩ := mem_keys_filesOf.1 hname
    exact w.not_nested hformat hdir
  constructor
  · intro h
    obtain ⟨ws, hws, -⟩ := holds_run hdir h
    refine ⟨(hupdate ws).1 ?_, ws, hws⟩
    simp only [run, files_of_pages hws] at h
    split at h
    · next disk' r hok => exact ⟨disk', r, hok⟩
    · cases h
  · rintro ⟨hnested, ws, hws⟩
    obtain ⟨disk', r, hok⟩ := (hupdate ws).2 hnested
    simp only [run, files_of_pages hws, hok]

/-! ### Roots of a configuration -/

/-- The settings with which the pages of a root are made. -/
def rootSettings (root : Config.ApiRoot) : Settings :=
  { Settings.ofRoot root with options := withPageDefaults root.options }

/-- The first page of a root. -/
def firstPage (fullname : String) (root : Config.ApiRoot) : Visit :=
  ⟨root.maxDepth.toInt.toNat, true, false, none, fullname⟩

@[simp] theorem firstPage_fullname (fullname : String) (root : Config.ApiRoot) :
    (firstPage fullname root).fullname = fullname := rfl

theorem listable_withPageDefaults {o : Options} (h : o.Listable) : (withPageDefaults o).Listable :=
  ((h.setDefault (by decide) _).setDefault (by decide) _).setDefault (by decide) _

theorem listable_rootSettings [FileSystem] {docs : Path} {vs : Config.Values} {o : Config.Outcome}
    {root : Config.ApiRoot} (hread : Config.read docs vs = .ok o)
    (hroot : (fullname, root) ∈ o.config.apidocRoots) : (rootSettings root).options.Listable :=
  listable_withPageDefaults fun _ _ _ hv => (Config.read_of_root hread hroot hv).2

theorem get?_exclude_withPageDefaults (o : Options) :
    (withPageDefaults o).get? "exclude-members" = o.get? "exclude-members" := by
  rw [withPageDefaults, Table.get?_setDefault_of_ne _ _ (by decide),
    Table.get?_setDefault_of_ne _ _ (by decide), Table.get?_setDefault_of_ne _ _ (by decide)]

/-- Where no list is given, no page is blocked. -/
theorem not_blocked_of_unlisted
    (hs : ∀ items, s.options.get? "exclude-members" ≠ some (.names items))
    (hdocs : ∀ e ∈ tree.entries, "exclude-members" ∉ e.2.reading.options.keys) :
    ¬ Blocked tree ignoreFiles s deeper fullname := by
  rintro ⟨-, object, options, items, members, hfound, -, hsettled, hitems, -⟩
  have hkeys := hdocs _
    (Object.mem_entries_of_at? (Object.splitString_ne_nil _ _) (findObject_eq_ok_iff.1 hfound))
  have hsame : options.get? "exclude-members" = s.options.get? "exclude-members" := by
    refine Except.foldlM_induction
      (P := fun o : Options => o.get? "exclude-members" = s.options.get? "exclude-members") rfl
      (fun row hrow o o' ho hadd => ?_) hsettled
    obtain ⟨c, v, -, -, rfl⟩ := Options.addSetting_eq_ok_iff.1 hadd
    have hne : row.1 ≠ "exclude-members" := fun heq => hkeys (heq ▸ List.mem_map_of_mem hrow)
    rw [Table.get?_set_of_ne _ _ hne, ho]
  exact hs items (hsame.symm.trans hitems)

/-- **When a run ends well.** The pages of a root of a configuration are written exactly if nothing
lies deeper in its directory than files, every page that is asked for is about an object whose
documentation sets what can be set, and no member of a module has to be added to a list of excluded
names that was given. In a tree without dots in its names, and with a mark on every object at its
top that is not a module, the objects are there, but a list that was given still stops the run. -/
theorem completes_iff [FileSystem] {docs : Path} {vs : Config.Values} {o : Config.Outcome}
    {root : Config.ApiRoot} (hread : Config.read docs vs = .ok o)
    (hroot : (fullname, root) ∈ o.config.apidocRoots) (hdir : root.path.Proper)
    (tree : Object) (ignoreFiles : Bool) (sys : System) (out : Path) (disk : Table String)
    (p : Probing) :
    ((run tree ignoreFiles sys out root.path fullname (.ofRoot root) disk p).error = none ↔
      (∀ path ∈ disk.keys, ¬ Nested root.path path) ∧
      ∀ v, Asked tree ignoreFiles (rootSettings root) (firstPage fullname root) v →
        (∃ object, findObject tree v.fullname = .ok object ∧ object.Settable) ∧
        ¬ Blocked tree ignoreFiles (rootSettings root) (decide (0 < v.depth)) v.fullname) ∧
    (tree.Marked → tree.Undotted → (∀ e ∈ tree.entries, e.2.Settable) →
      (∃ object, findObject tree fullname = .ok object) →
      ((run tree ignoreFiles sys out root.path fullname (.ofRoot root) disk p).error = none ↔
        (∀ path ∈ disk.keys, ¬ Nested root.path path) ∧
        ∀ v, Asked tree ignoreFiles (rootSettings root) (firstPage fullname root) v →
          ¬ Blocked tree ignoreFiles (rootSettings root) (decide (0 < v.depth)) v.fullname) ∧
      ((∀ items, root.options.get? "exclude-members" ≠ some (.names items)) →
        (∀ e ∈ tree.entries, "exclude-members" ∉ e.2.reading.options.keys) →
        (∀ path ∈ disk.keys, ¬ Nested root.path path) →
        (run tree ignoreFiles sys out root.path fullname (.ofRoot root) disk p).error = none)) := by
  have hformat : root.format.name = "rst" ∨ root.format.name = "md" := by
    cases root.format with
    | rst => exact .inl rfl
    | md => exact .inr rfl
  have hrun : (run tree ignoreFiles sys out root.path fullname (.ofRoot root) disk p).error = none ↔
      (∀ path ∈ disk.keys, ¬ Nested root.path path) ∧
      ∀ v, Asked tree ignoreFiles (rootSettings root) (firstPage fullname root) v →
        (∃ object, findObject tree v.fullname = .ok object ∧ object.Settable) ∧
        ¬ Blocked tree ignoreFiles (rootSettings root) (decide (0 < v.depth)) v.fullname := by
    have hlistable := listable_rootSettings hread hroot
    rw [run_error_eq_none_iff hformat hdir]
    refine and_congr_right fun _ => (exists_pages_iff hformat).trans ?_
    exact forall₂_congr fun v _ => nonempty_layout_iff hlistable
  refine ⟨hrun, fun hmarked hundotted hsettable hstart => ?_⟩
  have hmade : ∀ v, Asked tree ignoreFiles (rootSettings root) (firstPage fullname root) v →
      ∃ object, findObject tree v.fullname = .ok object ∧ object.Settable := by
    intro v hasked
    obtain ⟨object, hfound⟩ := hasked.exists_object hmarked hundotted (by simpa using hstart)
    exact ⟨object, hfound, settable_of_findObject hsettable hfound⟩
  refine ⟨?_, fun hunlisted hdocs hfiles => ?_⟩
  · rw [hrun]
    exact and_congr_right fun _ => forall₂_congr fun v hasked => and_iff_right (hmade v hasked)
  · refine hrun.2 ⟨hfiles, fun v hasked => ⟨hmade v hasked, not_blocked_of_unlisted ?_ hdocs⟩⟩
    intro items hitems
    exact hunlisted items ((get?_exclude_withPageDefaults _).symm.trans hitems)

attribute [local instance] FileSystem.linkless

/-- The module `m` with a submodule. -/
def nestedTree : Object := ⟨.unknown false, .bare, [("m", sharedModule)]⟩

theorem marked_nestedTree : nestedTree.Marked where
  keyed := Object.keyed_singleton (Object.keyed_singleton (Object.keyed_of_childless rfl))
  globals := by decide +kernel
  marked c hc hkind := absurd (by rw [List.mem_singleton.1 hc]; rfl) hkind

/-- The values of a configuration with a root whose pages have the given options. -/
def optionsOf (rows : List (String × Config.Value)) : Config.Values :=
  Config.valuesOf [("m", .table [("path", .str "api"), ("options", .table rows)])]

/-- The root that is read from them. -/
def rootOf (options : Options) : Config.ApiRoot :=
  ⟨⟨"/", ["conf", "api"]⟩, options, .number 4, [], .rst, false⟩

/-- Generates the pages of the root. -/
def runRoot (options : Options) : Outcome :=
  run nestedTree false ⟨"linux", 0⟩ ⟨"", ["out"]⟩ (rootOf options).path "m"
    (.ofRoot (rootOf options)) [] ⟨[], []⟩

theorem proper_rootOf (options : Options) : (rootOf options).path.Proper := by
  have hread := Path.proper_ofString "/conf/api"
  rwa [show Path.ofString "/conf/api" = ⟨"/", ["conf", "api"]⟩ by decide +kernel] at hread

theorem exists_read_of_roots (docs : Path) (vs : Config.Values) {roots : Table Config.ApiRoot}
    (h : (Config.read docs vs).toOption.map (fun o => o.config.apidocRoots) = some roots) :
    ∃ o, Config.read docs vs = .ok o ∧ o.config.apidocRoots = roots := by
  obtain ⟨o, ho, hroots⟩ := Option.map_eq_some_iff.1 h
  exact ⟨o, Except.toOption_eq_some.1 ho, hroots⟩

/-- The submodule would have to be added to the list. -/
theorem blocked_nestedTree : Blocked nestedTree false
    (rootSettings (rootOf [("undoc-members", .all), ("exclude-members", .names ["y"])])) true
    "m" := by
  obtain ⟨members, hlist⟩ : ∃ members, Members.list nestedTree false (splitString '.' "m")
      sharedModule none (rootSettings (rootOf
        [("undoc-members", .all), ("exclude-members", .names ["y"])])).options true =
          .ok members :=
    ⟨_, Members.list_eq_ok_iff.2 ⟨.bySource, by decide +kernel, .inr (by decide +kernel), rfl⟩⟩
  refine ⟨rfl, sharedModule, _, ["y"], members, rfl, rfl, rfl, rfl, hlist,
    ⟨"x", splitString '.' "m" ++ ["x"], ⟨.unknown false, .bare, []⟩⟩, ?_, rfl⟩
  rw [Members.mem_list_iff hlist]
  exact ⟨.inl (List.mem_singleton_self _), by decide +kernel⟩

/-- The pages of a module with a submodule are written if no names are excluded. If names are
excluded by a list they are not, though the configuration was read. -/
theorem completes_unlisted_only :
    (∃ o, Config.read ⟨"/", ["conf"]⟩ (optionsOf [("undoc-members", .str "")]) = .ok o ∧
      o.config.apidocRoots = [("m", rootOf [("undoc-members", .all)])] ∧
      (runRoot [("undoc-members", .all)]).error = none) ∧
    ∃ o, Config.read ⟨"/", ["conf"]⟩
        (optionsOf [("undoc-members", .str ""), ("exclude-members", .str "y")]) = .ok o ∧
      o.config.apidocRoots =
        [("m", rootOf [("undoc-members", .all), ("exclude-members", .names ["y"])])] ∧
      (runRoot [("undoc-members", .all), ("exclude-members", .names ["y"])]).error ≠ none := by
  constructor
  · obtain ⟨o, hread, hroots⟩ : ∃ o, Config.read ⟨"/", ["conf"]⟩
          (optionsOf [("undoc-members", .str "")]) = .ok o ∧
        o.config.apidocRoots = [("m", rootOf [("undoc-members", .all)])] :=
      exists_read_of_roots _ _ (by decide +kernel)
    have hplain : ∀ e ∈ nestedTree.entries, e.2.reading.options = [] := by decide +kernel
    have hroot : ("m", rootOf [("undoc-members", .all)]) ∈ o.config.apidocRoots := by
      rw [hroots]
      exact List.mem_singleton_self _
    obtain ⟨-, hcompletes⟩ := completes_iff hread hroot (proper_rootOf _) nestedTree false
      ⟨"linux", 0⟩ ⟨"", ["out"]⟩ [] ⟨[], []⟩
    refine ⟨o, hread, hroots, (hcompletes marked_nestedTree (by decide +kernel) ?_ ⟨_, rfl⟩).2
      ?_ ?_ (List.forall_mem_nil _)⟩
    · intro e he
      rw [Object.Settable, hplain e he]
      exact List.forall_mem_nil _
    · intro items hitems
      cases hitems
    · intro e he
      rw [hplain e he]
      exact List.not_mem_nil
  · obtain ⟨o, hread, hroots⟩ : ∃ o, Config.read ⟨"/", ["conf"]⟩
          (optionsOf [("undoc-members", .str ""), ("exclude-members", .str "y")]) = .ok o ∧
        o.config.apidocRoots =
          [("m", rootOf [("undoc-members", .all), ("exclude-members", .names ["y"])])] :=
      exists_read_of_roots _ _ (by decide +kernel)
    refine ⟨o, hread, hroots, fun hnone => ?_⟩
    have hroot : ("m", rootOf [("undoc-members", .all), ("exclude-members", .names ["y"])]) ∈
        o.config.apidocRoots := by
      rw [hroots]
      exact List.mem_singleton_self _
    obtain ⟨hcompletes, -⟩ := completes_iff hread hroot (proper_rootOf _) nestedTree false
      ⟨"linux", 0⟩ ⟨"", ["out"]⟩ [] ⟨[], []⟩
    exact ((hcompletes.1 hnone).2 _ .start).2 blocked_nestedTree

end Apidoc

end LuaDocs
