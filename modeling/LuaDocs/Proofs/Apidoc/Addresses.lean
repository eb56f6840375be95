import LuaDocs.Proofs.Apidoc.Pages
import LuaDocs.Proofs.Auto.Finding
import LuaDocs.Proofs.Document.Nesting
import LuaDocs.Proofs.Members

/-!
# The objects that pages are about

The page of a member is made for the full name of the member, and both the generator and the
directive on the page look the member up by this name. The name leads to the member exactly if there
is no dot in the name of the member itself, and the member is marked as a global exactly if it was
listed as one. The directive reads the name first; it finds the same member exactly if reading gives
the name back and no object of this name stands in the module that the directive is told to look in.

## Main results

* `Apidoc.Layout.splitString_childName_iff`: when the full name of a member leads to it
* `Apidoc.addressed_iff`: all of it together, and that pages address their objects in a tree of
  addressable names
-/

namespace LuaDocs

open Text

/-! ### Members and their full names -/

namespace Apidoc

variable {tree : Object} {ignoreFiles deeper : Bool} {s : Settings} {fullname : String}
  {l : Layout tree ignoreFiles s deeper fullname} {m : Member}

theorem Layout.at?_object (l : Layout tree ignoreFiles s deeper fullname) :
    tree.at? (splitString '.' fullname) = some l.object := by
  have hfound := l.found
  unfold findObject at hfound
  dsimp only at hfound
  split at hfound
  · next o ho =>
    rw [Object.object_locate] at ho
    rw [ho, Except.ok.inj hfound]
  · cases hfound

/-- A member that is listed is a child of the object or a global, and the object is a module. -/
theorem Layout.member_cases (hm : m ∈ l.members) :
    m.path = splitString '.' fullname ++ [m.name] ∧ (m.name, m.object) ∈ l.object.children ∨
      m.path = [m.name] ∧ (m.name, m.object) ∈ tree.children ∧
        m.object.kind? ≠ some .module_ := by
  have hlisted := l.listed
  split at hlisted
  · rcases ((Members.mem_list_iff hlisted).1 hm).1 with hm | ⟨-, hm⟩
    · obtain ⟨c, hc, rfl⟩ := Members.mem_children_iff.1 hm
      exact .inl ⟨rfl, hc⟩
    · obtain ⟨c, hc, hglobal, rfl⟩ := Members.exists_of_mem_globals hm
      refine .inr ⟨rfl, hc, ?_⟩
      unfold Members.isGlobalOf at hglobal
      simp only [Bool.and_eq_true, bne_iff_ne] at hglobal
      exact hglobal.1.2
  · rw [hlisted] at hm
    cases hm

theorem splitString_dotted (fullname name : String) :
    splitString '.' (fullname ++ "." ++ name) =
      splitString '.' fullname ++ splitString '.' name :=
  splitString_append '.' fullname name

/-- The path of a child has two names at least. -/
theorem path_ne_singleton (fullname name : String) :
    splitString '.' fullname ++ [name] ≠ [name] := fun heq =>
  Object.splitString_ne_nil '.' fullname (List.append_left_eq_self.1 heq)

/-- **The full name of a member leads to it exactly if there is no dot in its name and it is marked
as a global exactly if it was listed as one.** -/
theorem Layout.splitString_childName_iff (hm : m ∈ l.members) :
    splitString '.' (childName fullname m) = m.path ↔
      '.' ∉ m.name.toList ∧ (m.object.details.toplevel = true ↔ m.path = [m.name]) := by
  rw [← splitString_eq_singleton_iff]
  unfold childName
  rcases l.member_cases hm with ⟨hpath, -⟩ | ⟨hpath, -, -⟩
  · have hlong : m.path ≠ [m.name] := hpath ▸ path_ne_singleton fullname m.name
    cases m.object.details.toplevel with
    | false =>
      rw [if_neg Bool.false_ne_true, splitString_dotted, hpath]
      simp [hpath ▸ hlong]
    | true =>
      rw [if_pos rfl]
      constructor
      · intro heq
        have hlast : m.name ∈ splitString '.' m.name := by
          rw [heq, hpath]
          simp
        have hsingle := splitString_of_notMem (notMem_of_mem_splitString hlast)
        exact absurd (heq.symm.trans hsingle) hlong
      · rintro ⟨-, hmark⟩
        exact absurd (hmark.1 rfl) hlong
  · cases m.object.details.toplevel with
    | false =>
      rw [if_neg Bool.false_ne_true, splitString_dotted, hpath]
      constructor
      · intro heq
        have hlength := congrArg List.length heq
        rw [List.length_append, List.length_singleton] at hlength
        have hpos := List.length_pos_iff.2 (Object.splitString_ne_nil '.' fullname)
        have hown := List.length_pos_iff.2 (Object.splitString_ne_nil '.' m.name)
        omega
      · rintro ⟨-, hmark⟩
        exact absurd (hmark.2 rfl) Bool.false_ne_true
    | true => simp [hpath]

/-- A member is at its path. -/
theorem Layout.at?_member (hkeyed : tree.Keyed) (hm : m ∈ l.members) :
    tree.at? m.path = some m.object := by
  rcases l.member_cases hm with ⟨hpath, hchild⟩ | ⟨hpath, hchild, -⟩
  · have hget : l.object.child? m.name = some m.object :=
      Table.get?_of_mem (hkeyed _ _ l.at?_object) hchild
    rw [hpath, Object.at?_append, l.at?_object, Option.bind_some, Object.at?, hget]
    rfl
  · have hget : tree.child? m.name = some m.object := Table.get?_of_mem hkeyed.table hchild
    rw [hpath, Object.at?, hget]
    rfl

end Apidoc

/-! ### Trees of addressable names -/

namespace Object

/-- All names in the tree are addresses. -/
def Addressable (root : Object) : Prop :=
  ∀ e ∈ root.entries, ∀ name ∈ e.1, Name.IsAddress name

theorem addressable_of_plainNames {root : Object} (h : root.PlainNames) : root.Addressable :=
  fun e he name hname => Name.isAddress_of_isPlain (h e he name hname)

/-- No two children of an object have the same name, and what is marked as a global are the children
of the root, modules apart. -/
structure Marked (root : Object) : Prop where
  keyed : root.Keyed
  globals : root.GlobalsAtRoot
  marked : ∀ c ∈ root.children, c.2.kind? ≠ some .module_ → c.2.details.toplevel = true

/-- A tree in which pages find their objects: globals are marked, and all names are addresses. -/
structure Tidy (root : Object) : Prop extends Marked root where
  names : root.Addressable

/-- There are no dots in the names of the tree. -/
def Undotted (root : Object) : Prop :=
  ∀ e ∈ root.entries, ∀ name ∈ e.1, '.' ∉ name.toList

instance (root : Object) : Decidable root.Undotted :=
  inferInstanceAs (Decidable (∀ e ∈ root.entries, ∀ name ∈ e.1, '.' ∉ name.toList))

theorem Tidy.undotted {root : Object} (h : root.Tidy) : root.Undotted :=
  fun e he name hname => (h.names e he name hname).undotted

end Object

namespace Apidoc

variable {tree : Object} {ignoreFiles deeper : Bool} {s : Settings} {fullname : String}
  {l : Layout tree ignoreFiles s deeper fullname} {m : Member}

theorem Layout.mem_entries (hkeyed : tree.Keyed) (hm : m ∈ l.members) :
    (m.path, m.object) ∈ tree.entries := by
  refine Object.mem_entries_of_at? ?_ (l.at?_member hkeyed hm)
  rcases l.member_cases hm with ⟨hpath, -⟩ | ⟨hpath, -, -⟩
  · simp [hpath]
  · simp [hpath]

/-- A member is marked as a global exactly if it was listed as one. -/
theorem Layout.toplevel_iff (hmarked : tree.Marked) (hm : m ∈ l.members) :
    m.object.details.toplevel = true ↔ m.path = [m.name] := by
  constructor
  · intro htop
    have hlength := hmarked.globals _ (l.mem_entries hmarked.keyed hm) htop
    rcases l.member_cases hm with ⟨hpath, -⟩ | ⟨hpath, -, -⟩
    · have hpos := List.length_pos_iff.2 (Object.splitString_ne_nil '.' fullname)
      rw [hpath, List.length_append, List.length_singleton] at hlength
      omega
    · exact hpath
  · intro hpath
    rcases l.member_cases hm with ⟨hchild, -⟩ | ⟨-, hroot, hkind⟩
    · exact absurd (hchild.symm.trans hpath) (path_ne_singleton fullname m.name)
    · exact hmarked.marked _ hroot hkind

/-- Without dots in names the full name of a member leads to it. -/
theorem Layout.splitString_childName (hmarked : tree.Marked) (hundotted : tree.Undotted)
    (hm : m ∈ l.members) : splitString '.' (childName fullname m) = m.path := by
  refine (l.splitString_childName_iff hm).2 ⟨?_, l.toplevel_iff hmarked hm⟩
  refine hundotted _ (l.mem_entries hmarked.keyed hm) m.name ?_
  rcases l.member_cases hm with ⟨hpath, -⟩ | ⟨hpath, -, -⟩
  · simp [hpath]
  · simp [hpath]

/-- A page below another one is that of a member. -/
theorem Layout.exists_member (l : Layout tree ignoreFiles s deeper fullname) {c : String × Bool}
    (hc : c ∈ l.division.below) : ∃ m ∈ l.members, separates s m = true ∧
      childName fullname m = c.1 ∧ m.object.details.toplevel = c.2 := by
  have hget : l.division.below.get? c.1 = some c.2 :=
    Table.get?_of_mem (keyed_below l.divided Table.keyed_nil) hc
  exact (exists_member_of_get?_below l.divided hget).resolve_left (Option.some_ne_none _ ·.symm)

variable {w : Sheet} {ws : List Sheet} {v : Visit}

theorem Sheet.Made.exists_member (h : w.Made tree ignoreFiles s) {c : String × Bool}
    (hc : c ∈ w.below) :
    ∃ l : Layout tree ignoreFiles s (decide (0 < w.depth)) w.fullname, ∃ m ∈ l.members,
      separates s m = true ∧ childName w.fullname m = c.1 ∧ m.object.details.toplevel = c.2 := by
  obtain ⟨l, -, hbelow⟩ := exists_layout h.page
  exact ⟨l, l.exists_member (hbelow ▸ hc)⟩

/-- In a tidy tree a page that is listed as that of a global is not about a module. -/
theorem Sheet.Made.kind_of_global (htidy : tree.Tidy) {w' : Sheet} (hw : w.Made tree ignoreFiles s)
    (hlists : w.Lists w') (hglobal : w'.isGlobal = true)
    (l' : Layout tree ignoreFiles s deeper w'.fullname) : l'.object.kind? ≠ some .module_ := by
  obtain ⟨c, hc, hvisit⟩ := hlists
  obtain ⟨l, m, hm, -, hname, htop⟩ := hw.exists_member hc
  have hfullname : w'.fullname = childName w.fullname m := by rw [hvisit, hname]; rfl
  have hisGlobal : w'.isGlobal = c.2 := by rw [hvisit]; rfl
  rw [← hisGlobal, hglobal] at htop
  have hpath : splitString '.' w'.fullname = m.path := by
    rw [hfullname, l.splitString_childName htidy.toMarked htidy.undotted hm]
  have hobject : l'.object = m.object :=
    Option.some.inj (l'.at?_object.symm.trans (hpath ▸ l.at?_member htidy.keyed hm))
  rw [hobject]
  rcases l.member_cases hm with ⟨hchild, -⟩ | ⟨-, -, hkind⟩
  · have hsingle := (l.toplevel_iff htidy.toMarked hm).1 htop
    exact absurd (hchild.symm.trans hsingle) (path_ne_singleton w.fullname m.name)
  · exact hkind

/-- A page that is not about a module lists none. -/
theorem Layout.below_of_kind (hkind : l.object.kind? ≠ some .module_) : l.division.below = [] := by
  refine l.below_eq_nil ?_
  have hlisted := l.listed
  rwa [if_neg (by simp [hkind])] at hlisted

/-- In a tidy tree a page that is listed as that of a global lists none. -/
theorem Sheet.Made.below_of_global (htidy : tree.Tidy) {w' : Sheet} (hw : w.Made tree ignoreFiles s)
    (hw' : w'.Made tree ignoreFiles s) (hlists : w.Lists w') (hglobal : w'.isGlobal = true) :
    w'.below = [] := by
  obtain ⟨l', -, hbelow⟩ := exists_layout hw'.page
  rw [hbelow, Layout.below_of_kind (hw.kind_of_global htidy hlists hglobal l')]

/-- In a tidy tree there is no current module on pages, those of globals apart, and pages of globals
list no others. -/
theorem local_of_mem_pages (htidy : tree.Tidy) (h : v.pages tree ignoreFiles s = .ok ws)
    (hv : v.isGlobal = false) (hmodule : v.parentModule = none) :
    ∀ w ∈ ws, (w.isGlobal = false → w.parentModule = none) ∧
      (w.isGlobal = true → w.below = []) := by
  obtain ⟨root, rest, hws, hroot, hreach⟩ := reaches_of_mem_pages h
  intro w hw
  induction hreach w hw with
  | refl =>
    rw [hroot]
    refine ⟨fun _ => hmodule, fun hglobal => ?_⟩
    rw [hv] at hglobal
    cases hglobal
  | tail _ hstep ih =>
    obtain ⟨ha, hb, hlists⟩ := hstep
    have hmade := made_of_mem_pages h
    obtain ⟨hlocal, hbelow⟩ := ih ha
    refine ⟨fun hglobal => ?_, (hmade _ ha).below_of_global htidy (hmade _ hb) hlists⟩
    obtain ⟨c, hc, hvisit⟩ := hlists
    have hparent := congrArg Visit.parentModule hvisit
    have hown := congrArg Visit.isGlobal hvisit
    dsimp only [Visit.child] at hparent hown
    rw [hparent, ← hown, hglobal, if_neg Bool.false_ne_true]
    refine hlocal (Bool.eq_false_iff.2 fun htrue => ?_)
    rw [hbelow htrue] at hc
    cases hc

/-- The module option on the page of a global is empty. -/
theorem Sheet.Made.module_of_global (h : w.Made tree ignoreFiles s) (hglobal : w.isGlobal = true) :
    w.page.options.get? "module" = some "" := by
  obtain ⟨l, hpage, -⟩ := exists_layout h.page
  rw [hpage, Layout.page]
  dsimp only
  rw [if_pos hglobal, Table.get?_set, if_pos rfl]

/-- The page of a member that is not ignored is written. -/
theorem exists_sheet_of_member (htidy : tree.Tidy) (h : v.pages tree ignoreFiles s = .ok ws)
    (hw : w ∈ ws) {l : Layout tree ignoreFiles s (decide (0 < w.depth)) w.fullname}
    (hm : m ∈ l.members) (hsep : separates s m = true)
    (hignored : isIgnored s (childName w.fullname m) = false) :
    ∃ w' ∈ ws, w'.fullname = childName w.fullname m ∧
      w'.isGlobal = m.object.details.toplevel ∧ w.Lists w' := by
  obtain ⟨l', -, hbelow⟩ := exists_layout (made_of_mem_pages h w hw).page
  rw [l'.unique l] at hbelow
  have hkey : childName w.fullname m ∈ w.below.keys := by
    rw [hbelow, mem_keys_below_iff l.divided]
    exact .inr ⟨m, hm, hsep, rfl, hignored⟩
  obtain ⟨c, hc, hname⟩ := List.mem_map.1 hkey
  obtain ⟨w', hw', hvisit⟩ := exists_sheet_of_mem_below h w hw c hc
  refine ⟨w', hw', (congrArg Visit.fullname hvisit).trans hname,
    (congrArg Visit.isGlobal hvisit).trans ?_, c, hc, hvisit⟩
  -- members of one full name are one member
  obtain ⟨l'', m', hm', -, hname', htop⟩ := (made_of_mem_pages h w hw).exists_member hc
  have hpath : m'.path = m.path := by
    rw [← l''.splitString_childName htidy.toMarked htidy.undotted hm',
      ← l.splitString_childName htidy.toMarked htidy.undotted hm, hname', hname]
  have hobject : m'.object = m.object := by
    have hat := l''.at?_member htidy.keyed hm'
    rw [hpath, l.at?_member htidy.keyed hm] at hat
    exact (Option.some.inj hat).symm
  rw [← hobject]
  exact htop.symm

end Apidoc

namespace Apidoc

open Auto

variable {tree : Object}

/-- When the page of a member addresses it: for the generator if its full name leads to it, and for
a directive if this holds and the directive reads the name and finds nothing else first. -/
structure Addressing (tree : Object) (fullname : String) (m : Member) : Prop where
  leads_iff : splitString '.' (childName fullname m) = m.path ↔
    '.' ∉ m.name.toList ∧ (m.object.details.toplevel = true ↔ m.path = [m.name])
  generator : splitString '.' (childName fullname m) = m.path →
    (tree.locate (childName fullname m)).object = some m.object
  /-- A directive that is told no module finds the member exactly if it reads the name back. -/
  directive_iff : splitString '.' (childName fullname m) = m.path →
    ∀ site c options, AtTop tree site c → scope options c = none →
      (Finds site c options (childName fullname m) m.path m.object ↔
        ReadsBack site (childName fullname m))
  /-- A directive that reads the name back finds the member exactly if there is no object of the
  name in the module that it is told. -/
  directive_within_iff : splitString '.' (childName fullname m) = m.path →
    ∀ site c options, AtTop tree site c → ReadsBack site (childName fullname m) →
      (Finds site c options (childName fullname m) m.path m.object ↔
        ∀ M, scope options c = some M →
          tree.find? (Index.joinGiven [some M, some (childName fullname m)]) = none)

/-- The page addresses the member, for the generator and for the directive on it, whose module is
that of the page. -/
structure Sheet.Addresses (tree : Object) (w : Sheet) (m : Member) : Prop where
  generator : (tree.locate w.fullname).object = some m.object
  directive : ∀ site c options, AtTop tree site c →
    options.get? "module" = (w.page.options.get? "module").map OptionValue.text →
    (w.page.currentModule = "None" → c.moduleName.get? = none) →
    (w.isGlobal = false → w.page.options.get? "module" = none) →
      Finds site c options w.fullname m.path m.object

/-- **The page of a member addresses it, for the generator exactly if its full name leads to it, and
then for the directive exactly if reading the name gives it back and there is no object of this name
in the module that the directive is told.** In a tidy tree all pages of a run address the members
for which they were made. -/
theorem addressed_iff (hkeyed : tree.Keyed) :
    (∀ ignoreFiles s deeper fullname (l : Layout tree ignoreFiles s deeper fullname),
      ∀ m ∈ l.members, Addressing tree fullname m) ∧
    (tree.Tidy → ∀ ignoreFiles s depth fullname ws,
      Visit.pages tree ignoreFiles s ⟨depth, true, false, none, fullname⟩ = .ok ws →
      ∀ w ∈ ws, ∀ l : Layout tree ignoreFiles s (decide (0 < w.depth)) w.fullname,
      ∀ m ∈ l.members, separates s m = true → isIgnored s (childName w.fullname m) = false →
        ∃ w' ∈ ws, w'.fullname = childName w.fullname m ∧ w'.Addresses tree m) := by
  have hlocate : ∀ {ignoreFiles s deeper fullname} {l : Layout tree ignoreFiles s deeper fullname}
      {m : Member}, m ∈ l.members → splitString '.' (childName fullname m) = m.path →
      tree.at? (splitString '.' (childName fullname m)) = some m.object := by
    intro _ _ _ _ l m hm hpath
    rw [hpath, l.at?_member hkeyed hm]
  refine ⟨fun ignoreFiles s deeper fullname l m hm => ?_, ?_⟩
  · refine ⟨l.splitString_childName_iff hm, fun hpath => ?_,
      fun hpath site c options htop hscope => ?_, fun hpath site c options htop hreads => ?_⟩
    · exact (Object.object_locate tree _).trans (hlocate hm hpath)
    · rw [← hpath]
      exact finds_iff_readsBack htop (hlocate hm hpath) hscope
    · rw [← hpath]
      exact finds_iff_of_readsBack htop (hlocate hm hpath) hreads
  · intro htidy ignoreFiles s depth fullname ws h w hw l m hm hsep hignored
    obtain ⟨w', hw', hname, hglobal, hlists⟩ := exists_sheet_of_member htidy h hw hm hsep hignored
    have hpath := l.splitString_childName htidy.toMarked htidy.undotted hm
    have hat := hlocate hm hpath
    rw [← hname] at hat hpath
    refine ⟨w', hw', hname, (Object.object_locate tree _).trans hat, ?_⟩
    intro site c options htop hoptions hmodule hown
    have hscope : scope options c = none := by
      unfold scope
      rw [hoptions]
      cases hg : w'.isGlobal with
      | true =>
        rw [(made_of_mem_pages h w' hw').module_of_global hg]
        rfl
      | false =>
        obtain ⟨l', hpage, -⟩ := exists_layout (made_of_mem_pages h w' hw').page
        have hlocal : w'.parentModule = none := (local_of_mem_pages htidy h rfl rfl w' hw').1 hg
        have hcurrent : w'.page.currentModule = "None" := by
          rw [hpage, Page.currentModule, Layout.page, hlocal]
          rfl
        rw [hown hg]
        show Context.nonEmpty c.moduleName.get? = none
        rw [hmodule hcurrent]
        rfl
    rw [← hpath]
    refine (finds_iff_readsBack htop hat hscope).2 ?_
    refine readsBack_of_isAddress site fun n hn => ?_
    exact htidy.names _ (Object.mem_entries_of_at? (Object.splitString_ne_nil _ _) hat) n hn

/-- What a page is made from, where the documentation of the object sets no options. -/
theorem Layout.options_eq {ignoreFiles deeper : Bool} {s : Settings} {fullname : String}
    (l : Layout tree ignoreFiles s deeper fullname) (h : l.object.reading.options = []) :
    l.options = s.options := by
  have hsettled := l.settled
  rw [h] at hsettled
  exact (Except.ok.inj hsettled).symm

/-- The module `m` holds a variable of the given name. -/
def moduleTree (name : String) : Object :=
  ⟨.unknown false, .bare,
    [("m", ⟨.unknown false, .bare, [(name, ⟨.unknown false, .data none none, []⟩)]⟩)]⟩

/-- All members get pages. -/
def pageSettings : Settings :=
  ⟨[("members", .all), ("undoc-members", .all)], 1, [], "rst", true⟩

theorem keyed_moduleTree (name : String) : (moduleTree name).Keyed :=
  Object.keyed_singleton (Object.keyed_singleton (Object.keyed_of_childless rfl))

/-- The variable is listed when the page of the module is made. -/
theorem exists_mem_moduleTree (name : String)
    (hpage : (pageOf (moduleTree name) false pageSettings true false none "m").isOk = true)
    (hselected : Members.selected pageSettings.options []
      ⟨name, ["m", name], ⟨.unknown false, .data none none, []⟩⟩ = true) :
    ∃ l : Layout (moduleTree name) false pageSettings true "m",
      ⟨name, ["m", name], ⟨.unknown false, .data none none, []⟩⟩ ∈ l.members := by
  obtain ⟨⟨page, below⟩, hok⟩ := Except.exists_of_isOk hpage
  obtain ⟨l, -, -⟩ := exists_layout hok
  have hpath : splitString '.' "m" = ["m"] := by decide +kernel
  have hobject : l.object =
      ⟨.unknown false, .bare, [(name, ⟨.unknown false, .data none none, []⟩)]⟩ := by
    have hat := l.at?_object
    rw [hpath] at hat
    exact (Option.some.inj hat).symm
  have hoptions : l.options = pageSettings.options := l.options_eq (by rw [hobject]; rfl)
  have hlisted := l.listed
  have hkind : (true && l.object.kind? == some .module_) = true := by
    rw [hobject]
    rfl
  rw [if_pos hkind, hpath] at hlisted
  refine ⟨l, (Members.mem_list_iff hlisted).2 ⟨.inl ?_, ?_⟩⟩
  · rw [hobject]
    exact List.mem_singleton_self _
  · rw [hoptions]
    exact hselected

theorem tidy_moduleTree : (moduleTree "x").Tidy where
  keyed := keyed_moduleTree _
  names := Object.addressable_of_plainNames (by decide +kernel)
  globals := by decide +kernel
  marked c hc hkind := absurd (by rw [List.mem_singleton.1 hc]; rfl) hkind

/-- A dot in a key leads the generator astray, and a key that is not in normal form the directive;
a plain name is found. -/
theorem addresses_of_keys :
    (∃ l : Layout (moduleTree "[a.b]") false pageSettings true "m", ∃ m ∈ l.members,
      splitString '.' (childName "m" m) ≠ m.path) ∧
    (∃ l : Layout (moduleTree "[a|b]") false pageSettings true "m", ∃ m ∈ l.members,
      ((moduleTree "[a|b]").locate (childName "m" m)).object = some m.object ∧
      ¬ Finds (Site.ofTree (moduleTree "[a|b]")) .empty [] (childName "m" m) m.path m.object) ∧
    ∃ ws, Visit.pages (moduleTree "x") false pageSettings ⟨1, true, false, none, "m"⟩ = .ok ws ∧
      ∃ w ∈ ws, w.fullname = "m.x" ∧
        ∃ o, Finds (Site.ofTree (moduleTree "x")) .empty [] w.fullname ["m", "x"] o := by
  have hdefaults : ∀ tree, AtTop tree (Site.ofTree tree) .empty :=
    fun tree => ⟨rfl, fun d hd => absurd hd List.not_mem_nil, rfl⟩
  refine ⟨?_, ?_, ?_⟩
  · obtain ⟨l, hm⟩ := exists_mem_moduleTree "[a.b]" (by decide +kernel) (by decide +kernel)
    refine ⟨l, _, hm, fun hpath => ?_⟩
    have hnot := (((addressed_iff (keyed_moduleTree _)).1 _ _ _ _ l _ hm).leads_iff.1 hpath).1
    revert hnot
    decide +kernel
  · obtain ⟨l, hm⟩ := exists_mem_moduleTree "[a|b]" (by decide +kernel) (by decide +kernel)
    have haddressing := (addressed_iff (keyed_moduleTree _)).1 _ _ _ _ l _ hm
    refine ⟨l, _, hm, haddressing.generator (by decide +kernel), fun h => ?_⟩
    obtain ⟨afters, hread⟩ :=
      (haddressing.directive_iff (by decide +kernel) _ .empty [] (hdefaults _) rfl).1 h
    -- What is read has blanks around the bar.
    have hother : (readNames none (Description.signatureLines (Site.ofTree (moduleTree "[a|b]"))
        "m.[a|b]")).toOption.map (·.1) = some (some "m.[a | b]") := by
      decide +kernel
    have hsame := hother.symm.trans (congrArg (fun r => (Except.toOption r).map (·.1)) hread)
    exact absurd (Option.some.inj (Option.some.inj hsame)) (by decide +kernel)
  · obtain ⟨ws, hws⟩ := Except.exists_of_isOk (x := Visit.pages (moduleTree "x") false pageSettings
      ⟨1, true, false, none, "m"⟩) (by decide +kernel)
    obtain ⟨l, hm⟩ := exists_mem_moduleTree "x" (by decide +kernel) (by decide +kernel)
    obtain ⟨⟨v, page, below, text⟩, rest, hhead, hv, -⟩ := rest_pages hws
    obtain rfl : v = ⟨1, true, false, none, "m"⟩ := hv
    have hmem := hhead ▸ List.mem_cons_self
    have hchild :
        childName "m" ⟨"x", ["m", "x"], ⟨.unknown false, .data none none, []⟩⟩ = "m.x" := by
      decide +kernel
    obtain ⟨w, hw, hname, haddresses⟩ := (addressed_iff (keyed_moduleTree _)).2 tidy_moduleTree
      false pageSettings 1 "m" ws hws _ hmem l _ hm (by decide +kernel)
      ((congrArg (isIgnored pageSettings) hchild).trans (by decide +kernel))
    have hmodule : ((Visit.pages (moduleTree "x") false pageSettings
        ⟨1, true, false, none, "m"⟩).toOption.all
          fun ws => ws.all fun w => (w.page.options.get? "module").isNone) = true := by
      decide +kernel
    rw [hws] at hmodule
    have hnone := Option.isNone_iff_eq_none.1 (List.all_eq_true.1 hmodule w hw)
    refine ⟨ws, hws, w, hw, hname.trans hchild, _,
      haddresses.directive _ .empty [] (hdefaults _) ?_ (fun _ => rfl) fun _ => hnone⟩
    rw [hnone]
    rfl

end Apidoc

end LuaDocs
