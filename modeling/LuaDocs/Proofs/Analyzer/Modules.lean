import LuaDocs.Proofs.Analyzer.Entries
import LuaDocs.Proofs.Name.Dotted
import LuaDocs.Proofs.Object.Comparable
import Mathlib.Data.List.Induction

/-!
# The modules of a document

The entry of a module has no form and no line, and its members have no members. So a module brings
a head to its own path and to the paths of its members, and to no others. If the modules have
different names, at most two heads are brought to a path: that of the module there, and that of a
member of the module above. These two can always be compared, and so modules can be added in every
order.
-/

namespace LuaDocs.EmmyLua

open Analysis Object Text

/-! ### The entries of modules -/

/-- A member of a module: it has no members, says what it is and uses no modules. -/
structure IsMember (o : Object) : Prop where
  childless : o.children = []
  telling : o.form.priority ≠ 0
  unused : o.details.usedModules = []

/-- The entry of a module: nothing is known of its form and its line, and it has members. -/
structure IsModule (o : Object) : Prop where
  bare : o.form = .bare
  unlined : o.details.line = none
  keyed : Table.Keyed o.children
  members : ∀ name c, o.child? name = some c → IsMember c

variable {project : Path} {data : Json} {d : Details} {o c z : Object}

theorem tag_kept {t : Json} {d' : Details} (h : tag d t = .ok d') :
    d'.usedModules = d.usedModules ∧ d'.line = d.line := by
  unfold tag at h
  obtain ⟨kind, -, h⟩ := Except.ok_of_bind h
  split at h
  · obtain ⟨content, -, h⟩ := Except.ok_of_bind h
    cases h
    exact ⟨rfl, rfl⟩
  · obtain ⟨content, -, h⟩ := Except.ok_of_bind h
    split at h <;> cases h <;> exact ⟨rfl, rfl⟩
  · obtain ⟨content, -, h⟩ := Except.ok_of_bind h
    cases h
    exact ⟨rfl, rfl⟩
  · cases h
    exact ⟨rfl, rfl⟩

theorem tags_kept {d' : Details} (h : tags d data = .ok d') :
    d'.usedModules = d.usedModules ∧ d'.line = d.line := by
  unfold tags at h
  obtain ⟨list, -, h⟩ := Except.ok_of_bind h
  split at h
  · obtain ⟨items, -, h⟩ := Except.ok_of_bind h
    refine Except.foldlM_induction (P := fun e : Details =>
      e.usedModules = d.usedModules ∧ e.line = d.line) ⟨rfl, rfl⟩ (fun t _ e e' he ht => ?_) h
    obtain ⟨hused, hline⟩ := tag_kept ht
    exact ⟨hused.trans he.1, hline.trans he.2⟩
  · cases h
    exact ⟨rfl, rfl⟩

theorem common_kept (h : common data = .ok d) : d.usedModules = [] ∧ d.line = none := by
  unfold common at h
  obtain ⟨text, -, h⟩ := Except.ok_of_bind h
  obtain ⟨v, -, h⟩ := Except.ok_of_bind h
  obtain ⟨e, he, h⟩ := Except.ok_of_bind h
  iterate 5 obtain ⟨_, -, h⟩ := Except.ok_of_bind h
  cases h
  exact tags_kept he

theorem located_kept [FileSystem] {d' : Details} (h : located project data d = .ok d') :
    d'.usedModules = d.usedModules := by
  unfold located at h
  obtain ⟨loc, -, h⟩ := Except.ok_of_bind h
  split at h
  · cases h
    rfl
  · obtain ⟨file, -, h⟩ := Except.ok_of_bind h
    obtain ⟨line, -, h⟩ := Except.ok_of_bind h
    cases h
    rfl

theorem isMember_function [FileSystem] (h : function project data = .ok o) : IsMember o := by
  unfold function at h
  obtain ⟨c, hc, h⟩ := Except.ok_of_bind h
  obtain ⟨d, hd, h⟩ := Except.ok_of_bind h
  iterate 5 obtain ⟨_, -, h⟩ := Except.ok_of_bind h
  cases h
  exact ⟨rfl, nofun, (located_kept hd).trans (common_kept hc).1⟩

theorem isMember_variable [FileSystem] (h : variableOf project data = .ok o) : IsMember o := by
  unfold variableOf at h
  obtain ⟨type, -, h⟩ := Except.ok_of_bind h
  obtain ⟨c, hc, h⟩ := Except.ok_of_bind h
  obtain ⟨d, hd, h⟩ := Except.ok_of_bind h
  obtain ⟨value, -, h⟩ := Except.ok_of_bind h
  cases h
  exact ⟨rfl, nofun, (located_kept hd).trans (common_kept hc).1⟩

theorem isMember_absorb {lead other : Object} (hlead : IsMember lead) (hother : IsMember other)
    (h : lead.absorb other = .ok z) : IsMember z := by
  rw [absorb_eq, hlead.childless, hother.childless] at h
  cases h
  refine ⟨rfl, hlead.telling, ?_⟩
  rw [Details.absorb]
  exact List.append_eq_nil_iff.2 ⟨hlead.unused, hother.unused⟩

theorem isMember_merge (ho : IsMember o) (hc : IsMember c) (h : o.merge c = .ok z) :
    IsMember z := by
  unfold merge at h
  obtain ⟨first, -, h⟩ := Except.ok_of_bind h
  cases first with
  | true => exact isMember_absorb hc ho h
  | false => exact isMember_absorb ho hc h

theorem isModule_addChild {parent : Object} {name : String} (hparent : IsModule parent)
    (hc : IsMember c) (h : parent.addChild name c = .ok o) : IsModule o := by
  obtain ⟨z, rfl, hz⟩ := exists_of_addChild h
  have hmember : IsMember z := by
    rcases hz with ⟨-, rfl⟩ | ⟨known, hknown, hz⟩
    · exact hc
    · exact isMember_merge (hparent.members name known hknown) hc hz
  refine ⟨hparent.bare, hparent.unlined, Table.keyed_set hparent.keyed name z, ?_⟩
  intro other w hw
  rw [child?, Table.get?_set] at hw
  split at hw
  · cases hw
    exact hmember
  · exact hparent.members other w hw

theorem isModule_member [FileSystem] {parent : Object} (hparent : IsModule parent)
    (h : member project parent data = .ok o) : IsModule o := by
  unfold member at h
  obtain ⟨kind, -, h⟩ := Except.ok_of_bind h
  split at h
  · obtain ⟨c, hc, h⟩ := Except.ok_of_bind h
    obtain ⟨name, -, h⟩ := Except.ok_of_bind h
    exact isModule_addChild hparent (isMember_function hc) (Except.ok_of_mapError h)
  · obtain ⟨c, hc, h⟩ := Except.ok_of_bind h
    obtain ⟨name, -, h⟩ := Except.ok_of_bind h
    exact isModule_addChild hparent (isMember_variable hc) (Except.ok_of_mapError h)
  · cases h
    exact hparent

theorem line_placedModule [FileSystem] {d' : Details} (h : placedModule project data d = .ok d') :
    d'.line = d.line := by
  unfold placedModule at h
  obtain ⟨j, -, h⟩ := Except.ok_of_bind h
  split at h <;> split at h <;> cases h <;> rfl

/-- **What the entry of a module looks like.** -/
theorem isModule_moduleEntry [FileSystem] {function separator : Option String} {e : String × Object}
    (h : moduleEntry project function separator data = .ok e) : IsModule e.2 := by
  obtain ⟨c, d, o, _, _, hc, hd, ho, -, he⟩ := ok_of_moduleEntry h
  have hstart : IsModule ⟨d, .bare, []⟩ :=
    ⟨rfl, (line_placedModule hd).trans (common_kept hc).2, Table.keyed_nil, nofun⟩
  obtain ⟨items, -, ho⟩ := Except.ok_of_bind ho
  have hmembers : IsModule o := Except.foldlM_induction (P := IsModule) hstart
    (fun _ _ _ _ => isModule_member) ho
  rw [he]
  exact ⟨hmembers.bare, hmembers.unlined, hmembers.keyed, hmembers.members⟩

theorem name_moduleEntry [FileSystem] {function separator : Option String} {e : String × Object}
    (h : moduleEntry project function separator data = .ok e) : nameOf data = .ok e.1 := by
  obtain ⟨_, _, _, _, _, -, -, -, hname, -⟩ := ok_of_moduleEntry h
  exact hname

/-! ### What modules bring to a path -/

variable {s t : String × Object} {path : List String} {x y : Head}

theorem isModule_noted (h : IsModule o) (parts : List String) : IsModule (noted parts o) := by
  unfold noted
  split
  · exact ⟨h.bare, h.unlined, h.keyed, h.members⟩
  · exact h

/-- The heads in the entry of a module: its own, and those of its members. -/
theorem headAt?_module (h : IsModule o) {rest : List String} (hy : o.headAt? rest = some y) :
    rest = [] ∧ y = o.head ∨
      ∃ name c, rest = [name] ∧ o.child? name = some c ∧ y = c.head := by
  cases rest with
  | nil => exact .inl ⟨rfl, (Option.some.inj hy).symm⟩
  | cons name rest =>
    rw [headAt?_cons] at hy
    obtain ⟨c, hc, hy⟩ := Option.bind_eq_some_iff.1 hy
    cases rest with
    | nil => exact .inr ⟨name, c, rfl, hc, (Option.some.inj hy).symm⟩
    | cons next rest =>
      rw [headAt?_of_childless (h.members name c hc).childless (List.cons_ne_nil _ _)] at hy
      cases hy

/-- A module brings its own head to its path, and the heads of its members to theirs. -/
theorem brought_module (hs : IsModule s.2) (h : brought path s = some y) :
    splitString '.' s.1 = path ∧ y.form.priority = 0 ∧ y.details.line = none ∨
      (∃ name, path = splitString '.' s.1 ++ [name]) ∧ y.form.priority ≠ 0 ∧
        y.details.usedModules = [] := by
  obtain ⟨rest, rfl, hy⟩ := exists_of_brought h
  have hnoted := isModule_noted hs (splitString '.' s.1)
  rcases headAt?_module hnoted hy with ⟨rfl, rfl⟩ | ⟨name, c, rfl, hc, rfl⟩
  · exact .inl ⟨(List.append_nil _).symm, congrArg Form.priority hnoted.bare, hnoted.unlined⟩
  · have hmember := hnoted.members name c hc
    exact .inr ⟨⟨name, rfl⟩, hmember.telling, hmember.unused⟩

/-- At one path, two modules of different names bring a module and a member. -/
theorem contrast_of_ne (hs : IsModule s.2) (ht : IsModule t.2) (hne : s.1 ≠ t.1)
    (hx : brought path s = some x) (hy : brought path t = some y) :
    (x.form.priority = 0 ↔ y.form.priority ≠ 0) ∧
      (x.details.usedModules = [] ∨ y.details.usedModules = []) := by
  rcases brought_module hs hx with ⟨hpath, hx, -⟩ | ⟨⟨name, hpath⟩, hx, hused⟩
  · rcases brought_module ht hy with ⟨hpath', -, -⟩ | ⟨-, hy, hused⟩
    · exact absurd (splitString_injective (hpath.trans hpath'.symm)) hne
    · simp [hx, hy, hused]
  · rcases brought_module ht hy with ⟨-, hy, -⟩ | ⟨⟨name', hpath'⟩, -, -⟩
    · simp [hx, hy, hused]
    · have hparts := (List.append_inj' (hpath.symm.trans hpath') rfl).1
      exact absurd (splitString_injective hparts) hne

/-- The entries of modules of different names. -/
structure Modules (steps : List (String × Object)) : Prop where
  modules : ∀ s ∈ steps, IsModule s.2
  distinct : steps.Pairwise fun s t => s.1 ≠ t.1

variable {steps others : List (String × Object)}

theorem Modules.contrast (h : Modules steps) (path : List String) :
    (steps.filterMap (brought path)).Pairwise fun x y =>
      (x.form.priority = 0 ↔ y.form.priority ≠ 0) ∧
        (x.details.usedModules = [] ∨ y.details.usedModules = []) := by
  rw [List.pairwise_filterMap]
  refine h.distinct.imp_of_mem fun hs ht hne x hx y hy => ?_
  exact contrast_of_ne (h.modules _ hs) (h.modules _ ht) hne hx hy

theorem Modules.perm (h : Modules steps) (hperm : others.Perm steps) : Modules others :=
  ⟨fun s hs => h.modules s (hperm.mem_iff.1 hs),
    (hperm.pairwise_iff fun {s t : String × Object} (hne : s.1 ≠ t.1) => hne.symm).2 h.distinct⟩

/-! ### Modules can be added in every order -/

/-- A head that the entry of a module can be merged with: nothing is known of its form, its line and
its file, or it says what it is. -/
def Mergeable (x : Head) : Prop :=
  x.form.priority = 0 ∧ x.details.line = none ∧ x.details.foreign = false ∨ x.form.priority ≠ 0

theorem precedes_of_priority_lt (hx : x.details.foreign = false)
    (h : x.form.priority < y.form.priority) : y.precedes x = .ok true := by
  have hne : y.form.priority ≠ x.form.priority := by omega
  unfold Head.precedes
  rw [hx]
  cases y.details.foreign <;> simp [hne, h]

theorem mergeable_absorb {lead other : Head} (hlead : Mergeable lead) (hother : Mergeable other)
    (h : other.precedes lead = .ok false) : Mergeable (lead.absorb other) := by
  rcases hlead with ⟨hform, hline, hforeign⟩ | hform
  · rcases hother with ⟨-, hline', -⟩ | hform'
    · refine .inl ⟨hform, ?_, ?_⟩
      · simp [Head.absorb, Details.absorb, hline, hline']
      · simp [Head.absorb, Details.absorb, hforeign]
    · -- what says what it is leads
      rw [precedes_of_priority_lt hforeign (by omega)] at h
      cases h
  · exact .inr hform

/-- What is at the path of a module that is added next can be compared with it. -/
theorem comparable_module {cleanup : Bool} (hsteps : ∀ t ∈ steps, IsModule t.2 ∧ t.1 ≠ s.1)
    (hs : IsModule s.2) (hx : Gathered (meeting cleanup path steps) (some x))
    (hy : brought path s = some y) : x.Comparable y := by
  have hmet : ∀ w ∈ meeting cleanup path steps,
      w = (unknown cleanup).head ∨ ∃ t ∈ steps, brought path t = some w := by
    intro w hw
    rcases List.mem_append.1 hw with hw | hw
    · split at hw
      · exact .inl (List.mem_singleton.1 hw)
      · cases hw
    · exact .inr (List.mem_filterMap.1 hw)
  rcases brought_module hs hy with ⟨hpath, hform, hline⟩ | ⟨⟨name, hpath⟩, hform, -⟩
  · -- the module itself meets members of its parent only
    have hmergeable : Mergeable x := by
      refine hx.induction (fun w hw => ?_) fun _ _ => mergeable_absorb
      rcases hmet w hw with rfl | ⟨t, ht, hw⟩
      · exact .inl ⟨rfl, rfl, rfl⟩
      · obtain ⟨hmodule, hne⟩ := hsteps t ht
        have hcontrast := (contrast_of_ne hmodule hs hne hw hy).1
        exact .inr fun hzero => hcontrast.1 hzero hform
    rcases hmergeable with ⟨-, hline', -⟩ | hform'
    · exact Head.comparable_of_line_eq_none hline' hline
    · exact Head.comparable_of_priority_ne (by omega)
  · -- a member meets a module of its name only
    have hzero : x.form.priority = 0 := by
      refine hx.induction (P := fun w => w.form.priority = 0) (fun w hw => ?_)
        fun lead other hlead _ _ => hlead
      rcases hmet w hw with rfl | ⟨t, ht, hw⟩
      · rfl
      · obtain ⟨hmodule, hne⟩ := hsteps t ht
        exact (contrast_of_ne hmodule hs hne hw hy).1.2 hform
    exact Head.comparable_of_priority_ne (by omega)

theorem keyed_module (h : IsModule o) : o.Keyed :=
  keyed_iff.2 ⟨h.keyed, fun name c hc => keyed_of_childless (h.members name c hc).childless⟩

/-- **Modules of different names can be added in every order.** -/
theorem exists_insertAll {cleanup : Bool} (h : Modules steps) :
    ∃ root, insertAll cleanup (unknown cleanup) steps = .ok root := by
  have hsome : ∃ root, insertAll cleanup (unknown cleanup) steps = .ok root ∧ root.Keyed := by
    induction steps using List.reverseRecOn with
    | nil => exact ⟨_, rfl, keyed_of_childless rfl⟩
    | append_singleton steps s ih =>
      have hdistinct := List.pairwise_append.1 h.distinct
      have hbefore : Modules steps :=
        ⟨fun t ht => h.modules t (List.mem_append_left _ ht), hdistinct.1⟩
      obtain ⟨root, hroot, hkeyed⟩ := ih hbefore
      have hs : IsModule s.2 := h.modules s (List.mem_append_right _ (List.mem_singleton_self s))
      have hsteps : ∀ t ∈ steps, IsModule t.2 ∧ t.1 ≠ s.1 := fun t ht =>
        ⟨hbefore.modules t ht, hdistinct.2.2 t ht s (List.mem_singleton_self s)⟩
      have hcomparable : ∀ path x y, root.headAt? path = some x → brought path s = some y →
          x.Comparable y := by
        intro path x y hx hy
        have hpath : path ≠ [] := by
          rintro rfl
          obtain ⟨rest, hrest, -⟩ := exists_of_brought hy
          exact splitString_ne_nil '.' s.1 (List.append_eq_nil_iff.1 hrest.symm).1
        have hgathered := gathered_insertAll hroot hpath (headAt?_of_childless rfl hpath)
        rw [hx] at hgathered
        exact comparable_module hsteps hs hgathered hy
      have hinsert : ∃ merged, root.insert cleanup s.1 s.2 = .ok merged :=
        exists_insert hkeyed (keyed_module hs) hcomparable
      obtain ⟨merged, hmerged⟩ := hinsert
      refine ⟨merged, ?_, keyed_insert hkeyed (keyed_module hs) hmerged⟩
      exact insertAll_append.2 ⟨root, hroot, insertAll_cons.2 ⟨merged, hmerged, rfl⟩⟩
  obtain ⟨root, hroot, -⟩ := hsome
  exact ⟨root, hroot⟩

end LuaDocs.EmmyLua
