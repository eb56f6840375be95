import LuaDocs.Proofs.Description.Settled
import LuaDocs.Proofs.Name.Components
import LuaDocs.Proofs.Render.Module
import LuaDocs.Proofs.Render.Upholds

/-!
# Normal names in the context and in the tables

The full name of an object is put together from the module and the class in the context, or from
the module that an option names, and from the name that its signature gives. Where these are
normal, the full name is normal, and so are the module and the class in the context of the body.
What is saved in the context comes back into force later, so the invariant asks it of all the
values that are saved.
-/

namespace LuaDocs

open Text Render

/-! ### Names that may be missing -/

/-- The name is missing or empty, or it is normal. -/
def Name.NormalIfGiven (name : Option String) : Prop :=
  ∀ n, Context.nonEmpty name = some n → IsNormal n

/-- The module that the options name is normal, if they name one. -/
def Options.NormalModule (o : Options) : Prop :=
  ∀ v, o.get? "module" = some v → Name.NormalIfGiven v.text?

namespace Name

variable {name : String}

theorem normalIfGiven_none : NormalIfGiven none := nofun

theorem NormalIfGiven.nonEmpty {name : Option String} (h : NormalIfGiven name) :
    NormalIfGiven (Context.nonEmpty name) := by
  intro n hn
  rw [Context.nonEmpty_nonEmpty] at hn
  exact h n hn

theorem IsNormal.normalIfGiven (h : IsNormal name) : NormalIfGiven (some name) := by
  intro n hn
  rw [Context.nonEmpty_some h.ne_empty] at hn
  exact Option.some.inj hn ▸ h

/-- A normal name below others that are normal if they are given. -/
theorem isNormal_joinGiven_concat (outer : List (Option String))
    (houter : ∀ o ∈ outer, NormalIfGiven o) (h : IsNormal name) :
    IsNormal (Index.joinGiven (outer ++ [some name])) := by
  have hparts : (outer ++ [some name]).filterMap Context.nonEmpty =
      outer.filterMap Context.nonEmpty ++ [name] := by
    rw [List.filterMap_append]
    simp [Context.nonEmpty_some h.ne_empty]
  refine isNormal_joinGiven (by rw [hparts]; simp) ?_
  rw [hparts, List.forall_mem_append]
  refine ⟨fun n hn => ?_, List.forall_mem_singleton.2 h⟩
  obtain ⟨o, ho, hn⟩ := List.mem_filterMap.1 hn
  exact houter o ho n hn

/-- A path of normal names, which may be empty. -/
theorem normalIfGiven_joinStrings {path : List String} (h : ∀ n ∈ path, IsNormal n) :
    NormalIfGiven (some (joinStrings '.' path)) := by
  by_cases hpath : path = []
  · rw [hpath]
    exact nofun
  · exact (isNormal_joinStrings hpath h).normalIfGiven

end Name

/-! ### The context -/

namespace Scoped

variable {α : Type} {P : Option α → Prop} {s : Scoped α}

/-- The value in force has the property, and so do the values that are saved. -/
def All (P : Option α → Prop) (s : Scoped α) : Prop := P s.get? ∧ ∀ v ∈ s.frames, P v

theorem All.push (h : s.All P) {next : Option α} (hnext : P next) : (s.push next).All P := by
  refine ⟨by rwa [get?_push], ?_⟩
  rw [frames_push, List.forall_mem_cons]
  exact h

theorem All.pop (h : s.All P) (hnone : P none) : s.pop.All P := by
  have hframes := h.2
  rw [frames] at hframes
  rw [Scoped.pop]
  split
  · exact ⟨hnone, List.forall_mem_nil _⟩
  · next hsaved =>
    rw [hsaved, List.forall_mem_cons] at hframes
    exact ⟨by rw [get?, Slot.get?_ofOption]; exact hframes.1, hframes.2⟩

end Scoped

namespace Context

/-- The modules and the classes in the context, in force or saved, are normal. -/
structure Normal (c : Context) : Prop where
  moduleName : c.moduleName.All Name.NormalIfGiven
  className : c.className.All Name.NormalIfGiven

variable {c : Context}

theorem normal_empty : Normal empty :=
  ⟨⟨Name.normalIfGiven_none, nofun⟩, ⟨Name.normalIfGiven_none, nofun⟩⟩

theorem Normal.push (h : c.Normal) {m k : Option String} (hm : Name.NormalIfGiven m)
    (hk : Name.NormalIfGiven k) (u : Option Selection) : (c.push m k u).Normal :=
  ⟨h.moduleName.push hm.nonEmpty, h.className.push hk.nonEmpty⟩

theorem Normal.pop (h : c.Normal) : c.pop.Normal :=
  ⟨h.moduleName.pop Name.normalIfGiven_none, h.className.pop Name.normalIfGiven_none⟩

end Context

/-- The module and the class that an object belongs to are normal. -/
theorem Naming.normal_home {options : Options} {c : Context} (ho : options.NormalModule)
    (hc : c.Normal) : Name.NormalIfGiven (home options c).1 ∧
      Name.NormalIfGiven (home options c).2 := by
  unfold home
  split
  · next v hv =>
    have hgiven := ho v hv
    refine ⟨?_, Name.normalIfGiven_none⟩
    cases h : v.text? with
    | none => exact nofun
    | some text => exact (h ▸ hgiven).nonEmpty
  · exact ⟨hc.moduleName.1.nonEmpty, hc.className.1.nonEmpty⟩

/-! ### The state -/

namespace Render

/-- The names in the context are normal, and so are the full names in the tables. -/
structure State.Normal (s : State) : Prop where
  context : s.page.context.Normal
  objects : ∀ key, s.index.objects.has key = true → Name.IsNormal key

namespace State.Normal

variable {s t : State}

theorem of_persists (h : s.Normal) (hst : Persists Name.IsNormal s t)
    (hc : t.page.context.Normal) : t.Normal :=
  ⟨hc, fun key hkey => (hst.entered key hkey).elim (h.objects key) id⟩

theorem of_mild (h : s.Normal) (hst : Mild Name.IsNormal s t) : t.Normal :=
  h.of_persists hst.toPersists (hst.context ▸ h.context)

theorem inContext (h : s.Normal) {c : Context} (hc : c.Normal) : (s.inContext c).Normal :=
  ⟨hc, h.objects⟩

theorem pop (h : s.Normal) : (s.inContext s.page.context.pop).Normal := h.inContext h.context.pop

end State.Normal

/-- The rendering upholds that names are normal. -/
abbrev KeepsNormal {α : Type} (site : Site) (x : Render α) : Prop :=
  Upholds State.Normal site (fun _ => True) x

/-- A rendering that enters normal names only and leaves the context as it is. -/
theorem keepsNormal_of_mild {α : Type} {site : Site} {F : Failure → Prop} {x : Render α}
    (h : Respects site (Mild Name.IsNormal) F x) : KeepsNormal site x :=
  .of_respects h fun _ _ hst hs => hs.of_mild hst

end Render

/-! ### Descriptions -/

namespace Description

variable {d : Description} {c : Context}

/-- Objects are entered under normal names, -/
theorem namedIn_isNormal (hnames : ∀ name ∈ d.names, Name.IsNormal name)
    (hmodule : d.options.NormalModule) (hc : c.Normal) : d.NamedIn Name.IsNormal c := by
  intro _ n hn
  obtain ⟨name, hname, rfl⟩ := List.mem_map.1 hn
  obtain ⟨hm, hk⟩ := Naming.normal_home hmodule hc
  rw [Naming.fullname_ofName]
  refine Name.isNormal_joinGiven_concat [_, _] ?_ (hnames name hname)
  simp only [List.forall_mem_cons]
  exact ⟨hm, hk, nofun⟩

theorem isNormal_below {outer : Option String} {name : String} (houter : Name.NormalIfGiven outer)
    (hname : Name.IsNormal name) : Name.IsNormal (below outer name) := by
  rw [below_eq hname.ne_empty]
  exact Name.isNormal_joinGiven_concat [outer] (List.forall_mem_singleton.2 houter) hname

/-- and the context of the body is normal. -/
theorem normal_bodyContext (hnames : ∀ name ∈ d.names, Name.IsNormal name)
    (hmodule : d.options.NormalModule) (hc : c.Normal) : (d.bodyContext c).Normal := by
  rw [bodyContext_eq]
  split
  · next name hlast =>
    have hname := hnames name (List.mem_of_getLast? hlast)
    obtain ⟨hm, hk⟩ := Naming.normal_home hmodule hc
    split
    · unfold insideHome
      split
      · exact hc.push (isNormal_below hm hname).normalIfGiven Name.normalIfGiven_none _
      · exact hc.push hm (isNormal_below hk hname).normalIfGiven _
    · exact hc
  · exact hc

theorem get?_module_withCurrentNames (o : Options) :
    o.withCurrentNames.get? "module" = o.get? "module" := by
  unfold Options.withCurrentNames
  refine List.foldlRecOn (motive := fun o' : Options => o'.get? "module" = o.get? "module")
    _ _ rfl fun o' ho names hnames => ?_
  have hother : names.1 ≠ "module" := by
    revert names
    decide
  split
  · rw [Table.get?_set_of_ne _ _ hother, ho]
  · exact ho

/-- **A description whose names are normal upholds that names are normal**, if its body does. -/
theorem normal_render {site : Site} (hnames : ∀ name ∈ d.names, Name.IsNormal name)
    (hmodule : d.options.NormalModule) (hbody : KeepsNormal site d.body)
    (hcomplete : ∀ fullname nodes, KeepsNormal site (d.complete fullname nodes)) :
    KeepsNormal site d.render := by
  have hmodule' : d.renamed.options.NormalModule := by
    intro v hv
    refine hmodule v ?_
    rw [← get?_module_withCurrentNames]
    exact hv
  refine ⟨fun s hs => ?_⟩
  refine ensures_render (Q := fun t => True ∧ t.Normal)
    (namedIn_isNormal (d := d.renamed) hnames hmodule' hs.context)
    (fun e t _ hst => hs.of_mild hst) ?_
  intro t hst hc _ fullname
  have ht : t.Normal := hs.of_persists hst
    (hc ▸ normal_bodyContext (d := d.renamed) hnames hmodule' hs.context)
  have hinner : KeepsNormal site (d.body >>= d.complete fullname >>= gatherFields) :=
    .bind (.bind hbody fun nodes _ => hcomplete fullname nodes)
      fun nodes _ => keepsNormal_of_mild (mild_gatherFields nodes)
  refine (hinner.ensures t ht).mono ?_ fun _ _ h => h
  rintro _ u ⟨-, hu⟩
  refine ⟨trivial, ?_⟩
  unfold afterBody
  split
  · exact hu.pop
  · exact hu

end Description

/-! ### Modules -/

namespace ModuleDirective

variable {site : Site} {argument : Option String}

theorem normal_readArgument (h : ∀ text ∈ argument, ∀ name, nameIn? text = some name →
    Name.IsNormal name) (directive : String) :
    Upholds State.Normal site Name.IsNormal (readArgument directive argument) := by
  unfold readArgument
  refine .bind (.context fun s hs => hs.context) fun c _ => ?_
  dsimp only
  split
  refine .bind (P := fun _ => True) (.throw _) fun _ _ => ?_
  -- inside a class or not, the argument is read in the same way
  all_goals
    refine .bind (.orFail fun text htext => htext) fun text htext => ?_
    split
    · exact .throw _
    · next name rest hname =>
      split
      · next hrest => exact .pure (h text htext name (by rw [nameIn?, hname]; exact if_pos hrest))
      · exact .throw _

theorem normal_setModule {name : Option String} (h : Name.NormalIfGiven name) :
    KeepsNormal site (setModule name) := by
  unfold setModule
  refine .bind (.context fun s hs => hs.context) fun c hc => .setContext fun s hs => ?_
  refine hs.inContext ⟨⟨?_, hc.moduleName.2⟩, hc.className⟩
  cases name with
  | none => exact Name.normalIfGiven_none
  | some n => exact h

/-- Starting a module upholds that names are normal, if the name of the module is. -/
theorem normal_start (h : ∀ text ∈ argument, ∀ name, nameIn? text = some name →
    Name.IsNormal name) (options : Options) : KeepsNormal site (start argument options) := by
  unfold start
  refine .bind (normal_readArgument h _) fun name hname => ?_
  refine .bind (normal_setModule hname.normalIfGiven) fun _ _ => ?_
  split
  · exact .pure trivial
  · exact (keepsNormal_of_mild (mild_enter (fun _ => True) hname _ _ _ _)).bind fun _ _ =>
      .pure trivial

/-- Setting the current module upholds that names are normal, if the name of the module is. -/
theorem normal_setCurrent (h : ∀ text ∈ argument, ∀ name, nameIn? text = some name →
    Name.IsNormal name) : KeepsNormal site (setCurrent argument) := by
  refine .bind (normal_readArgument h _) fun name hname => ?_
  refine .bind (normal_setModule ?_) fun _ _ => .pure trivial
  split
  · exact Name.normalIfGiven_none
  · exact hname.normalIfGiven

end ModuleDirective

end LuaDocs
