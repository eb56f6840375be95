import LuaDocs.Proofs.Auto.Saved
import LuaDocs.Proofs.Auto.Signatures
import LuaDocs.Proofs.Render.Normal

/-!
# Objects of the tree are entered under normal names

An object of the tree is entered under a name that is made of names in the tree, and of the module
that its documentation sets. None of these is brought into normal form: a key that the analyzer
reports in another spelling is entered in that spelling. Where the names in the tree are normal, all
that a directive for an object of the tree enters has a normal name, whatever its argument is and
however it ends.

## Main results

* `Auto.normal_render`: a description at any depth enters normal names
* `Auto.normal_run`: a directive for an object of the tree enters normal names
-/

namespace LuaDocs

open Render

/-- If the documentation of the object sets a module, the name of the module is normal. -/
def Object.NormalSettings (o : Object) : Prop :=
  ∀ setting ∈ o.reading.options, setting.1 = "module" → Name.NormalIfGiven (some setting.2)

/-- If the object is a class with a constructor, the name of the constructor is normal, and the
module that its documentation sets. -/
def Object.NormalMaker (o : Object) : Prop :=
  ∀ info maker, o.form = .class_ info → info.maker = some maker →
    Name.IsComponent ((given info.constructorName).getD "__call").toList ∧
      maker.toObject.NormalSettings

/-- The names in the tree are identifiers and keys in normal form, the modules that its
documentation sets have normal names, and the defaults come from a configuration. -/
structure Site.NamesNormal (site : Site) : Prop where
  names : ∀ e ∈ site.tree.entries, ∀ name ∈ e.1, Name.IsComponent name.toList
  settings : ∀ e ∈ site.tree.entries, e.2.NormalSettings
  makers : ∀ e ∈ site.tree.entries, e.2.NormalMaker
  configured : ∃ name value, Config.options name value = .ok site.defaults

/-- The texts of the comments on an object, and on the constructor of a class. -/
def Object.commentTexts (o : Object) : List String :=
  Auto.textsOf o ++
    match o.form with
    | .class_ info => (info.maker.map fun maker => Auto.textsOf maker.toObject).getD []
    | _ => []

/-- What is asked of a site: the names in its tree are normal, and the comments in its tree enter
normal names only. -/
structure Site.Normal (site : Site) : Prop extends site.NamesNormal where
  comments : ∀ e ∈ site.tree.entries, ∀ titles, ∀ text ∈ e.2.commentTexts,
    KeepsNormal site (Render.docs titles text)

/-! ### Options -/

namespace Options.NormalModule

variable {o : Options} {key : String}

theorem of_none (h : o.get? "module" = none) : o.NormalModule := by
  intro v hv
  rw [h] at hv
  cases hv

theorem set (h : o.NormalModule) (hkey : key ≠ "module") (v : OptionValue) :
    NormalModule (o.set key v) := by
  intro w hw
  rw [Table.get?_set_of_ne _ _ hkey] at hw
  exact h w hw

theorem set_module {v : OptionValue} (hv : Name.NormalIfGiven v.text?) :
    NormalModule (o.set "module" v) := by
  intro w hw
  rw [Table.get?_set_self] at hw
  exact Option.some.inj hw ▸ hv

/-- Setting an option to a value that was read for it, where the module is any text. -/
theorem set_read {c : Converter} {value : Option String} {v : OptionValue} (h : o.NormalModule)
    (hc : key = "module" → c = .text) (hvalue : key = "module" → Name.NormalIfGiven value)
    (hv : c.read value = .ok v) : NormalModule (o.set key v) := by
  by_cases hkey : key = "module"
  · subst hkey
    obtain rfl := hc rfl
    obtain rfl := Except.ok.inj hv
    refine set_module ?_
    cases value with
    | none => exact nofun
    | some text => exact hvalue rfl
  · exact h.set hkey v

/-- A configuration has no default for the module. -/
theorem withDefaults {site : Site} (hsite : site.Normal) (h : o.NormalModule) :
    (o.withDefaults site.defaults).NormalModule := by
  obtain ⟨name, value, hconfig⟩ := hsite.configured
  intro v hv
  rcases Auto.get?_withDefaults o site.defaults "module" with hsame | ⟨d, hd, -⟩
  · exact h v (hsame ▸ hv)
  · exact absurd (Auto.eq_of_config hconfig (by decide) hd) (by decide)

end Options.NormalModule

namespace Auto

variable {m : Member} {info : Object.ClassInfo}

theorem autoSpec_module : Options.autoSpec.get? "module" = some .text := by decide +kernel

/-- The options of a description name a normal module, or none. -/
theorem normalModule_memberOptions {frame : Frame} {direct : Bool} {object : Object}
    {options : Options} (hobject : object.NormalSettings)
    (h : memberOptions frame direct object = .ok options) : options.NormalModule := by
  unfold memberOptions at h
  have hstart : Options.NormalModule (if direct then frame.options.erase "module"
      else handDown frame.options) := by
    refine .of_none ?_
    split
    · rw [Table.get?_erase, if_pos rfl]
    · exact (takenFrom_handDown frame.options).module_eq_none
  have hdetail : ∀ key ∈ detailKeys, key ≠ "module" := by decide
  have hdetails := withDetails_induction (P := Options.NormalModule) hstart
    (fun o ho key hkey => ho.set (hdetail key hkey) _) object.details
  obtain ⟨o₁, h₁, h⟩ := Except.ok_of_bind h
  obtain ⟨o₂, h₂, h⟩ := Except.ok_of_bind h
  have hsettings : o₁.NormalModule := by
    refine Except.foldlM_induction (P := Options.NormalModule) hdetails ?_
      (Except.ok_of_mapError h₁)
    rintro ⟨key, value⟩ hsetting o o' ho hstep
    unfold Options.addSetting at hstep
    split at hstep
    · cases hstep
    · next c hc =>
      split at hstep
      · next v hv =>
        obtain rfl := Except.ok.inj hstep
        refine ho.set_read ?_ (hobject _ hsetting) hv
        rintro rfl
        exact Option.some.inj (hc.symm.trans autoSpec_module)
      · cases hstep
  have hused : o₂.NormalModule :=
    addUsed_induction (P := Options.NormalModule) hsettings (hsettings.set (by decide)) h₂
  split at h
  · have hmodule : Options.NormalModule (o₂.set "module" (.text "")) := .set_module nofun
    cases h
    split
    · exact hmodule
    · exact hmodule.set (by decide) _
  · cases h
    exact hused

/-! ### Members -/

variable {site : Site}

/-- What is asked of an object that is described: its name is normal, and its members are objects of
the tree. -/
structure NormalMember (site : Site) (m : Member) : Prop where
  name : Name.IsComponent m.name.toList
  settings : m.object.NormalSettings
  maker : m.object.NormalMaker
  comments : ∀ titles, ∀ text ∈ m.object.commentTexts, KeepsNormal site (docs titles text)
  children : ∀ c ∈ m.object.children, (m.path ++ [c.1], c.2) ∈ site.tree.entries

theorem NormalMember.of_entry (hsite : site.Normal)
    (h : (m.path, m.object) ∈ site.tree.entries) (hname : m.name ∈ m.path) :
    NormalMember site m :=
  ⟨hsite.names _ h _ hname, hsite.settings _ h, hsite.makers _ h, hsite.comments _ h,
    fun _ hc => Object.mem_entries_child h hc⟩

theorem NormalMember.ofMaker (h : NormalMember site m)
    {maker : Object.Constructor} (hform : m.object.form = .class_ info)
    (hmaker : info.maker = some maker) (path : List String) :
    NormalMember site (constructorMember path info maker) := by
  obtain ⟨hname, hsettings⟩ := h.maker info maker hform hmaker
  refine ⟨hname, hsettings, ?_, fun titles text htext => h.comments titles text ?_, ?_⟩
  · intro info' maker' hform'
    cases hform'
  · have hown : text ∈ textsOf maker.toObject ++ [] := htext
    rw [List.append_nil] at hown
    rw [Object.commentTexts, hform]
    dsimp only
    rw [hmaker]
    exact List.mem_append_right _ hown
  · intro c hc
    cases hc

theorem NormalMember.texts (h : NormalMember site m) :
    TextsRespect site (fun s t => s.Normal → t.Normal) (fun _ => True) m.object :=
  fun titles text htext => (h.comments titles text (List.mem_append_left _ htext)).respects

/-- The renderer of members enters normal names for what is asked. -/
def ChildrenNormal (site : Site) (child : MemberRenderer) : Prop :=
  ∀ frame m, NormalMember site m → KeepsNormal site (child frame m)

variable {child : MemberRenderer} (hsite : site.Normal)

section Members

include hsite

theorem normal_membersOf (hm : NormalMember site m) (options : Options) :
    Upholds State.Normal site (fun ms => ∀ n ∈ ms, NormalMember site n)
      (membersOf m options) := by
  refine .bind .read fun other hother => ?_
  obtain rfl := hother
  refine .bind (.context fun s hs => hs.context) fun c _ => .lift fun ms hms n hn => ?_
  rcases mem_of_listMembers hms hn with ⟨c, hc, rfl⟩ | ⟨c, hc, rfl⟩
  · exact .of_entry hsite (hm.children c hc) (by simp)
  · exact .of_entry hsite (Object.mem_entries_root hc) (by simp)

theorem normal_renderMembers (hchild : ChildrenNormal site child) (frame : Frame)
    (hm : NormalMember site m) (options : Options) :
    KeepsNormal site (renderMembers child frame m options) :=
  .bind (normal_membersOf hsite hm options) fun _ hms =>
    .bind (.mapM fun n hn => hchild frame n (hms n hn)) fun _ _ => .pure trivial

end Members

theorem normal_documentation (hm : NormalMember site m) (t : ObjType) (options : Options)
    (fullname : Option String) : KeepsNormal site (documentation m.object t options fullname) :=
  .of_respects (respects_documentation (fun _ _ hst hs => hs.of_mild hst) (fun _ _ => trivial)
    hm.texts t options fullname) fun _ _ h => h

theorem normal_dependOn (files : List Path) : KeepsNormal site (Render.dependOn files) :=
  keepsNormal_of_mild (mild_dependOn (fun _ => True) files)

theorem normal_newSection (title : String) : KeepsNormal site (Render.newSection title) :=
  keepsNormal_of_mild (mild_newSection (fun _ => True) title)

/-! ### Kinds of objects -/

/-- What is asked of an object that is to be described, of its signatures and of its body. -/
structure NormalRequest (site : Site) (r : Request) : Prop where
  member : NormalMember site r.member
  spelt : r.Spelt
  body : KeepsNormal site r.body

theorem NormalRequest.ofMember (h : NormalMember site m) :
    NormalRequest site (.ofMember m) :=
  ⟨h, Request.spelt_of_made rfl, .pure trivial⟩

/-- The names of a description are normal if its signatures give the name of the object. -/
theorem NormalRequest.names {r : Request} (h : NormalRequest site r) (t : ObjType)
    {made : List MadeSignature} (hmade : Gives r.member.name made) :
    ∀ name ∈ Description.namesIn (chosenSignatures r t made), Name.IsNormal name := by
  intro name hname
  obtain ⟨sig, hsig, subject, hread⟩ := Description.mem_namesIn.1 hname
  obtain rfl : name = r.member.name :=
    gives_chosenSignatures h.member.name h.spelt t hmade sig hsig _ hread
  exact Name.isNormal_of_isComponent h.member.name

section Kinds

include hsite

variable {r : Request} (hr : NormalRequest site r) {options : Options}
  (hoptions : options.NormalModule)

include hr hoptions

theorem normal_functionDescription {c : Callable} (hform : r.member.object.form = .function c)
    (t : ObjType) : KeepsNormal site (functionDescription site r c t options).render := by
  refine Description.normal_render (hr.names t (gives_functionSignatures _ c))
    (hoptions.withDefaults hsite) hr.body fun _ _ => ?_
  refine .bind (normal_documentation hr.member _ _ _) fun _ _ => ?_
  exact .of_respects (respects_withParameters (hr.member.texts.call hform) _ _) fun _ _ h => h

theorem normal_plainDescription (hchild : ChildrenNormal site child) (t : ObjType) :
    KeepsNormal site (plainDescription site child r t options).render := by
  refine Description.normal_render (hr.names t ?_) (hoptions.withDefaults hsite) hr.body
    fun fullname nodes => ?_
  · split <;> exact gives_singleton _ _
  refine .bind (normal_documentation hr.member _ _ _) fun _ _ => ?_
  dsimp only
  split
  · exact (normal_renderMembers hsite hchild _ hr.member _).bind fun _ _ => .pure trivial
  · exact .bind (P := fun _ => True) (.pure trivial) fun _ _ => .pure trivial

omit hr hoptions in
theorem normal_constructorNodes (hchild : ChildrenNormal site child)
    (hm : NormalMember site m) (hform : m.object.form = .class_ info)
    (frame : Frame) (path : List String) (docFrom : String) :
    KeepsNormal site (constructorNodes child frame path info docFrom) := by
  unfold constructorNodes
  split
  · exact .pure trivial
  · next maker hmaker =>
    have hnormal := hm.ofMaker hform hmaker path
    dsimp only
    split
    · exact hchild _ _ hnormal
    · split
      · exact .pure trivial
      · refine .bind (.lift fun own hown => normalModule_memberOptions hnormal.settings hown)
          fun own hown => ?_
        refine .bind (normal_dependOn _) fun _ _ => .bind .read fun other hother => ?_
        obtain rfl := hother
        exact (normal_functionDescription hsite (.ofMember hnormal) (hown.set (by decide) _)
          rfl _).bind fun _ _ => .pure trivial

theorem normal_classDescription (hchild : ChildrenNormal site child)
    (hform : r.member.object.form = .class_ info) (t : ObjType) :
    KeepsNormal site (classDescription site child r info t options).render := by
  have hall : (classOptions site r info options).NormalModule := by
    unfold classOptions
    dsimp only
    split
    · exact (hoptions.withDefaults hsite).set (by decide) _
    · exact hoptions.withDefaults hsite
  refine Description.normal_render (hr.names t (gives_classSignatures _ _ _ _)) hall hr.body
    fun fullname nodes => ?_
  have hrest := fun (frame : Frame) (docFrom : String) (docs : List Node) =>
    (normal_constructorNodes hsite hchild hr.member hform frame r.member.path docFrom).bind
      fun making _ => (normal_renderMembers hsite hchild frame hr.member
        (classOptions site r info options)).bind
      fun members _ => (.pure trivial : KeepsNormal site (pure (nodes ++ docs ++ making ++
        members ++ if (classOptions site r info options).has "inherited-members-table" then
          [.element (.inheritedMembers fullname) []] else [])))
  unfold classDescription
  dsimp only
  split
  · exact .bind (P := fun _ => True) (.pure trivial) fun _ _ => hrest _ _ _
  · exact (normal_documentation hr.member _ _ _).bind fun _ _ => hrest _ _ _

theorem normal_describe (hchild : ChildrenNormal site child) (c : Context) (kind : Kind) :
    KeepsNormal site (describe site c child r kind options).render := by
  unfold describe
  split
  · next hform => exact normal_functionDescription hsite hr hoptions hform _
  · next hform => exact normal_classDescription hsite hr hoptions hchild hform _
  · exact normal_plainDescription hsite hr hoptions hchild _

end Kinds

/-! ### Pages -/

theorem normal_renderGroups (hchild : ChildrenNormal site child) (frame : Frame)
    (current : Option OpenGroup) {ms : List Member} (hms : ∀ n ∈ ms, NormalMember site n) :
    KeepsNormal site (renderGroups child frame current ms) := by
  induction ms generalizing current with
  | nil => exact .pure trivial
  | cons m rest ih =>
    obtain ⟨hm, hrest⟩ := List.forall_mem_cons.1 hms
    unfold renderGroups
    dsimp only
    -- the member and the others after it, whatever group is open
    have hafter := fun (closed : List Node) (group : OpenGroup) =>
      (hchild frame m hm).bind fun nodes _ =>
        (ih (some { group with nodes := group.nodes ++ nodes }) hrest).bind fun more _ =>
          (.pure trivial : KeepsNormal site (pure (closed ++ more)))
    split
    · split
      · exact .bind (P := fun _ => True) (.pure trivial) fun _ _ => hafter _ _
      · exact (normal_newSection _).bind fun _ _ =>
          .bind (P := fun _ => True) (.pure trivial) fun _ _ => hafter _ _
    · exact (normal_newSection _).bind fun _ _ =>
        .bind (P := fun _ => True) (.pure trivial) fun _ _ => hafter _ _

section Pages

variable {body : Render (List Node)}

include hsite

theorem normal_moduleMembers (hchild : ChildrenNormal site child) (frame : Frame)
    (hm : NormalMember site m) (options : Options) :
    KeepsNormal site (moduleMembers child frame m options) := by
  unfold moduleMembers
  dsimp only
  refine (normal_membersOf hsite hm options).bind fun ms hms => ?_
  split
  · exact normal_renderGroups hchild frame none hms
  · refine .bind (.mapM fun n hn => hchild frame n (hms n hn)) fun nodes _ => ?_
    split
    · exact .pure trivial
    · split
      · exact (normal_newSection _).bind fun _ _ => .pure trivial
      · exact .pure trivial

theorem normal_describeModule (hchild : ChildrenNormal site child) {r : Request}
    (hr : NormalRequest site r) {name : String} (hname : Name.IsNormal name) (options : Options) :
    KeepsNormal site (describeModule child r name options) := by
  have hread : ∀ text ∈ some name, ∀ own, ModuleDirective.nameIn? text = some own →
      Name.IsNormal own := by
    rintro text ⟨⟩ own hown
    rw [ModuleDirective.nameIn?, Name.readName_of_isNormal hname] at hown
    exact Option.some.inj hown ▸ hname
  have hpage : KeepsNormal site (do
      let site ← read
      Render.dependOn r.member.object.details.files
      let heading ← ModuleDirective.start (some name) (options.withDefaults site.defaults)
      let body ← r.body
      let docs ← documentation r.member.object .module_ (options.withDefaults site.defaults)
        (some name)
      let index ← indexSection name (options.withDefaults site.defaults)
      let members ← moduleMembers child ⟨name, options⟩ r.member
        (options.withDefaults site.defaults)
      return heading ++ body ++ docs ++ index ++ members) :=
    .bind .read fun _ _ => (normal_dependOn _).bind fun _ _ =>
      (ModuleDirective.normal_start hread _).bind fun _ _ => hr.body.bind fun _ _ =>
        (normal_documentation hr.member _ _ _).bind fun _ _ =>
          (keepsNormal_of_mild (mild_indexSection (fun _ => True) _ _)).bind fun _ _ =>
            (normal_moduleMembers hsite hchild _ hr.member _).bind fun _ _ => .pure trivial
  unfold describeModule
  dsimp only
  split
  · exact .bind (P := fun _ => True) (.throw _) fun _ _ => hpage
  · exact hpage

/-! ### Any object -/

theorem normal_renderLevel (hchild : ChildrenNormal site child) (frame : Frame) {r : Request}
    (hr : NormalRequest site r) : KeepsNormal site (renderLevel child frame r) := by
  unfold renderLevel
  refine (keepsNormal_of_mild (mild_checkedKind r)).bind fun kind _ => ?_
  refine .bind (.context fun s hs => hs.context) fun c hc => ?_
  refine .bind (.lift fun own hown => normalModule_memberOptions hr.member.settings hown)
    fun options hoptions => ?_
  split
  · refine normal_describeModule hsite hchild hr ?_ options
    exact Name.isNormal_joinGiven_concat [_] (List.forall_mem_singleton.2 hc.moduleName.1)
      (Name.isNormal_of_isComponent hr.member.name)
  · refine (normal_dependOn _).bind fun _ _ => .bind .read fun other hother => ?_
    obtain rfl := hother
    exact normal_describe hsite hr hoptions hchild c kind

/-- A description at any depth enters normal names. -/
theorem normal_render (depth : Nat) (frame : Frame) {r : Request} (hr : NormalRequest site r) :
    KeepsNormal site (render depth frame r) := by
  induction depth generalizing frame r with
  | zero => exact .throw _
  | succ depth ih =>
    rw [render]
    exact normal_renderLevel hsite (fun frame m hm => ih frame (.ofMember hm)) frame hr

/-! ### Directives -/

/-- The object that a directive names is an object of the tree with a normal name, and the module
and the class in which it is described are normal. -/
theorem normal_target {c : Context} {options : Options} {argument : String} {target : Target}
    {signatures : Option (List String)} (hc : c.Normal)
    (h : resolve site c options argument = .ok (target, signatures)) (wanted : Option ObjType)
    (hbody : KeepsNormal site body) :
    NormalRequest site ⟨target.member, true, wanted, signatures, body⟩ ∧
      Name.NormalIfGiven (target.home c).1 ∧ Name.NormalIfGiven (target.home c).2 := by
  obtain ⟨hentry, ⟨m, k, hparent, hm, hk⟩, hsignatures⟩ := target_of_resolve h
  have hmember : NormalMember site target.member := .of_entry hsite hentry (by rw [hparent]; simp)
  have hnormal : ∀ n ∈ m ++ k, Name.IsNormal n := fun n hn =>
    Name.isNormal_of_isComponent
      (hsite.names _ hentry n (by rw [hparent]; exact List.mem_append_left _ hn))
  refine ⟨⟨hmember, ?_, hbody⟩, ?_⟩
  · intro sigs hsigs sig hsig
    obtain ⟨line, own, after, hline, rfl⟩ := hsignatures sigs hsigs sig hsig
    exact Signature.readName_append hline hmember.name
  · unfold Target.home
    split
    · exact ⟨hc.moduleName.1, Name.normalIfGiven_none⟩
    · rw [hm, hk]
      exact ⟨Name.normalIfGiven_joinStrings fun n hn => hnormal n (List.mem_append_left _ hn),
        Name.normalIfGiven_joinStrings fun n hn => hnormal n (List.mem_append_right _ hn)⟩

/-- **A directive for an object of the tree enters normal names**, if its body does. -/
theorem normal_run (wanted : Option ObjType) (argument : Option String) (options : Options)
    (hbody : KeepsNormal site body) :
    KeepsNormal site (run wanted argument options body) := by
  unfold run
  refine .bind .read fun other hother => ?_
  obtain rfl := hother
  dsimp only
  split
  refine .bind (P := fun _ => True) (.throw _) fun _ _ => ?_
  -- an object that is found is documented in the same way in either case
  all_goals
    refine .bind (.orFail fun text htext => htext) fun text _ => ?_
    refine .bind (.context fun s hs => hs.context) fun c hc => ?_
    refine .bind (.lift fun found hfound => hfound) fun found hfound => ?_
    obtain ⟨hr, hm, hk⟩ := normal_target hsite hc hfound wanted hbody
    refine .bind (.pushContext fun s hs => hs.inContext (hs.context.push hm hk _)) fun _ _ => ?_
    exact .thenPop (normal_render hsite _ _ hr) fun s hs => hs.pop

end Pages

end Auto

end LuaDocs
