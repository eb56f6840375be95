import LuaDocs.Proofs.Auto.Saved
import LuaDocs.Proofs.Auto.Scene
import LuaDocs.Proofs.Auto.Settings

/-!
# One level of a description

`Auto.renderLevel` describes an object and leaves the members to a renderer that it is given. What
it does is said here once, for any renderer of members that leaves the context as it found it when
it ends well:

* if the level ends well, the context is as it was, except that a page sets the module; the object
  is entered under its keys, the renderer has been run in the scene of every member, and nothing
  else is entered;
* if the level fails with an error of a directive, then either the object is refused where it
  stands, or the renderer has failed in the scene of a member or of the constructor.

What is to be said of the scenes is left open: `Q` is what the renderer reaches in a scene when it
ends well, and `E` is what holds when it fails.

## Main results

* `Auto.ensures_renderLevel`: what one level of a description reaches
-/

namespace LuaDocs.Auto

open Render

variable {K : String → Prop} {site : Site} {s t : State} {child : MemberRenderer}
  {Q : Scene → State → Prop} {E : Scene → Failure → State → Prop} {ms : List Member} {m : Member}
  {F : Failure → State → Prop}

/-- In a scene whose names are among `K`, the renderer leaves the context as it found it, enters
nothing else and reaches `Q`, or it fails in that scene with `E`. -/
def Renders (site : Site) (K : String → Prop) (Q : Scene → State → Prop)
    (E : Scene → Failure → State → Prop) (child : MemberRenderer) : Prop :=
  ∀ frame m t, (⟨frame, .ofMember m, t.page.context.settle⟩ : Scene).Within site K →
    (child frame m).Ensures site t
      (fun _ u => Tidy K t u ∧ Q ⟨frame, .ofMember m, t.page.context.settle⟩ u)
      fun e u => E ⟨frame, .ofMember m, t.page.context.settle⟩ e u

/-- What is reached stays reached; and a failure in a scene is a failure of a scene in which the
object is refused, or of a scene below, or no error of a directive. -/
structure Contract (site : Site) (K : String → Prop) (Q : Scene → State → Prop)
    (E : Scene → Failure → State → Prop) : Prop where
  persists : ∀ z t u, Persists K t u → Q z t → Q z u
  fatal : ∀ z e t, e.Fatal → E z e t
  refused : ∀ z e t, z.Refused e → t.page.context.settle = z.context → E z e t
  below : ∀ a z e t, Scene.Step site a z → E z e t → E a e t

/-! ### Members -/

theorem enclosingPath_settle (c : Context) : enclosingPath c.settle = enclosingPath c := by
  unfold enclosingPath
  rw [Context.get?_className_settle, Context.get?_moduleName_settle]

/-- Which members are listed does not depend on how a value of the context is missing. -/
theorem listMembers_settle (site : Site) (c : Context) (m : Member) (options : Options) :
    listMembers site c.settle m options = listMembers site c m options := by
  unfold listMembers
  rw [enclosingPath_settle]

theorem fatal_of_listMembers {c : Context} {options : Options} {e : Failure}
    (h : listMembers site c m options = .error e) : e.Fatal := by
  unfold listMembers at h
  cases hl : Members.list site.tree site.vagueAliases m.path m.object (enclosingPath c) options
      true with
  | ok ms => simp [hl, Except.mapError] at h
  | error f =>
    rw [hl] at h
    cases h
    exact nofun

theorem listed_of_listMembers {c : Context} {options : Options}
    (h : listMembers site c m options = .ok ms) : Scene.listed site c.settle m options = ms := by
  rw [Scene.listed, listMembers_settle, h]

/-- The names under which the members `ms` and what is below them are entered in the state `t` are
among `K`. -/
def MembersWithin (site : Site) (K : String → Prop) (frame : Frame) (ms : List Member)
    (t : State) : Prop :=
  ∀ m ∈ ms, (⟨frame, .ofMember m, t.page.context.settle⟩ : Scene).Within site K

/-- The members of an object are described one after the other, all in the same settled context. -/
theorem ensures_each (hchild : Renders site K Q E child) (hc : Contract site K Q E)
    {frame : Frame} (hin : MembersWithin site K frame ms t) :
    (ms.mapM (child frame)).Ensures site t
      (fun _ u => Tidy K t u ∧ ∀ m ∈ ms, Q ⟨frame, .ofMember m, t.page.context.settle⟩ u)
      fun e u => ∃ m ∈ ms, E ⟨frame, .ofMember m, t.page.context.settle⟩ e u := by
  refine (Ensures.mapM (P := Tidy K t)
    (R := fun m u => Q ⟨frame, .ofMember m, t.page.context.settle⟩ u) (.refl t) ?_).mono
    (fun _ _ h => ⟨h.1, h.2.1⟩) fun _ _ h => h
  intro m hm u htu
  have hstep := hchild frame m u
  rw [htu.settled] at hstep
  refine (hstep (hin m hm)).mono ?_ fun e v he => ⟨m, hm, he⟩
  rintro _ v ⟨huv, hv⟩
  exact ⟨htu.trans huv, hv, fun m' h => hc.persists _ u v huv.toPersists h⟩

theorem ensures_membersOf {P : List Member → State → Prop}
    (m : Member) (options : Options) (hfatal : ∀ e, e.Fatal → F e t)
    (hlisted : P (Scene.listed site t.page.context.settle m options) t) :
    (membersOf m options).Ensures site t P F := by
  unfold membersOf
  rw [ensures_bind, ensures_read, ensures_bind, ensures_context, ensures_lift]
  refine ⟨fun ms hms => ?_, fun e he => hfatal e (fatal_of_listMembers he)⟩
  rwa [listed_of_listMembers hms] at hlisted

/-- What a level reaches in the scenes of the members `ms` that it describes in the state `t`. -/
def Reached (K : String → Prop) (Q : Scene → State → Prop) (frame : Frame) (ms : List Member)
    (t u : State) : Prop :=
  Tidy K t u ∧ ∀ m ∈ ms, Q ⟨frame, .ofMember m, t.page.context.settle⟩ u

/-- How a level fails that describes the members `ms` in the state `t`. -/
def FailedIn (E : Scene → Failure → State → Prop) (frame : Frame) (ms : List Member) (t : State)
    (e : Failure) (u : State) : Prop :=
  e.Fatal ∨ ∃ m ∈ ms, E ⟨frame, .ofMember m, t.page.context.settle⟩ e u

theorem ensures_renderMembers (hchild : Renders site K Q E child) (hc : Contract site K Q E)
    {frame : Frame} {options : Options}
    (hin : MembersWithin site K frame (Scene.listed site t.page.context.settle m options) t) :
    (renderMembers child frame m options).Ensures site t
      (fun _ u => Reached K Q frame (Scene.listed site t.page.context.settle m options) t u)
      (FailedIn E frame (Scene.listed site t.page.context.settle m options) t) := by
  unfold renderMembers
  rw [ensures_bind]
  refine ensures_membersOf m options (fun e he => .inl he) ?_
  refine (ensures_each hchild hc hin).bind (fun _ u hu => ?_) fun _ _ he => .inr he
  exact (ensures_pure _).2 hu

/-- Members in groups are described one after the other as well; between them only titles are
added. -/
theorem ensures_renderGroups (hchild : Renders site K Q E child) (hc : Contract site K Q E)
    {frame : Frame} (hin : MembersWithin site K frame ms t) (current : Option OpenGroup) :
    (renderGroups child frame current ms).Ensures site t (fun _ u => Reached K Q frame ms t u)
      (FailedIn E frame ms t) := by
  induction ms generalizing current t with
  | nil => exact (ensures_pure _).2 ⟨.refl t, by simp⟩
  | cons m rest ih =>
    unfold renderGroups
    -- whichever group the member goes into, it is described next
    have hnext : ∀ u, Tidy K t u → ∀ (closed : List Node) (group : OpenGroup),
        (do
          let nodes ← child frame m
          let more ← renderGroups child frame
            (some { group with nodes := group.nodes ++ nodes }) rest
          return closed ++ more : Render (List Node)).Ensures site u
          (fun _ v => Reached K Q frame (m :: rest) t v) (FailedIn E frame (m :: rest) t) := by
      intro u htu closed group
      rw [ensures_bind]
      have hstep := hchild frame m u
      rw [htu.settled] at hstep
      refine (hstep (hin m (by simp))).mono ?_ fun e v he => .inr ⟨m, by simp, he⟩
      rintro nodes v ⟨huv, hv⟩
      have htv : Tidy K t v := htu.trans huv
      rw [ensures_bind]
      have hrest := @ih v
      unfold MembersWithin Reached FailedIn at hrest
      rw [htv.settled] at hrest
      refine (hrest (fun m' hm' => hin m' (by simp [hm'])) _).mono ?_ ?_
      · rintro more w ⟨hvw, hw⟩
        refine (ensures_pure _).2 ⟨htv.trans hvw, ?_⟩
        rintro m' (_ | ⟨_, hm'⟩)
        · exact hc.persists _ v w hvw.toPersists hv
        · exact hw m' hm'
      · rintro e w (he | ⟨m', hm', he⟩)
        · exact .inl he
        · exact .inr ⟨m', by simp [hm'], he⟩
    dsimp only
    split
    · split
      · rw [ensures_bind, ensures_pure]
        exact hnext t (.refl t) _ _
      · refine ((mild_newSection (K := K) Failure.Fatal _).ensures t).bind (fun _ u hu => ?_)
          fun e u he => .inl he.1
        rw [ensures_bind, ensures_pure]
        exact hnext u hu.toTidy _ _
    · refine ((mild_newSection (K := K) Failure.Fatal _).ensures t).bind (fun _ u hu => ?_)
        fun e u he => .inl he.1
      rw [ensures_bind, ensures_pure]
      exact hnext u hu.toTidy _ _

theorem ensures_moduleMembers (hchild : Renders site K Q E child) (hc : Contract site K Q E)
    {frame : Frame} {options : Options}
    (hin : MembersWithin site K frame (Scene.listed site t.page.context.settle m options) t) :
    (moduleMembers child frame m options).Ensures site t
      (fun _ u => Reached K Q frame (Scene.listed site t.page.context.settle m options) t u)
      (FailedIn E frame (Scene.listed site t.page.context.settle m options) t) := by
  unfold moduleMembers
  dsimp only
  rw [ensures_bind]
  refine ensures_membersOf m options (fun e he => .inl he) ?_
  split
  · exact ensures_renderGroups hchild hc hin none
  · refine (ensures_each hchild hc hin).bind (fun nodes u hu => ?_) fun _ _ he => .inr he
    split
    · exact (ensures_pure _).2 hu
    · split
      · -- the members are put under a title
        refine ((mild_newSection (K := K) Failure.Fatal _).ensures u).bind (fun _ v huv => ?_)
          fun e v he => .inl he.1
        refine (ensures_pure _).2 ⟨hu.1.trans huv.toTidy, fun m' hm' => ?_⟩
        exact hc.persists _ u v huv.toPersists (hu.2 m' hm')
      · exact (ensures_pure _).2 hu

/-! ### Descriptions -/

/-- The documentation of an object leaves the context as it found it, if the texts of its comments
do. -/
theorem tidy_documentation {o : Object} (h : TextsRespect site (Tidy K) Failure.Fatal o)
    (ty : ObjType) (options : Options) (fullname : Option String) :
    Respects site (Tidy K) Failure.Fatal (documentation o ty options fullname) :=
  respects_documentation (fun _ _ => Mild.toTidy) (fun _ h => h) h ty options fullname

/-- What completes the body of a function. -/
theorem tidy_functionComplete {r : Request} {c : Callable}
    (h : TextsRespect site (Tidy K) Failure.Fatal r.member.object)
    (hform : r.member.object.form = .function c) (ty : ObjType) (options : Options)
    (fullname : Option String) (nodes : List Node) :
    Respects site (Tidy K) Failure.Fatal
      ((functionDescription site r c ty options).complete fullname nodes) :=
  .bind (tidy_documentation h ty _ fullname)
    fun _ => respects_withParameters (h.call hform) site.tree _

/-- A function has no members, and its body leaves the context as it found it. -/
theorem ensures_functionDescription {r : Request} {c : Callable} {ty : ObjType} {options : Options}
    (htexts : TextsRespect site (Tidy K) Failure.Fatal r.member.object)
    (hform : r.member.object.form = .function c)
    (hK : (functionDescription site r c ty options).renamed.NamedIn K t.page.context)
    (hfatal : ∀ e u, e.Fatal → F e u)
    (hbody : Respects site (Tidy K) Failure.Fatal r.body) :
    (functionDescription site r c ty options).render.Ensures site t
      (fun _ u => Tidy K t u ∧
        ((functionDescription site r c ty options).renamed.options.has "no-index" = false →
          ∀ n ∈ (functionDescription site r c ty options).renamed.namings t.page.context,
            Listed n.fullname u)) F := by
  refine (Description.ensures_render_tidy (P := fun _ => True) hK hfatal (fun _ _ _ h => h) hbody
    ?_).mono (fun _ _ h => ⟨h.1, h.2.2⟩) fun _ _ h => h
  intro u _ _ fullname nodes
  exact ((tidy_functionComplete htexts hform ty options fullname nodes).ensures u).mono
    (fun _ v huv => ⟨huv, trivial⟩) fun e v he => hfatal e v he.1

/-- A function that is to be left out of the tables is left out of them, whatever the defaults. -/
theorem unlisted_functionDescription (site : Site) (r : Request) (c : Callable) (ty : ObjType)
    (options : Options) :
    (functionDescription site r c ty (options.set "no-index" .flag)).renamed.options.has
      "no-index" = true := by
  have hset : (options.set "no-index" .flag).has "no-index" = true := by simp [Table.has]
  exact has_withCurrentNames (has_withDefaults hset)

/-- What the constructor adds to a class: its scene is one of the makers of the class. -/
theorem ensures_constructorNodes (hchild : Renders site K Q E child) (hc : Contract site K Q E)
    {frame : Frame} {path : List String} {info : Object.ClassInfo} {docFrom : String}
    (hin : ∀ maker, info.maker = some maker → ["class", "none"].contains docFrom = false →
      (⟨frame, .ofMember (constructorMember path info maker), t.page.context.settle⟩ :
        Scene).Within site K) :
    (constructorNodes child frame path info docFrom).Ensures site t (fun _ u => Tidy K t u)
      fun e u => e.Fatal ∨ ∃ maker, info.maker = some maker ∧
        ["class", "none"].contains docFrom = false ∧
        E ⟨frame, .ofMember (constructorMember path info maker), t.page.context.settle⟩ e u := by
  unfold constructorNodes
  split
  · exact (ensures_pure _).2 (.refl t)
  · next maker hmaker =>
    dsimp only
    split
    · -- the constructor has a description of its own
      next hdoc =>
      have hdoc' : ["class", "none"].contains docFrom = false := by
        rw [beq_iff_eq.1 hdoc]
        decide
      exact (hchild frame _ t (hin maker hmaker hdoc')).mono (fun _ u hu => hu.1)
        fun e u he => .inr ⟨maker, hmaker, hdoc', he⟩
    · split
      · exact (ensures_pure _).2 (.refl t)
      · next hdoc =>
        have hdoc' : ["class", "none"].contains docFrom = false := by
          simpa using hdoc
        rw [ensures_bind, ensures_lift]
        refine ⟨fun options ho => ?_, fun e he => ?_⟩
        · refine ((mild_dependOn (K := K) Failure.Fatal _).ensures t).bind (fun _ u hu => ?_)
            fun e u he => .inl he.1
          rw [ensures_bind, ensures_read, ensures_bind]
          -- only the body of its description is taken, and nothing is entered
          refine (ensures_functionDescription (K := K) (hin maker hmaker hdoc').texts rfl
            (fun hidx => ?_) (fun e u he => .inl he) (.pure [])).mono (fun _ v hv => ?_)
            fun _ _ he => he
          · rw [unlisted_functionDescription] at hidx
            cases hidx
          exact (ensures_pure _).2 (hu.toTidy.trans hv.1)
        · exact .inr ⟨maker, hmaker, hdoc', hc.refused _ e t (.options he) rfl⟩

theorem functionType_settle (site : Site) (c : Context) (f : Callable) :
    functionType site c.settle f = functionType site c f := by
  unfold functionType enclosingKind
  rw [Context.get?_className_settle, Context.get?_moduleName_settle]

/-- How members are described, and how a value of the context is missing, has no part in what the
headings of a description are made from. -/
theorem alike_describe (site : Site) (c : Context) (child : MemberRenderer) (r : Request)
    (kind : Kind) (options : Options) :
    (describe site c child r kind options).Alike
      (describe site c.settle noMembers r kind options) := by
  unfold describe
  split
  · rw [functionType_settle]
    exact ⟨rfl, rfl, rfl⟩
  · exact ⟨rfl, rfl, rfl⟩
  · exact ⟨rfl, rfl, rfl⟩

section Level

variable {frame : Frame} {r : Request} {kind : Kind} {options all : Options} {a : Scene} {u : State}

/-- What is described in a scene is what the scene tells. -/
theorem alike_description {c : Context} (hctx : a.context = c.settle) :
    (describe site c child a.request kind options).renamed.Alike
      (a.description site kind options) := by
  rw [Scene.description, hctx]
  exact (alike_describe site c child a.request kind options).renamed

/-- The names under which a description enters its object are the keys of its scene. -/
theorem listed_keys {c : Context} (ha : a.OffPage kind options) (hctx : a.context = c.settle)
    (hlisted : (describe site c child a.request kind options).renamed.options.has "no-index" =
        false →
      ∀ n ∈ (describe site c child a.request kind options).renamed.namings c,
        Listed n.fullname u) :
    ∀ key ∈ a.keys site, Listed key u := by
  have halike := @alike_description site child kind options a c hctx
  intro key hkey
  rw [Scene.keys_of_description ha] at hkey
  split at hkey
  · cases hkey
  · next hidx =>
    rw [Bool.not_eq_true] at hidx
    rw [hctx, Description.fullnames_settle, List.mem_map] at hkey
    obtain ⟨n, hn, rfl⟩ := hkey
    refine hlisted ?_ n ?_
    · rw [halike.options]
      exact hidx
    · rw [halike.namings_eq]
      exact hn

/-- The members of an object are described in the context of its scene. -/
theorem settle_bodyContext {c : Context} (hctx : a.context = c.settle) :
    ((describe site c child a.request kind options).renamed.bodyContext c).settle =
      a.inner site kind options := by
  rw [(alike_description hctx).bodyContext_eq, Scene.inner, hctx, Description.bodyContext_settle]

/-- The names under which a description enters its object are among those of its scene. -/
theorem namedIn_describe {c : Context} (hin : a.Within site K) (ha : a.OffPage kind options)
    (hctx : a.context = c.settle) :
    (describe site c child a.request kind options).renamed.NamedIn K c := by
  have halike := @alike_description site child kind options a c hctx
  intro hidx n hn
  refine hin.keys _ ?_
  rw [halike.options] at hidx
  rw [halike.namings_eq] at hn
  rw [Scene.keys_of_description ha, hctx, Description.fullnames_settle,
    if_neg (Bool.eq_false_iff.1 hidx)]
  exact List.mem_map_of_mem hn

/-- The scenes of the members that a description lists are below its scene. -/
theorem membersWithin_nested (hin : a.Within site K) (ha : a.OffPage kind options)
    (hall : a.listing? site kind options = some all)
    (hu : u.page.context.settle = a.inner site kind options) :
    MembersWithin site K ⟨a.member.name, options⟩
      (Scene.listed site u.page.context.settle a.member all) u := by
  intro m hm
  refine hin.step (.inl ?_)
  rw [Scene.members_of_description ha, Scene.nestedMembers, hall, ← hu]
  exact List.mem_map_of_mem hm

/-- The members that a description lists are those of its scene. -/
theorem reached_nested {v : State} (ha : a.OffPage kind options)
    (hall : a.listing? site kind options = some all)
    (hu : u.page.context.settle = a.inner site kind options)
    (h : Reached K Q ⟨a.member.name, options⟩
      (Scene.listed site u.page.context.settle a.member all) u v) :
    ∀ z ∈ a.members site, Q z v := by
  intro z hz
  rw [Scene.members_of_description ha, Scene.nestedMembers, hall, List.mem_map] at hz
  obtain ⟨m, hm, rfl⟩ := hz
  rw [← hu] at hm ⊢
  exact h.2 m hm

/-- A failure in a member that a description lists is a failure below its scene. -/
theorem failed_nested {v : State} {e : Failure}
    (hc : Contract site K Q E) (ha : a.OffPage kind options)
    (hall : a.listing? site kind options = some all)
    (hu : u.page.context.settle = a.inner site kind options)
    (h : FailedIn E ⟨a.member.name, options⟩
      (Scene.listed site u.page.context.settle a.member all) u e v) : E a e v := by
  rcases h with he | ⟨m, hm, he⟩
  · exact hc.fatal a e v he
  · refine hc.below a _ e v (.inl ?_) he
    rw [Scene.members_of_description ha, Scene.nestedMembers, hall, ← hu]
    exact List.mem_map_of_mem hm

/-- An object without members that are described has none in its scene. -/
theorem members_eq_nil (ha : a.OffPage kind options)
    (hall : a.listing? site kind options = none) : a.members site = [] := by
  rw [Scene.members_of_description ha, Scene.nestedMembers, hall]

/-- What completes the body of a variable, a table, an alias or an enumeration. -/
theorem ensures_plainComplete (hchild : Renders site K Q E child)
    (hc : Contract site K Q E) (hin : a.Within site K) (ha : a.OffPage kind options)
    (ht : t.page.context.settle = a.inner site kind options)
    (hall : a.listing? site kind options =
      if (typeOf a.request kind).family.nests then some (options.withDefaults site.defaults)
      else none)
    (fullname : Option String) (nodes : List Node) :
    ((plainDescription site child a.request (typeOf a.request kind) options).complete fullname
      nodes).Ensures site t
      (fun _ u => Tidy K t u ∧ ∀ z ∈ a.members site, Q z u) fun e u => E a e u := by
  unfold plainDescription
  refine ((tidy_documentation hin.texts _ _ _).ensures t).bind (fun docs u htu => ?_)
    fun e u he => hc.fatal a e u he.1
  have hu : u.page.context.settle = a.inner site kind options := htu.settled.trans ht
  dsimp only
  split
  · next hnests =>
    rw [if_pos hnests] at hall
    refine (ensures_renderMembers hchild hc (membersWithin_nested hin ha hall hu)).bind
      (fun _ v hv => ?_) fun e v he => failed_nested hc ha hall hu he
    exact (ensures_pure _).2 ⟨htu.trans hv.1, reached_nested ha hall hu hv⟩
  · next hnests =>
    rw [if_neg hnests] at hall
    rw [members_eq_nil ha hall, ensures_bind, ensures_pure, ensures_pure]
    exact ⟨htu, by simp⟩

/-- What completes the body of a class: its documentation, its constructor and its members. -/
theorem ensures_classComplete {info : Object.ClassInfo}
    (hchild : Renders site K Q E child) (hc : Contract site K Q E) (hin : a.Within site K)
    (ha : a.OffPage .class_ options) (ht : t.page.context.settle = a.inner site .class_ options)
    (hform : a.object.form = .class_ info) (fullname : Option String) (nodes : List Node) :
    ((classDescription site child a.request info (typeOf a.request .class_) options).complete
      fullname nodes).Ensures site t
      (fun _ u => Tidy K t u ∧ ∀ z ∈ a.members site, Q z u) fun e u => E a e u := by
  have hall : a.listing? site .class_ options =
      some (classOptions site a.request info options) := by
    unfold Scene.listing?
    rw [hform]
  unfold classDescription
  -- whether or not there is documentation, the constructor and the members follow it
  have hrest : ∀ u, Tidy K t u → ∀ docs : List Node,
      (do
        let making ← constructorNodes child ⟨a.member.name, options⟩ a.member.path info
          (docSource (classOptions site a.request info options))
        let members ← renderMembers child ⟨a.member.name, options⟩ a.member
          (classOptions site a.request info options)
        return nodes ++ docs ++ making ++ members ++
          if (classOptions site a.request info options).has "inherited-members-table" then
            [Node.element (.inheritedMembers fullname) []]
          else [] : Render (List Node)).Ensures site u
        (fun _ v => Tidy K t v ∧ ∀ z ∈ a.members site, Q z v) fun e v => E a e v := by
    intro u htu docs
    have hu : u.page.context.settle = a.inner site .class_ options := htu.settled.trans ht
    rw [ensures_bind]
    have hmaker : ∀ maker, info.maker = some maker →
        ["class", "none"].contains (docSource (classOptions site a.request info options)) =
          false →
        (⟨⟨a.member.name, options⟩, .ofMember (constructorMember a.member.path info maker),
          u.page.context.settle⟩ : Scene).Within site K := by
      intro maker hmaker hdoc
      rw [hu]
      exact hin.step (.inr (Scene.mem_makers ha hform hmaker hdoc))
    refine (ensures_constructorNodes hchild hc hmaker).mono (fun _ v huv => ?_) ?_
    · have hv : v.page.context.settle = a.inner site .class_ options := huv.settled.trans hu
      refine (ensures_renderMembers hchild hc (membersWithin_nested hin ha hall hv)).bind
        (fun _ w hw => ?_) fun e w he => failed_nested hc ha hall hv he
      exact (ensures_pure _).2
        ⟨(htu.trans huv).trans hw.1, reached_nested ha hall hv hw⟩
    · rintro e v (he | ⟨maker, hmaker, hdoc, he⟩)
      · exact hc.fatal a e v he
      · rw [hu] at he
        exact hc.below a _ e v (.inr (Scene.mem_makers ha hform hmaker hdoc)) he
  dsimp only
  split
  · rw [ensures_bind, ensures_pure]
    exact hrest t (.refl t) []
  · exact ((tidy_documentation hin.texts _ _ _).ensures t).bind
      (fun docs u htu => hrest u htu docs) fun e u he => hc.fatal a e u he.1

/-- What completes the body of a description, in the context of the body. -/
theorem ensures_complete {c : Context} (hchild : Renders site K Q E child)
    (hc : Contract site K Q E) (hin : a.Within site K) (ha : a.OffPage kind options)
    (ht : t.page.context.settle = a.inner site kind options)
    (fullname : Option String) (nodes : List Node) :
    ((describe site c child a.request kind options).complete fullname nodes).Ensures site t
      (fun _ u => Tidy K t u ∧ ∀ z ∈ a.members site, Q z u) fun e u => E a e u := by
  unfold describe
  split
  · next f hform =>
    -- a function has no members
    have hnone : ∀ kind, a.listing? site kind options = none := by
      intro kind
      unfold Scene.listing?
      rw [show a.object.form = .function f from hform]
    rw [members_eq_nil ha (hnone _)]
    exact ((tidy_functionComplete hin.texts hform _ options fullname nodes).ensures t).mono
      (fun _ u hu => ⟨hu, by simp⟩) fun e u he => hc.fatal a e u he.1
  · next info hform => exact ensures_classComplete hchild hc hin ha ht hform fullname nodes
  · next hfunction hclass =>
    refine ensures_plainComplete hchild hc hin ha ht ?_ fullname nodes
    unfold Scene.listing?
    split
    · next f hform => exact (hfunction f hform).elim
    · next info hform => exact (hclass info hform rfl).elim
    · rfl

/-- **A description in its scene**: it enters the object under its keys and has the renderer of
members run in the scene of each member, or it fails below its scene. -/
theorem ensures_describe (hchild : Renders site K Q E child)
    (hc : Contract site K Q E) (hin : a.Within site K)
    (hbody : Respects site (Tidy K) Failure.Fatal a.request.body) (ha : a.OffPage kind options)
    (hctx : a.context = s.page.context.settle) :
    (describe site s.page.context child a.request kind options).render.Ensures site s
      (fun _ t => Tidy K s t ∧ (∀ z ∈ a.members site, Q z t) ∧ ∀ key ∈ a.keys site, Listed key t)
      fun e t => E a e t := by
  refine (Description.ensures_render_tidy (P := fun t => ∀ z ∈ a.members site, Q z t)
    (namedIn_describe hin ha hctx) (hc.fatal a)
    (fun t u htu h z hz => hc.persists z t u htu (h z hz)) ?_ ?_).mono ?_ fun _ _ h => h
  · have hsame : (describe site s.page.context child a.request kind options).body =
        a.request.body := by
      unfold describe
      split <;> rfl
    rwa [hsame]
  · intro t _ ht fullname nodes
    rw [settle_bodyContext hctx] at ht
    exact ensures_complete hchild hc hin ha ht fullname nodes
  · rintro _ t ⟨hst, hmembers, hlisted⟩
    exact ⟨hst, hmembers, listed_keys ha hctx hlisted⟩

/-! ### Pages -/

/-- **A page in its scene**: it sets the module, enters it, and has the renderer of members run in
the scene of each member, or it fails below its scene. -/
theorem ensures_describeModule (hchild : Renders site K Q E child)
    (hc : Contract site K Q E) (hin : a.Within site K)
    (hbody : Respects site (Tidy K) Failure.Fatal a.request.body)
    (ho : a.options? = .ok options) (hp : a.onPage = true)
    (hctx : a.context = s.page.context.settle) :
    (describeModule child a.request a.givenName options).Ensures site s
      (fun _ t => ¬ a.Pageless ∧ Persists K s t ∧ t.page.context.settle = a.after ∧
        (∀ z ∈ a.members site, Q z t) ∧ ∀ key ∈ a.keys site, Listed key t)
      fun e t => E a e t := by
  unfold describeModule
  dsimp only
  split
  · next hsig =>
    rw [ensures_bind, ensures_error]
    exact hc.refused a _ s (.page ⟨hp, .inl hsig⟩) hctx.symm
  next hsig =>
  rw [ensures_bind, ensures_read, ensures_bind]
  refine ((mild_dependOn (K := K) Failure.Fatal _).ensures s).mono (fun _ t hst => ?_)
    fun e t he => hc.fatal a e t he.1
  refine (ModuleDirective.ensures_start (K := K) (fun hidx name hname => ?_)).bind ?_ ?_
  · refine hin.keys name ?_
    rw [Scene.keys_of_page ho hp, if_neg (Bool.eq_false_iff.1 hidx), Scene.pageName?, hname]
    exact List.mem_singleton_self name
  · rintro heading u ⟨hclass, name, hname, htu, hu, hlisted⟩
    have hname' : a.pageName? = some name := hname
    have hpaged : ¬ a.Pageless := by
      rintro ⟨-, h | h | h⟩
      · exact hsig h
      · rw [hctx, Context.get?_className_settle, ← hst.context] at h
        exact h hclass
      · rw [hname'] at h
        cases h
    have hcu : u.page.context.settle = a.context.withModule name := by
      rw [hu, hst.context, Context.settle_withModule, hctx]
    -- the body, the documentation and the list of members leave the context of the page
    refine (hbody.ensures u).bind (fun body v huv => ?_) fun e v he => hc.fatal a e v he.1
    refine ((tidy_documentation hin.texts _ _ _).ensures v).bind (fun docs w hvw => ?_)
      fun e w he => hc.fatal a e w he.1
    refine ((mild_indexSection (K := K) Failure.Fatal _ _).ensures w).bind
      (fun index x hwx => ?_) fun e x he => hc.fatal a e x he.1
    have hux : Tidy K u x := (huv.trans hvw).trans hwx.toTidy
    have hcx : x.page.context.settle = a.context.withModule name := hux.settled.trans hcu
    have hmembers : MembersWithin site K ⟨a.givenName, options⟩
        (Scene.listed site x.page.context.settle a.member (options.withDefaults site.defaults))
        x := by
      intro m hm
      rw [hcx] at hm ⊢
      refine hin.step (.inl ?_)
      rw [Scene.members_of_page ho hp, Scene.pageMembers, hname']
      exact List.mem_map_of_mem hm
    refine (ensures_moduleMembers hchild hc hmembers).bind ?_ ?_
    · rintro members y ⟨hxy, hy⟩
      have huy : Tidy K u y := hux.trans hxy
      refine (ensures_pure _).2 ⟨hpaged, ?_, ?_, ?_, ?_⟩
      · exact (hst.toPersists.trans htu).trans huy.toPersists
      · rw [huy.settled, hcu, Scene.after, hp, hname']
      · intro z hz
        rw [Scene.members_of_page ho hp, Scene.pageMembers, hname', List.mem_map] at hz
        obtain ⟨m, hm, rfl⟩ := hz
        rw [← hcx] at hm ⊢
        exact hy m hm
      · intro key hkey
        rw [Scene.keys_of_page ho hp] at hkey
        split at hkey
        · cases hkey
        · next hidx =>
          rw [hname', Option.toList_some, List.mem_singleton] at hkey
          rw [hkey]
          exact huy.listed _ (hlisted (Bool.eq_false_iff.2 hidx))
    · rintro e y (he | ⟨m, hm, he⟩)
      · exact hc.fatal a e y he
      · refine hc.below a _ e y (.inl ?_) he
        rw [Scene.members_of_page ho hp, Scene.pageMembers, hname', hcx]
        rw [hcx] at hm
        exact List.mem_map_of_mem hm
  · rintro e u ⟨rfl, hrefused⟩
    have hcu : u.page.context.settle = a.context := by rw [hst.context, hctx]
    refine hc.refused a e u (.page ⟨hp, .inr ?_⟩) hcu
    rwa [hst.context, ← Context.get?_className_settle, ← hctx] at hrefused

/-! ### One level -/

theorem ensures_checkedKind (a : Scene) :
    (checkedKind a.request).Ensures site s
      (fun kind t => t = s ∧ a.object.kind? = some kind ∧ ¬ a.Misnamed)
      fun e t => t = s ∧ a.Refused e := by
  unfold checkedKind
  rw [ensures_bind, ensures_context]
  dsimp only
  split
  · next hkind => exact (ensures_error _).2 ⟨rfl, .kind hkind⟩
  · next kind hkind =>
    have hkind' : a.object.kind? = some kind := hkind
    split
    · next hwanted =>
      refine (ensures_pure _).2 ⟨rfl, hkind, ?_⟩
      rintro ⟨-, t, -, ht, -⟩
      rw [hwanted] at ht
      cases ht
    · next wanted hwanted =>
      have hmisnamed : a.Misnamed ↔ (kindOf wanted != kind ||
          (given a.object.reading.doctype).any fun t => t != wanted.name) = true := by
        simp only [Scene.Misnamed, hkind', hwanted, Option.some.injEq, exists_and_left,
          exists_eq_left', Bool.or_eq_true, bne_iff_ne, Option.any_eq_true]
      split
      · next hother => exact (ensures_error _).2 ⟨rfl, .wanted (hmisnamed.2 hother)⟩
      · next hother => exact (ensures_pure _).2 ⟨rfl, hkind, fun h => hother (hmisnamed.1 h)⟩

/-- **One level of a description in its scene.** If it ends well, the object was not refused, it is
entered under its keys, and `Q` is reached in the scene of every member; if it fails, it fails with
`E`. -/
theorem ensures_renderLevel (hchild : Renders site K Q E child)
    (hc : Contract site K Q E) (hin : a.Within site K)
    (hbody : Respects site (Tidy K) Failure.Fatal a.request.body)
    (hctx : a.context = s.page.context.settle) :
    (renderLevel child a.frame a.request).Ensures site s
      (fun _ t => (∃ kind options, a.Admitted kind options) ∧ Persists K s t ∧
        t.page.context.settle = a.after ∧ (∀ z ∈ a.members site, Q z t) ∧
        ∀ key ∈ a.keys site, Listed key t)
      fun e t => E a e t := by
  unfold renderLevel
  refine (ensures_checkedKind a).bind ?_ ?_
  · rintro kind t ⟨rfl, hk, hnamed⟩
    rw [ensures_bind, ensures_context, ensures_bind, ensures_lift]
    refine ⟨fun options ho => ?_, fun e he => hc.refused a e t (.options he) hctx.symm⟩
    have hpage : a.onPage = (kind == .module_ && a.request.direct) := by
      simp [Scene.onPage, hk]
    split
    · next hp =>
      have hname : Index.joinGiven [t.page.context.moduleName.get?, some a.request.member.name] =
          a.givenName := by
        rw [Scene.givenName, hctx, Context.get?_moduleName_settle]
        rfl
      rw [hname]
      refine (ensures_describeModule hchild hc hin hbody ho (hpage.trans hp) hctx).mono ?_
        fun _ _ h => h
      rintro _ u ⟨hpaged, hrest⟩
      exact ⟨⟨kind, options, hk, ho, hnamed, hpaged⟩, hrest⟩
    · next hp =>
      have hp' : a.onPage = false := hpage.trans (Bool.eq_false_iff.2 hp)
      refine ((mild_dependOn (K := K) Failure.Fatal _).ensures t).bind (fun _ u htu => ?_)
        fun e u he => hc.fatal a e u he.1
      rw [ensures_bind, ensures_read, ← htu.context]
      refine (ensures_describe hchild hc hin hbody ⟨hk, ho, hp'⟩
        (by rw [hctx, htu.context])).mono ?_ fun _ _ h => h
      rintro _ v ⟨huv, hmembers, hkeys⟩
      have hpaged : ¬ a.Pageless := fun h => Bool.eq_false_iff.1 hp' h.1
      refine ⟨⟨kind, options, hk, ho, hnamed, hpaged⟩, htu.toPersists.trans huv.toPersists, ?_,
        hmembers, hkeys⟩
      rw [huv.settled, htu.context, ← hctx, Scene.after, hp']
  · rintro e t ⟨rfl, hrefused⟩
    exact hc.refused a e t hrefused hctx.symm

end Level

end LuaDocs.Auto
