import LuaDocs.Proofs.Auto.Level

/-!
# Descriptions in depth

What one level of a description reaches in the scenes of its members carries over to all the scenes
below it, by induction on the depth. A description that ends well has entered the objects of all
the scenes that are described with it, and it has entered no others than those of the scenes below
it. A description that fails with an error of a directive has
failed in the scene of an object that is refused, and leaves the context of that scene.

The context of a scene lies above that of the scenes through which it is reached. Taking away the
uppermost values that it has saved leads back to where the description started, unless a
description in between has opened a body: then it leads to the context around the innermost of
these.
-/

namespace LuaDocs.Auto

open Render Relation

variable {K : String → Prop} {site : Site} {s : State} {a y z : Scene}

namespace Scene

/-- The object of the second scene is described with that of the first one. -/
def Described (site : Site) : Scene → Scene → Prop := ReflTransGen fun a z => z ∈ a.members site

/-- All objects that are described with that of the scene are admitted and entered. -/
def Entered (site : Site) (a : Scene) (t : State) : Prop :=
  ∀ z, a.Described site z →
    (∃ kind options, z.Admitted kind options) ∧ ∀ key ∈ z.keys site, Listed key t

/-- An error of a directive has stopped the description of an object that is refused, and the
context is that of its scene. -/
def Stopped (site : Site) (a : Scene) (e : Failure) (t : State) : Prop :=
  e.Fatal ∨ ∃ z, a.Attempted site z ∧ z.Refused e ∧ t.page.context.settle = z.context

end Scene

open Scene

theorem contract_descent (site : Site) (K : String → Prop) :
    Contract site K (Entered site) (Stopped site) where
  persists z t u htu h y hy := ⟨(h y hy).1, fun key hkey => htu.listed key ((h y hy).2 key hkey)⟩
  fatal _ _ _ he := .inl he
  refused z _ _ h ht := .inr ⟨z, .refl, h, ht⟩
  below a z e t hz := by
    rintro (he | ⟨y, hy, hrefused, ht⟩)
    · exact .inl he
    · exact .inr ⟨y, .head hz hy, hrefused, ht⟩

/-- Members are not described on pages. -/
theorem after_ofMember (frame : Frame) (m : Member) (c : Context) :
    (⟨frame, .ofMember m, c⟩ : Scene).after = c := by
  have hp : (⟨frame, .ofMember m, c⟩ : Scene).onPage = false := Bool.and_false _
  rw [Scene.after, hp]

/-- **Descriptions in depth.** A description that ends well has entered all objects that are
described with it and nothing that is not below its scene; one that is stopped by an error of a
directive is stopped where an object is refused. -/
theorem ensures_render (depth : Nat) (hin : a.Within site K)
    (hbody : Respects site (Tidy K) Failure.Fatal a.request.body)
    (hctx : a.context = s.page.context.settle) :
    (render depth a.frame a.request).Ensures site s
      (fun _ t => Persists K s t ∧ t.page.context.settle = a.after ∧ Entered site a t)
      fun e t => Stopped site a e t := by
  induction depth generalizing a s with
  | zero =>
    rw [render]
    exact (ensures_throw _).2 (.inl fun _ _ h => by cases h)
  | succ depth ih =>
    rw [render]
    have hchild : Renders site K (Entered site) (Stopped site)
        fun frame m => render depth frame (.ofMember m) := by
      intro frame m t hm
      refine (@ih t ⟨frame, .ofMember m, t.page.context.settle⟩ hm (.pure []) rfl).mono ?_
        fun _ _ h => h
      rintro _ u ⟨htu, hu, hentered⟩
      rw [after_ofMember] at hu
      exact ⟨⟨htu, hu⟩, hentered⟩
    refine (ensures_renderLevel hchild (contract_descent site K) hin hbody hctx).mono ?_
      fun _ _ h => h
    rintro _ t ⟨hadmitted, hst, ht, hmembers, hkeys⟩
    refine ⟨hst, ht, fun z hz => ?_⟩
    rcases ReflTransGen.cases_head hz with rfl | ⟨y, hy, hyz⟩
    · exact ⟨hadmitted, hkeys⟩
    · exact hmembers y hy z hyz

/-! ### Directives -/

/-- The context in which a directive describes the object that it names. -/
def Target.context (target : Target) (c : Context) : Context :=
  c.push (target.home c).1 (target.home c).2
    (some (.names target.member.object.details.usedModules))

theorem Target.settle_pop_context (target : Target) (c : Context) :
    (target.context c).settle.pop.settle = c.settle := by
  rw [Context.pop_settle, Target.context, Context.settle_pop_push]

/-- The scene of the object that a directive names. -/
def Target.scene (target : Target) (c : Context) (argument : String) (options : Options)
    (wanted : Option ObjType) (signatures : Option (List String)) (body : Render (List Node)) :
    Scene :=
  ⟨⟨argument, options⟩, ⟨target.member, true, wanted, signatures, body⟩, (target.context c).settle⟩

/-- What is asked of the texts of the comments on the objects that a directive tries to describe. -/
def CommentsHave (P : Render (List Node) → Prop) (site : Site) (c : Context) (options : Options)
    (argument : String) (wanted : Option ObjType) (body : Render (List Node)) : Prop :=
  ∀ target signatures, resolve site c options argument = .ok (target, signatures) →
    ∀ z, (target.scene c argument options wanted signatures body).Attempted site z →
      ∀ titles, ∀ text ∈ textsOf z.object, P (docs titles text)

/-- Restoring the context after a page gives what restoring it before the page would give. -/
theorem pop_after (a : Scene) : a.after.pop = a.context.pop := by
  rw [Scene.after]
  split
  · exact Context.pop_withModule _ _
  · rfl

/-- **A directive that describes an object of the tree.** If it ends well, the context is as it
was, and all objects that are described with it are entered, and nothing that is not below its
scene. If it is stopped by an error of a directive, then either no object was found and nothing has
changed, or the uppermost values have been taken away from the context of an object that is
refused. -/
theorem ensures_run (wanted : Option ObjType) (argument : Option String) (options : Options)
    {body : Render (List Node)} (hbody : Respects site (Tidy K) Failure.Fatal body)
    (hin : ∀ text target signatures, argument = some text →
      resolve site s.page.context options text = .ok (target, signatures) →
      (target.scene s.page.context text options wanted signatures body).Within site K) :
    (run wanted argument options body).Ensures site s
      (fun _ t => Tidy K s t ∧ ∃ text target signatures, argument = some text ∧
        resolve site s.page.context options text = .ok (target, signatures) ∧
        Entered site (target.scene s.page.context text options wanted signatures body) t)
      fun e t => e.Fatal ∨ t = s ∨ ∃ text target signatures, argument = some text ∧
        resolve site s.page.context options text = .ok (target, signatures) ∧
        ∃ z, (target.scene s.page.context text options wanted signatures body).Attempted site z ∧
          z.Refused e ∧ t.page.context = z.context.pop := by
  unfold run
  rw [ensures_bind, ensures_read]
  dsimp only
  split
  · rw [ensures_bind, ensures_error]
    exact .inr (.inl rfl)
  rw [ensures_bind, ensures_orFail]
  refine ⟨fun text htext => ?_, fun _ => .inr (.inl rfl)⟩
  rw [ensures_bind, ensures_context, ensures_bind, ensures_lift]
  refine ⟨?_, fun e _ => .inr (.inl rfl)⟩
  rintro ⟨target, signatures⟩ hresolve
  rw [ensures_bind, ensures_pushContext, ensures_thenPop]
  have hscene := @ensures_render K site (s.inContext (target.context s.page.context))
    (target.scene s.page.context text options wanted signatures body) site.depth
    (hin text target signatures htext hresolve) hbody rfl
  refine hscene.mono ?_ ?_
  · rintro nodes t ⟨hst, ht, hentered⟩
    refine ⟨⟨((Persists.inContext s _).trans hst).trans (.inContext t _), ?_⟩,
      text, target, signatures, htext, hresolve, ?_⟩
    · rw [State.context_inContext, ← Context.pop_settle, ht, pop_after]
      exact target.settle_pop_context s.page.context
    · exact (contract_descent site K).persists _ t _ (.inContext t _) hentered
  · rintro e t (he | ⟨z, hz, hrefused, ht⟩)
    · exact .inl he
    · refine .inr (.inr ⟨text, target, signatures, htext, hresolve, z, hz, hrefused, ?_⟩)
      rw [State.context_inContext, ← Context.pop_settle, ht]

/-! ### Restoring the context in a scene -/

namespace Scene

/-- The description of the object has opened a body with a context of its own. -/
def Opened (site : Site) (a : Scene) : Prop :=
  ∃ kind options, a.OffPage kind options ∧ (a.description site kind options).opens = true

/-- The context of a scene one step below: a page sets the module, and a description has the
context of its body. -/
theorem context_of_step (h : Step site a z) :
    (∃ name, z.context = a.context.withModule name) ∨
      ∃ kind options, a.OffPage kind options ∧ z.context = a.inner site kind options := by
  rcases h with h | h
  · unfold members at h
    split at h
    · next kind options hk ho =>
      split at h
      · unfold pageMembers at h
        split at h
        · next name _ =>
          obtain ⟨m, -, rfl⟩ := List.mem_map.1 h
          exact .inl ⟨name, rfl⟩
        · cases h
      · next hp =>
        unfold nestedMembers at h
        split at h
        · obtain ⟨m, -, rfl⟩ := List.mem_map.1 h
          exact .inr ⟨kind, options, ⟨hk, ho, Bool.eq_false_iff.2 hp⟩, rfl⟩
        · cases h
    · cases h
  · unfold makers at h
    split at h
    · next options info hk ho hform =>
      split at h
      · split at h
        · cases h
        · obtain rfl := List.mem_singleton.1 h
          have hp : a.onPage = false := by simp [onPage, hk]
          exact .inr ⟨.class_, options, ⟨hk, ho, hp⟩, rfl⟩
      · cases h
    · cases h

/-- A scene below a settled one is settled, and its context lies above. -/
theorem settled_of_attempted (ha : a.context.settle = a.context) (h : a.Attempted site z) :
    z.context.settle = z.context ∧ ∃ n, a.context.Grown n z.context := by
  induction h with
  | refl => exact ⟨ha, 0, .refl _⟩
  | tail _ hstep ih =>
    obtain ⟨hy, n, hn⟩ := ih
    rcases context_of_step hstep with ⟨name, hz⟩ | ⟨kind, options, -, hz⟩
    · rw [hz]
      refine ⟨by rw [Context.settle_withModule, hy], n + 0, hn.trans ?_⟩
      exact ⟨.of_frames_eq rfl, .of_frames_eq rfl, .of_frames_eq rfl⟩
    · rw [hz]
      refine ⟨Context.settle_settle _, ?_⟩
      obtain ⟨k, hk⟩ := Description.grown_bodyContext _ _
      exact ⟨n + k + 0, (hn.trans hk).trans (.of_settle_eq (Context.settle_settle _))⟩

/-- **Restoring the context in a scene.** What is given back is what restoring it at the start
would give back, or, if a description on the way has opened a body, the context around the
innermost of these. -/
theorem pop_context (ha : a.context.settle = a.context) (h : a.Attempted site z) :
    z.context.pop.settle = a.context.pop.settle ∨
      ∃ y, a.Attempted site y ∧ y.Opened site ∧ TransGen (Step site) y z ∧
        z.context.pop.settle = y.context := by
  induction h with
  | refl => exact .inl rfl
  | @tail y z hy hstep ih =>
    -- a step that opens nothing has no part in what is given back
    have hsame : z.context.pop.settle = y.context.pop.settle →
        z.context.pop.settle = a.context.pop.settle ∨
          ∃ y, a.Attempted site y ∧ y.Opened site ∧ TransGen (Step site) y z ∧
            z.context.pop.settle = y.context := by
      intro heq
      rcases ih with ih | ⟨x, hx, hopened, hxy, hpop⟩
      · exact .inl (heq.trans ih)
      · exact .inr ⟨x, hx, hopened, hxy.tail hstep, heq.trans hpop⟩
    rcases context_of_step hstep with ⟨name, hz⟩ | ⟨kind, options, hoff, hz⟩
    · exact hsame (by rw [hz, Context.pop_withModule])
    · rw [Scene.inner] at hz
      cases hopens : (y.description site kind options).opens with
      | true =>
        obtain ⟨m, k, u, hpush⟩ := Description.bodyContext_of_opens hopens y.context
        refine .inr ⟨y, hy, ⟨kind, options, hoff, hopens⟩, .single hstep, ?_⟩
        rw [hz, hpush, Context.pop_settle, Context.settle_pop_push]
        exact (settled_of_attempted ha hy).1
      | false =>
        refine hsame ?_
        rw [hz, Description.bodyContext_of_not_opens hopens, Context.pop_settle]

/-- The description of an object is left open: an error has stopped that of an object in its body,
and the context is the one in which the outer object is described. -/
def LeftOpen (site : Site) (a : Scene) (e : Failure) (c : Context) : Prop :=
  ∃ y z, a.Attempted site y ∧ y.Opened site ∧ TransGen (Step site) y z ∧ z.Refused e ∧
    c.current = y.context.current

end Scene

/-- The scene of the object that a directive names is settled. -/
theorem Target.settle_scene (target : Target) (c : Context) (argument : String)
    (options : Options) (wanted : Option ObjType) (signatures : Option (List String))
    (body : Render (List Node)) :
    (target.scene c argument options wanted signatures body).context.settle =
      (target.scene c argument options wanted signatures body).context :=
  Context.settle_settle _

/-- **What an error leaves of the context**: it is restored, or a description is left open and
something is left above what was saved. -/
theorem Target.restored_or_leftOpen {target : Target} {c : Context} {argument : String}
    {options : Options} {wanted : Option ObjType} {signatures : Option (List String)}
    {body : Render (List Node)} {e : Failure}
    (hz : (target.scene c argument options wanted signatures body).Attempted site z)
    (he : z.Refused e) :
    c.Restored z.context.pop ∨
      (target.scene c argument options wanted signatures body).LeftOpen site e z.context.pop ∧
        ∃ n, 0 < n ∧ c.Grown n z.context.pop := by
  have hsettled := target.settle_scene c argument options wanted signatures body
  rcases Scene.pop_context hsettled hz with h | ⟨y, hy, hopened, hyz, h⟩
  · left
    rw [Context.restored_iff, h]
    exact target.settle_pop_context c
  · right
    obtain ⟨hy', n, hn⟩ := Scene.settled_of_attempted hsettled hy
    refine ⟨⟨y, z, hy, hopened, hyz, he, ?_⟩, 1 + 0 + n + 0, by omega, ?_⟩
    · rw [← Context.current_settle, h]
    · have hopen : c.Grown (1 + 0) (target.context c).settle :=
        (Context.Grown.push c _ _ _).trans (.of_settle_eq (Context.settle_settle _))
      exact (hopen.trans hn).trans (.of_settle_eq (h.trans hy'.symm))

end LuaDocs.Auto
