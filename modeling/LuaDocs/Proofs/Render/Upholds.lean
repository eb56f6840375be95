import LuaDocs.Proofs.Render.Ensures

/-!
# Invariants of renderings

A rendering upholds an invariant if it leads from a state in which the invariant holds to another
one, whether it ends well or fails. What it does next may depend on the value that it gives, so the
statement says of the value as well what is known of it when the invariant held before.
-/

namespace LuaDocs.Render

variable {α β : Type}

/-- From a state in which `I` holds `x` leads to a state in which it holds, however it ends, and
when it ends well its value has the property `P`. -/
structure Upholds (I : State → Prop) (site : Site) (P : α → Prop) (x : Render α) : Prop where
  ensures : ∀ s, I s → x.Ensures site s (fun a t => P a ∧ I t) fun _ t => I t

namespace Upholds

variable {I : State → Prop} {site : Site} {P : α → Prop} {Q : β → Prop} {x : Render α}

/-- A relation between the states before and after carries the invariant over. -/
theorem of_respects {R : State → State → Prop} {F : Failure → Prop} (h : Respects site R F x)
    (hR : ∀ s t, R s t → I s → I t) : Upholds I site (fun _ => True) x :=
  ⟨fun s hs => (h.ensures s).mono (fun _ t hst => ⟨trivial, hR s t hst hs⟩)
    fun _ t hst => hR s t hst.2 hs⟩

/-- That the invariant holds after it held before is a relation between the states. -/
theorem respects (h : Upholds I site P x) :
    Respects site (fun s t => I s → I t) (fun _ => True) x :=
  ⟨fun s => .intro (fun _ _ ht hs => ((h.ensures s hs).of_ok ht).2)
    fun _ _ ht => ⟨trivial, fun hs => (h.ensures s hs).of_error ht⟩⟩

instance : IsPreorder State fun s t => I s → I t where
  refl _ h := h
  trans _ _ _ hst htu h := htu (hst h)

theorem pure {a : α} (ha : P a) : Upholds I site P (Pure.pure a : Render α) :=
  ⟨fun _ hs => (ensures_pure a).2 ⟨ha, hs⟩⟩

theorem throw (e : Failure) : Upholds I site P (MonadExcept.throw e : Render α) :=
  ⟨fun _ hs => (ensures_throw e).2 hs⟩

theorem read : Upholds I site (fun other => other = site) (MonadReader.read : Render Site) :=
  ⟨fun _ hs => ensures_read.2 ⟨rfl, hs⟩⟩

theorem context {P : Context → Prop} (h : ∀ s, I s → P s.page.context) :
    Upholds I site P Render.context :=
  ⟨fun s hs => ensures_context.2 ⟨h s hs, hs⟩⟩

theorem setContext {c : Context} (h : ∀ s, I s → I (s.inContext c)) :
    Upholds I site (fun _ => True) (Render.setContext c) :=
  ⟨fun s hs => (ensures_setContext c).2 ⟨trivial, h s hs⟩⟩

theorem pushContext {m k : Option String} {u : Option Selection}
    (h : ∀ s, I s → I (s.inContext (s.page.context.push m k u))) :
    Upholds I site (fun _ => True) (Render.pushContext m k u) :=
  ⟨fun s hs => (ensures_pushContext m k u).2 ⟨trivial, h s hs⟩⟩

theorem orFail {f : Failure} {o : Option α} (h : ∀ a, o = some a → P a) :
    Upholds I site P (Render.orFail f o) :=
  ⟨fun _ hs => (ensures_orFail f o).2 ⟨fun a ha => ⟨h a ha, hs⟩, fun _ => hs⟩⟩

theorem lift {r : Except Failure α} (h : ∀ a, r = .ok a → P a) :
    Upholds I site P (Render.lift r) :=
  ⟨fun _ hs => (ensures_lift r).2 ⟨fun a ha => ⟨h a ha, hs⟩, fun _ _ => hs⟩⟩

/-- The second part of a rendering may rely on what is known of the value of the first part. -/
theorem bind {f : α → Render β} (hx : Upholds I site P x)
    (hf : ∀ a, P a → Upholds I site Q (f a)) : Upholds I site Q (x >>= f) := by
  refine ⟨fun s hs => (ensures_bind x f).2 ?_⟩
  exact (hx.ensures s hs).mono (fun a t ha => (hf a ha.1).ensures t ha.2) fun _ _ h => h

theorem tryCatch {handle : Failure → Render α} (hx : Upholds I site P x)
    (hh : ∀ e, Upholds I site P (handle e)) :
    Upholds I site P (MonadExcept.tryCatch x handle) := by
  refine ⟨fun s hs => (ensures_tryCatch x handle).2 ?_⟩
  exact (hx.ensures s hs).mono (fun _ _ h => h) fun e t ht => (hh e).ensures t ht

theorem thenPop (hx : Upholds I site P x)
    (hpop : ∀ s, I s → I (s.inContext s.page.context.pop)) :
    Upholds I site P (Render.thenPop x) := by
  refine ⟨fun s hs => (ensures_thenPop x).2 ?_⟩
  exact (hx.ensures s hs).mono (fun _ t h => ⟨h.1, hpop t h.2⟩) fun _ t h => hpop t h

theorem mapM {f : β → Render α} {bs : List β} (hf : ∀ b ∈ bs, Upholds I site P (f b)) :
    Upholds I site (fun _ => True) (bs.mapM f) := by
  induction bs with
  | nil => exact pure trivial
  | cons b bs ih =>
    rw [List.mapM_cons]
    obtain ⟨hb, hbs⟩ := List.forall_mem_cons.1 hf
    exact bind hb fun _ _ => bind (ih hbs) fun _ _ => pure trivial

end Upholds

end LuaDocs.Render
