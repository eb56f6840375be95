import LuaDocs.Render
import Mathlib.Order.Defs.Unbundled

/-!
# Running a rendering

A rendering ends well with a value, or it fails; both leave a state. What a rendering does is
stated as what holds of the value and the state if it ends well, and of the failure and the state
if it does not. The statement about a rendering that is made of two is the statement about the
first whose conclusion is the statement about the second, so that a proof goes through a rendering
from its first step to its last.

Statements that hold of both endings alike are relations between the state before and the state
after. A relation that every step respects is respected by the whole, if it is reflexive and
transitive.
-/

namespace LuaDocs.Render

variable {α β : Type} {site : Site} {s : State} {f : β → Render α}

/-- The state with another context. -/
def State.inContext (s : State) (c : Context) : State :=
  { s with page := { s.page with context := c } }

@[simp] theorem State.context_inContext (s : State) (c : Context) :
    (s.inContext c).page.context = c := rfl

/-- When `x` ends well, `Q` holds of its value and state; when it fails, `E` holds of its failure
and state. -/
def Ensures (x : Render α) (site : Site) (s : State) (Q : α → State → Prop)
    (E : Failure → State → Prop) : Prop :=
  match x.runOn site s with
  | (.ok a, t) => Q a t
  | (.error e, t) => E e t

namespace Ensures

variable {x : Render α} {Q Q' : α → State → Prop} {E E' : Failure → State → Prop}

theorem of_ok (h : x.Ensures site s Q E) {a : α} {t : State}
    (hx : x.runOn site s = (.ok a, t)) : Q a t := by
  rw [Ensures, hx] at h
  exact h

theorem of_error (h : x.Ensures site s Q E) {e : Failure} {t : State}
    (hx : x.runOn site s = (.error e, t)) : E e t := by
  rw [Ensures, hx] at h
  exact h

theorem intro (hok : ∀ a t, x.runOn site s = (.ok a, t) → Q a t)
    (herror : ∀ e t, x.runOn site s = (.error e, t) → E e t) : x.Ensures site s Q E := by
  rw [Ensures]
  split
  · next a t h => exact hok a t h
  · next e t h => exact herror e t h

theorem mono (h : x.Ensures site s Q E) (hQ : ∀ a t, Q a t → Q' a t)
    (hE : ∀ e t, E e t → E' e t) : x.Ensures site s Q' E' :=
  intro (fun a t hx => hQ a t (h.of_ok hx)) fun e t hx => hE e t (h.of_error hx)

/-- What holds of the state after a rendering whether it ends well or fails. -/
theorem runOn {P : State → Prop} (h : x.Ensures site s (fun _ t => P t) fun _ t => P t) :
    P (x.runOn site s).2 := by
  rcases hx : x.runOn site s with ⟨r, t⟩
  cases r with
  | ok a => exact h.of_ok hx
  | error e => exact h.of_error hx

end Ensures

/-! ### Steps -/

section Steps

variable {Q : α → State → Prop} {E : Failure → State → Prop}

@[simp] theorem ensures_pure (a : α) : (pure a : Render α).Ensures site s Q E ↔ Q a s := Iff.rfl

@[simp] theorem ensures_throw (e : Failure) :
    (throw e : Render α).Ensures site s Q E ↔ E e s := Iff.rfl

@[simp] theorem ensures_error (message : String) :
    (error message : Render α).Ensures site s Q E ↔ E (.directive .error message) s := Iff.rfl

@[simp] theorem ensures_severe (message : String) :
    (severe message : Render α).Ensures site s Q E ↔ E (.directive .severe message) s := Iff.rfl

theorem ensures_bind (x : Render β) (f : β → Render α) :
    (x >>= f).Ensures site s Q E ↔ x.Ensures site s (fun b t => (f b).Ensures site t Q E) E := by
  rw [Ensures, Ensures, run_bind]
  rcases x.runOn site s with ⟨r, t⟩
  cases r <;> exact Iff.rfl

/-- What the first part ensures is what the second part starts from. -/
theorem Ensures.bind {x : Render β} {P : β → State → Prop} {F : Failure → State → Prop}
    (hx : x.Ensures site s P F) (hf : ∀ b t, P b t → (f b).Ensures site t Q E)
    (hE : ∀ e t, F e t → E e t) : (x >>= f).Ensures site s Q E :=
  (ensures_bind x f).2 (hx.mono hf hE)

theorem runOn_tryCatch (x : Render α) (handle : Failure → Render α) :
    (tryCatch x handle).runOn site s =
      match x.runOn site s with
      | (.ok a, t) => (.ok a, t)
      | (.error e, t) => (handle e).runOn site t := by
  have hread : (tryCatch x handle).run site =
      (tryCatch (x.run site) fun e => (handle e).run site : ExceptT Failure (StateM State) α) :=
    rfl
  rw [runOn, runOn, hread, ExceptT.run_tryCatch, StateT.run_bind]
  cases h : (x.run site).run.run s with
  | mk r t => cases r <;> rfl

theorem ensures_tryCatch (x : Render α) (handle : Failure → Render α) :
    (tryCatch x handle).Ensures site s Q E ↔
      x.Ensures site s Q fun e t => (handle e).Ensures site t Q E := by
  rw [Ensures, Ensures, runOn_tryCatch]
  rcases x.runOn site s with ⟨r, t⟩
  cases r <;> exact Iff.rfl

@[simp] theorem ensures_orFail (f : Failure) (o : Option α) :
    (orFail f o).Ensures site s Q E ↔ (∀ a, o = some a → Q a s) ∧ (o = none → E f s) := by
  cases o <;> simp [orFail]

@[simp] theorem ensures_lift (r : Except Failure α) :
    (lift r).Ensures site s Q E ↔ (∀ a, r = .ok a → Q a s) ∧ ∀ e, r = .error e → E e s := by
  cases r <;> simp [lift]

end Steps

@[simp] theorem ensures_read {Q : Site → State → Prop} {E : Failure → State → Prop} :
    (read : Render Site).Ensures site s Q E ↔ Q site s := Iff.rfl

@[simp] theorem ensures_get {Q : State → State → Prop} {E : Failure → State → Prop} :
    (get : Render State).Ensures site s Q E ↔ Q s s := Iff.rfl

@[simp] theorem ensures_context {Q : Context → State → Prop} {E : Failure → State → Prop} :
    context.Ensures site s Q E ↔ Q s.page.context s := Iff.rfl

@[simp] theorem ensures_modify {Q : Unit → State → Prop} {E : Failure → State → Prop}
    (f : State → State) :
    (modify f : Render Unit).Ensures site s Q E ↔ Q () (f s) := Iff.rfl

@[simp] theorem ensures_modifyPage {Q : Unit → State → Prop} {E : Failure → State → Prop}
    (f : Page → Page) :
    (modifyPage f).Ensures site s Q E ↔ Q () { s with page := f s.page } := Iff.rfl

@[simp] theorem ensures_warn {Q : Unit → State → Prop} {E : Failure → State → Prop}
    (message : String) :
    (warn message).Ensures site s Q E ↔ Q () { s with warnings := s.warnings ++ [message] } :=
  Iff.rfl

@[simp] theorem ensures_setContext {Q : Unit → State → Prop} {E : Failure → State → Prop}
    (c : Context) :
    (setContext c).Ensures site s Q E ↔ Q () (s.inContext c) := Iff.rfl

@[simp] theorem ensures_pushContext {Q : Unit → State → Prop} {E : Failure → State → Prop}
    (m k : Option String) (u : Option Selection) :
    (pushContext m k u).Ensures site s Q E ↔ Q () (s.inContext (s.page.context.push m k u)) :=
  Iff.rfl

@[simp] theorem ensures_popContext {Q : Unit → State → Prop} {E : Failure → State → Prop} :
    popContext.Ensures site s Q E ↔ Q () (s.inContext s.page.context.pop) := Iff.rfl

/-- However a rendering ends, the context is restored afterwards. -/
theorem ensures_thenPop {Q : α → State → Prop} {E : Failure → State → Prop} (x : Render α) :
    (thenPop x).Ensures site s Q E ↔
      x.Ensures site s (fun a t => Q a (t.inContext t.page.context.pop))
        fun e t => E e (t.inContext t.page.context.pop) := by
  simp only [thenPop, ensures_bind, ensures_tryCatch, ensures_popContext, ensures_throw,
    ensures_pure]

-- From here on a statement about a rendering is only opened by the lemmas above: unfolding it
-- would run the rendering.
attribute [irreducible] Ensures

/-! ### Lists -/

/-- One rendering for each element of a list: each of them keeps the invariant `P` and what has
been reached for elements before, and reaches `R` for its own element. -/
theorem Ensures.mapM {bs : List β} {P : State → Prop} {R : β → State → Prop}
    {E : Failure → State → Prop} (hs : P s)
    (hstep : ∀ b ∈ bs, ∀ t, P t →
      (f b).Ensures site t (fun _ u => P u ∧ R b u ∧ ∀ b', R b' t → R b' u) E) :
    (bs.mapM f).Ensures site s
      (fun _ t => P t ∧ (∀ b ∈ bs, R b t) ∧ ∀ b', R b' s → R b' t) E := by
  induction bs generalizing s with
  | nil => exact (ensures_pure []).2 ⟨hs, by simp, fun _ h => h⟩
  | cons b bs ih =>
    rw [List.mapM_cons, ensures_bind]
    refine (hstep b (by simp) s hs).mono ?_ fun _ _ h => h
    rintro _ t ⟨ht, hb, hkept⟩
    refine (ih ht fun b' hb' => hstep b' (by simp [hb'])).bind ?_ fun _ _ h => h
    rintro _ u ⟨hu, hbs, hkept'⟩
    rw [ensures_pure]
    refine ⟨hu, ?_, fun b' h => hkept' b' (hkept b' h)⟩
    rintro b' (_ | ⟨_, hb'⟩)
    · exact hkept' b hb
    · exact hbs b' hb'

/-! ### Relations between states -/

/-- However `x` ends on the site, the state before and the state after are related, and its failures
are among `F`. -/
structure Respects (site : Site) (R : State → State → Prop) (F : Failure → Prop)
    (x : Render α) : Prop where
  ensures : ∀ s, x.Ensures site s (fun _ t => R s t) fun e t => F e ∧ R s t

namespace Respects

variable {R : State → State → Prop} {F : Failure → Prop} {x : Render α}

theorem mono {R' : State → State → Prop} {F' : Failure → Prop} (h : Respects site R F x)
    (hR : ∀ s t, R s t → R' s t) (hF : ∀ e, F e → F' e) : Respects site R' F' x :=
  ⟨fun s => (h.ensures s).mono (fun _ t => hR s t) fun e t he => ⟨hF e he.1, hR s t he.2⟩⟩

theorem modify {f : State → State} (h : ∀ s, R s (f s)) :
    Respects site R F (modify f : Render Unit) :=
  ⟨fun s => (ensures_modify f).2 (h s)⟩

theorem modifyPage {f : Page → Page} (h : ∀ s : State, R s { s with page := f s.page }) :
    Respects site R F (modifyPage f) :=
  ⟨fun s => (ensures_modifyPage f).2 (h s)⟩

/-- The site is the one on which the rendering runs. -/
theorem bind_read {f : Site → Render α} (h : Respects site R F (f site)) :
    Respects site R F (MonadReader.read >>= f) :=
  ⟨fun s => (ensures_bind _ f).2 (ensures_read.2 (h.ensures s))⟩

variable [IsPreorder State R]

theorem pure (a : α) : Respects site R F (Pure.pure a : Render α) :=
  ⟨fun s => (ensures_pure a).2 (refl_of R s)⟩

theorem throw {e : Failure} (he : F e) : Respects site R F (MonadExcept.throw e : Render α) :=
  ⟨fun s => (ensures_throw e).2 ⟨he, refl_of R s⟩⟩

theorem get : Respects site R F (MonadState.get : Render State) :=
  ⟨fun s => ensures_get.2 (refl_of R s)⟩

theorem context : Respects site R F Render.context := ⟨fun s => ensures_context.2 (refl_of R s)⟩

theorem orFail {f : Failure} (hf : F f) (o : Option α) :
    Respects site R F (Render.orFail f o) := by
  cases o
  · exact throw hf
  · exact pure _

theorem lift {r : Except Failure α} (hr : ∀ e, r = .error e → F e) :
    Respects site R F (Render.lift r) := by
  cases r
  · exact throw (hr _ rfl)
  · exact pure _

/-- A relation that two renderings respect is respected by the one that does both. -/
theorem bind {x : Render β} (hx : Respects site R F x)
    (hf : ∀ b, Respects site R F (f b)) : Respects site R F (x >>= f) := by
  refine ⟨fun s => (ensures_bind x f).2 ?_⟩
  refine (hx.ensures s).mono (fun b t hst => ?_) fun _ _ h => h
  exact ((hf b).ensures t).mono (fun _ u htu => trans_of R hst htu)
    fun _ u he => ⟨he.1, trans_of R hst he.2⟩

theorem tryCatch {G : Failure → Prop} {handle : Failure → Render α} (hx : Respects site R G x)
    (hh : ∀ e, G e → Respects site R F (handle e)) :
    Respects site R F (MonadExcept.tryCatch x handle) := by
  refine ⟨fun s => (ensures_tryCatch x handle).2 ?_⟩
  refine (hx.ensures s).mono (fun _ _ h => h) fun e t he => ?_
  exact ((hh e he.1).ensures t).mono (fun _ u htu => trans_of R he.2 htu)
    fun _ u he' => ⟨he'.1, trans_of R he.2 he'.2⟩

theorem mapM {bs : List β} (hf : ∀ b ∈ bs, Respects site R F (f b)) :
    Respects site R F (bs.mapM f) := by
  induction bs with
  | nil => exact pure []
  | cons b bs ih =>
    rw [List.mapM_cons]
    obtain ⟨hb, hbs⟩ := List.forall_mem_cons.1 hf
    exact bind hb fun _ => bind (ih hbs) fun _ => pure _

end Respects

end LuaDocs.Render
