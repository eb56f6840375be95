import LuaDocs.ModuleDirective
import LuaDocs.Proofs.Render.Kept

/-!
# Setting the current module

A directive that starts a module, or that only sets it, changes the module in force and nothing
that is saved. It is refused inside a class, and if it does not name a module.
-/

namespace LuaDocs

/-- The context with another module in force. -/
def Context.withModule (c : Context) (name : String) : Context :=
  { c with moduleName := { c.moduleName with current := .value name } }

theorem Context.settle_withModule (c : Context) (name : String) :
    (c.withModule name).settle = c.settle.withModule name := rfl

/-- Setting the module changes nothing that is saved. -/
theorem Context.pop_withModule (c : Context) (name : String) :
    (c.withModule name).pop = c.pop := rfl

namespace ModuleDirective

open Render

variable {K : String → Prop} {site : Site} {s : State}

/-- The name of the module that the argument of a directive gives. -/
def nameIn? (sig : String) : Option String :=
  match Signature.readName sig with
  | .ok (name, rest) => if rest.isEmpty then some name else none
  | .error _ => none

theorem ensures_readArgument (directive sig : String) :
    (readArgument directive (some sig)).Ensures site s
      (fun name t => t = s ∧ nameIn? sig = some name ∧
        Context.nonEmpty s.page.context.className.get? = none)
      fun _ t => t = s ∧
        (Context.nonEmpty s.page.context.className.get? ≠ none ∨ nameIn? sig = none) := by
  unfold readArgument nameIn?
  rw [ensures_bind, ensures_context]
  dsimp only
  split
  · next hclass =>
    rw [ensures_bind, ensures_severe]
    exact ⟨rfl, .inl (Option.isSome_iff_ne_none.1 hclass)⟩
  · next hclass =>
    rw [ensures_bind, ensures_orFail]
    refine ⟨?_, nofun⟩
    rintro sig' ⟨⟩
    cases hsig : Signature.readName sig with
    | error e => exact (ensures_error _).2 ⟨rfl, .inr rfl⟩
    | ok r =>
      obtain ⟨name, rest⟩ := r
      dsimp only
      split
      · exact (ensures_pure _).2 ⟨rfl, rfl, by simpa using hclass⟩
      · exact (ensures_error _).2 ⟨rfl, .inr rfl⟩

theorem ensures_setModule {Q : Unit → State → Prop} {E : Failure → State → Prop}
    (name : String) :
    (setModule (some name)).Ensures site s Q E ↔
      Q () (s.inContext (s.page.context.withModule name)) := by
  unfold setModule
  rw [ensures_bind, ensures_context, ensures_setContext]
  rfl

/-- **Starting a module** outside of classes sets the module in force and enters it, unless it is
to be left out of the tables; if it is refused, nothing has changed. -/
theorem ensures_start {sig : String} {options : Options}
    (hK : options.has "no-index" = false → ∀ name, nameIn? sig = some name → K name) :
    (start (some sig) options).Ensures site s
      (fun _ t => Context.nonEmpty s.page.context.className.get? = none ∧
        ∃ name, nameIn? sig = some name ∧ Persists K s t ∧
        t.page.context = s.page.context.withModule name ∧
        (options.has "no-index" = false → Listed name t))
      fun _ t => t = s ∧
        (Context.nonEmpty s.page.context.className.get? ≠ none ∨ nameIn? sig = none) := by
  unfold start
  refine (ensures_readArgument "module" sig).bind ?_ fun _ _ h => h
  rintro name t ⟨rfl, hname, hclass⟩
  rw [ensures_bind, ensures_setModule]
  split
  · next hidx =>
    refine (ensures_pure _).2 ⟨hclass, name, hname, .inContext t _, rfl, fun h => ?_⟩
    rw [hidx] at h
    cases h
  · next hidx =>
    have hname' : K name := hK (Bool.eq_false_iff.2 hidx) name hname
    refine (ensures_enter site _ hname' .module_ options none .member).bind ?_ fun _ _ h => h.elim
    rintro id u ⟨hu, hlisted⟩
    refine (ensures_pure _).2 ⟨hclass, name, hname, ?_, hu.context, fun _ => hlisted⟩
    exact (Persists.inContext t _).trans hu.toPersists

/-! ### What stays saved -/

theorem mild_readArgument (directive : String) (argument : Option String) :
    Respects site (Mild K) (fun _ => True) (readArgument directive argument) := by
  unfold readArgument
  refine .bind .context fun c => ?_
  dsimp only
  split
  refine .bind (.throw trivial) fun _ => ?_
  -- inside a class or not, the argument is read in the same way
  all_goals
    refine .bind (.orFail trivial argument) fun sig => ?_
    split
    · exact .throw trivial
    · split
      · exact .pure _
      · exact .throw trivial

theorem kept_setModule (name : Option String) :
    Respects site Kept (fun _ => True) (setModule name) := by
  unfold setModule
  refine ⟨fun s => ?_⟩
  rw [ensures_bind, ensures_context, ensures_setContext]
  exact ⟨.inContext s _, 0, ⟨.of_frames_eq rfl, .of_frames_eq rfl, .of_frames_eq rfl⟩⟩

theorem kept_start (argument : Option String) (options : Options) :
    Respects site Kept (fun _ => True) (start argument options) := by
  unfold start
  refine .bind (mild_readArgument _ _).kept fun name => .bind (kept_setModule _) fun _ => ?_
  split
  · exact .pure _
  · exact .bind (mild_enter (fun _ => True) trivial _ _ _ _).kept fun _ => .pure _

theorem kept_setCurrent (argument : Option String) :
    Respects site Kept (fun _ => True) (setCurrent argument) :=
  .bind (mild_readArgument _ _).kept fun _ => .bind (kept_setModule _) fun _ => .pure _

end ModuleDirective

end LuaDocs
