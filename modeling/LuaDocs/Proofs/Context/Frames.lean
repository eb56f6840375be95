import LuaDocs.Context

/-!
# Saved contexts

What a reader of the context can see is the value in force in each cell. What a later restoring
gives back is the list of values saved below it. The two together are the **settled** context: it
forgets whether a missing value was never set or was restored to nothing, and saving and restoring
cannot tell a context from its settled form.

A context can only be compared with an earlier one by what is saved. Contexts that have the values
saved earlier at the bottom of their lists, with `n` more above them, are **grown** by `n`. Being
grown by nothing is not yet being the same, because the values in force are not saved; but between
a saving and the restoring that belongs to it, it is.
-/

namespace LuaDocs

namespace Scoped

variable {α : Type}

/-- The saved values, the nearest first. -/
def frames (s : Scoped α) : List (Option α) := s.saved.getD []

/-- The cell with a note of what is saved and of a missing value. -/
def settle (s : Scoped α) : Scoped α := ⟨.ofOption s.get?, some s.frames⟩

@[simp] theorem get?_settle (s : Scoped α) : s.settle.get? = s.get? := by
  simp [settle, get?]

@[simp] theorem frames_settle (s : Scoped α) : s.settle.frames = s.frames := rfl

@[simp] theorem frames_push (s : Scoped α) (next : Option α) :
    (s.push next).frames = s.get? :: s.frames := rfl

@[simp] theorem get?_push (s : Scoped α) (next : Option α) : (s.push next).get? = next := by
  cases next <;> rfl

theorem push_settle (s : Scoped α) (next : Option α) : s.settle.push next = s.push next := by
  simp only [push, get?_settle]
  rfl

theorem settle_eq_iff {s t : Scoped α} :
    s.settle = t.settle ↔ s.get? = t.get? ∧ s.frames = t.frames := by
  constructor
  · intro h
    exact ⟨by rw [← get?_settle s, h, get?_settle], by rw [← frames_settle s, h, frames_settle]⟩
  · rintro ⟨hv, hf⟩
    rw [settle, settle, hv, hf]

theorem settle_pop_push (s : Scoped α) (next : Option α) :
    (s.push next).pop.settle = s.settle := by
  rw [settle_eq_iff]
  exact ⟨get?_pop_push s next, by rw [frames, saved_pop_push]; rfl⟩

/-- The cell `t` has `n` values saved above those that `s` has saved. -/
def Grown (n : Nat) (s t : Scoped α) : Prop :=
  ∃ above, above.length = n ∧ t.frames = above ++ s.frames

namespace Grown

variable {n m : Nat} {s t u : Scoped α}

theorem of_frames_eq (h : t.frames = s.frames) : Grown 0 s t := ⟨[], rfl, h⟩

theorem trans (hst : Grown n s t) (htu : Grown m t u) : Grown (n + m) s u := by
  obtain ⟨above, hn, ht⟩ := hst
  obtain ⟨higher, hm, hu⟩ := htu
  refine ⟨higher ++ above, ?_, ?_⟩
  · rw [List.length_append, hn, hm, Nat.add_comm]
  · rw [hu, ht, List.append_assoc]

theorem push (s : Scoped α) (next : Option α) : Grown 1 s (s.push next) := ⟨[s.get?], rfl, rfl⟩

/-- The restoring that belongs to a saving takes one value away, whatever lies above it. -/
theorem pop_push {next : Option α} (h : Grown n (s.push next) t) : Grown n s t.pop := by
  obtain ⟨above, rfl, ht⟩ := h
  rw [frames_push] at ht
  cases above with
  | nil =>
    refine of_frames_eq ?_
    rw [frames, pop, show t.saved.getD [] = s.get? :: s.frames from ht]
    rfl
  | cons a rest =>
    refine ⟨rest ++ [s.get?], by simp, ?_⟩
    rw [frames, pop, show t.saved.getD [] = a :: (rest ++ s.get? :: s.frames) from ht]
    simp

theorem frames_eq (h : Grown 0 s t) : t.frames = s.frames := by
  obtain ⟨above, hn, ht⟩ := h
  rw [ht, List.length_eq_zero_iff.1 hn, List.nil_append]

/-- The restoring that belongs to a saving gives back the cell, if nothing lies above. -/
theorem settle_pop_push {next : Option α} (h : Grown 0 (s.push next) t) :
    t.pop.settle = s.settle := by
  have ht : t.saved.getD [] = s.get? :: s.frames := h.frames_eq
  rw [settle_eq_iff]
  constructor
  · rw [pop, ht]
    simp [get?]
  · rw [frames, pop, ht]
    rfl

end Grown

end Scoped

namespace Context

/-- The context with a note of what is saved and of missing values. -/
def settle (c : Context) : Context :=
  ⟨c.moduleName.settle, c.className.settle, c.usedModules.settle⟩

@[simp] theorem current_settle (c : Context) : c.settle.current = c.current := by
  simp [settle, current]

@[simp] theorem get?_moduleName_settle (c : Context) :
    c.settle.moduleName.get? = c.moduleName.get? := Scoped.get?_settle _

@[simp] theorem get?_className_settle (c : Context) :
    c.settle.className.get? = c.className.get? := Scoped.get?_settle _

@[simp] theorem get?_usedModules_settle (c : Context) :
    c.settle.usedModules.get? = c.usedModules.get? := Scoped.get?_settle _

@[simp] theorem settle_settle (c : Context) : c.settle.settle = c.settle := by
  simp [settle, Scoped.settle_eq_iff]

/-- Saving cannot tell a context from its settled form. -/
theorem push_settle (c : Context) (m k : Option String) (u : Option Selection) :
    c.settle.push m k u = c.push m k u := by
  simp only [push, settle, Scoped.push_settle]

/-- Restoring cannot tell a context from its settled form. -/
theorem pop_settle (c : Context) : c.settle.pop = c.pop := rfl

/-- Restoring gives back the settled context. -/
theorem settle_pop_push (c : Context) (m k : Option String) (u : Option Selection) :
    (c.push m k u).pop.settle = c.settle := by
  simp only [push, pop, settle, Scoped.settle_pop_push]

theorem pop_eq_of_settle_eq {c d : Context} (h : c.settle = d.settle) : c.pop = d.pop := by
  rw [← pop_settle c, h, pop_settle]

theorem current_eq_of_settle_eq {c d : Context} (h : c.settle = d.settle) :
    c.current = d.current := by
  rw [← current_settle c, h, current_settle]

/-- Each cell of the context `d` has `n` values saved above those that `c` has saved. -/
structure Grown (n : Nat) (c d : Context) : Prop where
  moduleName : c.moduleName.Grown n d.moduleName
  className : c.className.Grown n d.className
  usedModules : c.usedModules.Grown n d.usedModules

namespace Grown

variable {n m : Nat} {c d e : Context}

theorem refl (c : Context) : Grown 0 c c :=
  ⟨.of_frames_eq rfl, .of_frames_eq rfl, .of_frames_eq rfl⟩

theorem trans (hcd : Grown n c d) (hde : Grown m d e) : Grown (n + m) c e :=
  ⟨hcd.moduleName.trans hde.moduleName, hcd.className.trans hde.className,
    hcd.usedModules.trans hde.usedModules⟩

theorem push (c : Context) (m k : Option String) (u : Option Selection) :
    Grown 1 c (c.push m k u) :=
  ⟨.push _ _, .push _ _, .push _ _⟩

/-- **Restoring after growth.** The restoring that belongs to a saving leaves the context as grown
as it was, -/
theorem pop_push {m k : Option String} {u : Option Selection} (h : Grown n (c.push m k u) d) :
    Grown n c d.pop :=
  ⟨h.moduleName.pop_push, h.className.pop_push, h.usedModules.pop_push⟩

/-- and if it was not grown at all, gives back the settled context. -/
theorem settle_pop_push {m k : Option String} {u : Option Selection}
    (h : Grown 0 (c.push m k u) d) : d.pop.settle = c.settle := by
  simp only [pop, settle, h.moduleName.settle_pop_push, h.className.settle_pop_push,
    h.usedModules.settle_pop_push]

/-- Contexts that settle alike have the same values saved. -/
theorem of_settle_eq (h : d.settle = c.settle) : Grown 0 c d := by
  simp only [settle, Context.mk.injEq, Scoped.settle_eq_iff] at h
  exact ⟨.of_frames_eq h.1.2, .of_frames_eq h.2.1.2, .of_frames_eq h.2.2.2⟩

end Grown

/-- The module, the class and the modules in use are those of `c`, and so is what is saved. -/
def Restored (c d : Context) : Prop := d.current = c.current ∧ Grown 0 c d

/-- A context is restored if it settles to the same. -/
theorem restored_iff {c d : Context} : c.Restored d ↔ d.settle = c.settle := by
  constructor
  · rintro ⟨hcurrent, hm, hk, hu⟩
    simp only [current, Prod.mk.injEq] at hcurrent
    simp only [settle, Context.mk.injEq, Scoped.settle_eq_iff]
    exact ⟨⟨hcurrent.1, hm.frames_eq⟩, ⟨hcurrent.2.1, hk.frames_eq⟩, hcurrent.2.2, hu.frames_eq⟩
  · intro h
    exact ⟨current_eq_of_settle_eq h, .of_settle_eq h⟩

end Context

end LuaDocs
