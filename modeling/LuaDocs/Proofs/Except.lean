import Mathlib.Data.List.Forall2

/-!
# Computations that end well

A computation that is made of steps ends well only if all its steps do.
-/

namespace Except

variable {ε δ α β : Type} {f : α → Except ε β} {x : Except ε α} {as : List α} {bs : List β} {a : α}

theorem ok_of_bind {b : β} (h : x >>= f = .ok b) :
    ∃ a, x = .ok a ∧ f a = .ok b := by
  cases x with
  | error e => cases h
  | ok a => exact ⟨a, rfl, h⟩

theorem bind_of_ok (h : x = .ok a) (f : α → Except ε β) :
    x >>= f = f a := by
  rw [h]
  rfl

/-- Of two computations with the same first step, one ends well and the other goes wrong later. -/
theorem error_of_bind {γ : Type} {g : α → Except ε γ} {b : β}
    {e : ε} (h : x >>= f = .ok b) (hg : ∀ a, f a = .ok b → g a = .error e) :
    x >>= g = .error e := by
  obtain ⟨a, rfl, hf⟩ := ok_of_bind h
  exact hg a hf

theorem ok_of_map {f : α → β} {b : β} (h : x.map f = .ok b) :
    ∃ a, x = .ok a ∧ f a = b := by
  cases x with
  | error e => cases h
  | ok a => exact ⟨a, rfl, Except.ok.inj h⟩

theorem ok_of_mapError {f : ε → δ} (h : x.mapError f = .ok a) :
    x = .ok a := by
  cases x with
  | error e => cases h
  | ok b => exact congrArg _ (Except.ok.inj h)

theorem exists_of_isOk (h : x.isOk = true) : ∃ a, x = .ok a := by
  cases x with
  | error e => cases h
  | ok a => exact ⟨a, rfl⟩

/-- What holds at the start of a loop and is kept by every step holds at the end. -/
theorem foldlM_induction {P : α → Prop} {f : α → β → Except ε α} {a' : α}
    (ha : P a) (hstep : ∀ b ∈ bs, ∀ a a', P a → f a b = .ok a' → P a')
    (h : bs.foldlM f a = .ok a') : P a' := by
  induction bs generalizing a with
  | nil =>
    cases h
    exact ha
  | cons b bs ih =>
    rw [List.foldlM_cons] at h
    obtain ⟨c, hc, hrest⟩ := ok_of_bind h
    exact ih (hstep b List.mem_cons_self a c ha hc)
      (fun b hb => hstep b (List.mem_cons_of_mem _ hb)) hrest

/-- The results of a loop, item by item. -/
theorem forall₂_of_mapM (h : as.mapM f = .ok bs) :
    List.Forall₂ (fun a b => f a = .ok b) as bs := by
  induction as generalizing bs with
  | nil =>
    cases h
    exact .nil
  | cons a as ih =>
    rw [List.mapM_cons] at h
    obtain ⟨b, hb, h⟩ := ok_of_bind h
    obtain ⟨bs, hbs, h⟩ := ok_of_bind h
    cases h
    exact .cons hb (ih hbs)

/-- Every result of a loop comes from one of the items. -/
theorem mem_of_mapM (h : as.mapM f = .ok bs) {b : β} (hb : b ∈ bs) : ∃ a ∈ as, f a = .ok b := by
  replace h := forall₂_of_mapM h
  induction h with
  | nil => cases hb
  | cons hf _ ih =>
    rcases List.mem_cons.1 hb with rfl | hb
    · exact ⟨_, List.mem_cons_self, hf⟩
    · obtain ⟨a, ha, hf⟩ := ih hb
      exact ⟨a, List.mem_cons_of_mem _ ha, hf⟩

/-- Every item of a loop that ended well has a result. -/
theorem exists_of_mapM (h : as.mapM f = .ok bs) (ha : a ∈ as) : ∃ b, f a = .ok b := by
  replace h := forall₂_of_mapM h
  induction h with
  | nil => cases ha
  | cons hf _ ih =>
    rcases List.mem_cons.1 ha with rfl | ha
    · exact ⟨_, hf⟩
    · exact ih ha

theorem toOption_eq_some : x.toOption = some a ↔ x = .ok a := by
  cases x with
  | error e => exact ⟨nofun, nofun⟩
  | ok b => exact ⟨fun h => congrArg _ (Option.some.inj h), fun h => congrArg _ (Except.ok.inj h)⟩

theorem eq_filterMap_of_mapM (h : as.mapM f = .ok bs) :
    bs = as.filterMap fun a => (f a).toOption := by
  replace h := forall₂_of_mapM h
  induction h with
  | nil => rfl
  | cons hf _ ih => rw [List.filterMap_cons, toOption_eq_some.2 hf, ← ih]

/-- What is taken from the results of a loop, if it is known of each item. -/
theorem map_eq_of_mapM {γ : Type} {g : β → γ} {k : α → γ}
    (hf : ∀ a b, f a = .ok b → g b = k a) (h : as.mapM f = .ok bs) : bs.map g = as.map k := by
  replace h := forall₂_of_mapM h
  induction h with
  | nil => rfl
  | cons hab _ ih => rw [List.map_cons, List.map_cons, hf _ _ hab, ih]

/-- A loop whose steps all end well ends well. -/
theorem exists_mapM (h : ∀ a ∈ as, ∃ b, f a = .ok b) :
    ∃ bs, as.mapM f = .ok bs := by
  induction as with
  | nil => exact ⟨[], rfl⟩
  | cons a as ih =>
    rw [List.forall_mem_cons] at h
    obtain ⟨b, hb⟩ := h.1
    obtain ⟨bs, hbs⟩ := ih h.2
    refine ⟨b :: bs, ?_⟩
    rw [List.mapM_cons, bind_of_ok hb, bind_of_ok hbs]
    rfl

end Except

namespace ExceptT

variable {ε σ α β : Type} {x : ExceptT ε (StateM σ) α} {f : α → ExceptT ε (StateM σ) β} {s s' : σ}

/-! ### Computations with a state -/

theorem ok_of_run_bind {b : β} (h : (x >>= f).run.run s = (.ok b, s')) :
    ∃ a s₁, x.run.run s = (.ok a, s₁) ∧ (f a).run.run s₁ = (.ok b, s') := by
  rw [ExceptT.run_bind, StateT.run_bind] at h
  rcases hx : x.run.run s with ⟨e | a, s₁⟩
  · rw [hx] at h
    cases (Prod.mk.inj h).1
  · rw [hx] at h
    exact ⟨a, s₁, rfl, h⟩

theorem run_bind_of_ok {a : α} (h : x.run.run s = (.ok a, s'))
    (f : α → ExceptT ε (StateM σ) β) : (x >>= f).run.run s = (f a).run.run s' := by
  rw [ExceptT.run_bind, StateT.run_bind, h]
  rfl

theorem run_bind_of_error {e : ε} (h : x.run.run s = (.error e, s'))
    (f : α → ExceptT ε (StateM σ) β) : (x >>= f).run.run s = (.error e, s') := by
  rw [ExceptT.run_bind, StateT.run_bind, h]
  rfl

end ExceptT
