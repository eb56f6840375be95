import LuaDocs.Proofs.Except
import LuaDocs.Table
import Mathlib.Data.List.Nodup

/-!
# Tables without repeated keys

A table is a list of rows, and looking up a key gives the first row of that key. Removing rows
from such a list can therefore uncover another row. It cannot if no key has two rows, which is
what writing rows one after the other gives; then looking up commutes with removing, changing and
merging rows.
-/

namespace LuaDocs

namespace Table

variable {α β : Type} {t : Table α} {key : String}

/-- No key has two rows. -/
def Keyed (t : Table α) : Prop := (keys t).Nodup

theorem keyed_nil : Keyed ([] : Table α) := List.nodup_nil

theorem keyed_cons {row : String × α} :
    Keyed (row :: t) ↔ row.1 ∉ keys t ∧ Keyed t := by
  simp [Keyed, keys]

theorem mem_keys_set {other : String} {value : α} :
    other ∈ keys (set t key value) ↔ other = key ∨ other ∈ keys t := by
  rw [keys_set]
  split
  · next h => exact ⟨.inr, fun hor => hor.elim (fun heq => heq ▸ h) id⟩
  · rw [List.mem_append, List.mem_singleton, or_comm]

theorem keyed_set (h : Keyed t) (key : String) (value : α) :
    Keyed (set t key value) := by
  rw [Keyed, keys_set]
  split
  · exact h
  · next hk =>
    refine List.Nodup.append h (List.nodup_singleton key) ?_
    simpa [List.disjoint_singleton] using hk

theorem keyed_filter (h : Keyed t) (p : String × α → Bool) :
    Keyed (t.filter p) :=
  (List.filter_sublist.map Prod.fst).nodup h

theorem keys_mapRows (t : Table α) (f : α → β) :
    keys (t.map fun row => (row.1, f row.2)) = keys t := by
  simp [keys, List.map_map, Function.comp_def]

theorem keyed_mapRows (h : Keyed t) (f : α → β) :
    Keyed (t.map fun row => (row.1, f row.2)) := by
  rw [Keyed, keys_mapRows]
  exact h

theorem get?_set (t : Table α) (key other : String) (value : α) :
    get? (set t key value) other = if key = other then some value else get? t other := by
  split
  · next h => rw [← h, get?_set_self]
  · next h => exact get?_set_of_ne t value h

theorem get?_setDefault_of_ne (t : Table α) {other : String} (value : α) (h : key ≠ other) :
    get? (setDefault t key value) other = get? t other := by
  unfold setDefault
  split
  · rfl
  · exact get?_set_of_ne t value h

/-- A key is found exactly if it has a row. -/
theorem get?_eq_none_iff : get? t key = none ↔ key ∉ keys t := by
  induction t with
  | nil => simp [keys]
  | cons row rest ih =>
    rw [get?_cons]
    by_cases h : row.1 = key
    · simp [h, keys]
    · have hk : ¬ key = row.1 := fun e => h e.symm
      simpa [h, hk, keys] using ih

/-- What stands in a table is found, if no key has two rows. -/
theorem get?_of_mem (h : Keyed t) {v : α} (hm : (key, v) ∈ t) :
    get? t key = some v := by
  induction t with
  | nil => simp at hm
  | cons row rest ih =>
    obtain ⟨hne, hrest⟩ := keyed_cons.mp h
    rw [get?_cons]
    rcases List.mem_cons.mp hm with rfl | hm
    · simp
    · have : row.1 ≠ key := fun e => hne (List.mem_map.mpr ⟨(key, v), hm, e.symm⟩)
      simpa [this] using ih hrest hm

theorem get?_filter (h : Keyed t) (p : String × α → Bool) (key : String) :
    get? (t.filter p) key = (get? t key).filter fun v => p (key, v) := by
  induction t with
  | nil => rfl
  | cons row rest ih =>
    obtain ⟨hne, hrest⟩ := keyed_cons.mp h
    obtain ⟨k, v⟩ := row
    by_cases hk : k = key
    · subst hk
      have hnone : get? (rest.filter p) k = none := by
        rw [ih hrest, get?_eq_none_iff.mpr hne]
        rfl
      by_cases hp : p (k, v) <;> simp [get?_cons, hp, hnone, Option.filter]
    · by_cases hp : p (k, v) <;> simp [get?_cons, hp, hk, ih hrest]

theorem get?_mapRows (t : Table α) (f : α → β) (key : String) :
    get? (t.map fun row => (row.1, f row.2)) key = (get? t key).map f := by
  induction t with
  | nil => rfl
  | cons row rest ih =>
    by_cases hk : row.1 = key <;> simp [get?_cons, hk, ih]

/-- Every row of a table is put into another one by a step that touches the key of the row only.
As no key has two rows, each key is touched once. -/
theorem get?_foldl {step : Table α → String × β → Table α} {put : Option α → β → Option α}
    (hstep : ∀ t row key,
      get? (step t row) key = if row.1 = key then put (get? t key) row.2 else get? t key)
    {rows : Table β} (h : Keyed rows) (t : Table α) (key : String) :
    get? (rows.foldl step t) key = (get? rows key).elim (get? t key) (put (get? t key)) := by
  induction rows generalizing t with
  | nil => rfl
  | cons row rest ih =>
    obtain ⟨hne, hrest⟩ := keyed_cons.mp h
    rw [List.foldl_cons, ih hrest, hstep, get?_cons]
    by_cases hk : row.1 = key
    · have hnone : get? rest key = none := get?_eq_none_iff.mpr (hk ▸ hne)
      simp [hk, hnone]
    · simp [hk]

theorem get?_update (t : Table α) {s : Table α} (h : Keyed s) (key : String) :
    get? (update t s) key = (get? s key).or (get? t key) := by
  have hfold := @get?_foldl α α (fun t row => set t row.1 row.2) (fun _ v => some v)
    (fun t row key => get?_set t row.1 key row.2) s h t key
  rw [update, hfold]
  cases get? s key <;> rfl

/-! ### Tables that are made row by row -/

theorem get?_append (s t : Table α) (key : String) :
    get? (s ++ t) key = (get? s key).or (get? t key) := by
  induction s with
  | nil => rfl
  | cons row rest ih =>
    by_cases hk : row.1 = key <;> simp [get?_cons, hk, ih]

/-- After rows were written one after the other, the last row of a key counts. -/
theorem get?_update_reverse (t s : Table α) (key : String) :
    get? (update t s) key = (get? s.reverse key).or (get? t key) := by
  induction s generalizing t with
  | nil => rfl
  | cons row rest ih =>
    have hupdate : update t (row :: rest) = update (set t row.1 row.2) rest := rfl
    rw [hupdate, ih, get?_set, List.reverse_cons, get?_append, Option.or_assoc]
    by_cases hk : row.1 = key <;> simp [get?_cons, hk]

theorem mem_keys_update {s : Table α} :
    key ∈ keys (update t s) ↔ key ∈ keys t ∨ key ∈ keys s := by
  induction s generalizing t with
  | nil => simp [update, keys]
  | cons row rest ih =>
    have hupdate : update t (row :: rest) = update (set t row.1 row.2) rest := rfl
    have hkeys : keys (row :: rest) = row.1 :: keys rest := rfl
    rw [hupdate, ih, mem_keys_set, hkeys, List.mem_cons, or_assoc, or_left_comm]

theorem keyed_update (h : Keyed t) (s : Table α) : Keyed (update t s) := by
  induction s generalizing t with
  | nil => exact h
  | cons row rest ih => exact ih (keyed_set h row.1 row.2)

theorem keys_mapKeys (t : Table α) (f : String → String) :
    keys (t.map fun row => (f row.1, row.2)) = (keys t).map f := by
  simp [keys, List.map_map, Function.comp_def]

theorem keyed_mapKeys (h : Keyed t) {f : String → String}
    (hf : ∀ a ∈ keys t, ∀ b ∈ keys t, f a = f b → a = b) :
    Keyed (t.map fun row => (f row.1, row.2)) := by
  rw [Keyed, keys_mapKeys]
  exact List.Nodup.map_on hf h

/-- Keys that are changed in such a way that no two of them become one. -/
theorem get?_mapKeys {f : String → String} (key : String)
    (h : ∀ row ∈ t, f row.1 = f key ↔ row.1 = key) :
    get? (t.map fun row => (f row.1, row.2)) (f key) = get? t key := by
  induction t with
  | nil => rfl
  | cons row rest ih =>
    obtain ⟨hrow, hrest⟩ := List.forall_mem_cons.1 h
    rw [List.map_cons, get?_cons, get?_cons, ih hrest]
    simp [hrow]

/-- Rows that are removed by their keys. -/
theorem get?_filter_keys (t : Table α) (p : String → Bool) (key : String) :
    get? (t.filter fun row => p row.1) key = if p key then get? t key else none := by
  induction t with
  | nil => simp
  | cons row rest ih =>
    by_cases hk : row.1 = key
    · subst hk
      by_cases hp : p row.1 = true <;> simp [get?_cons, hp, ih]
    · by_cases hp : p row.1 = true <;> simp [get?_cons, hp, hk, ih]

theorem get?_erase (t : Table α) (key other : String) :
    get? (erase t key) other = if key = other then none else get? t other := by
  rw [erase, get?_filter_keys t (fun k => k != key)]
  by_cases h : key = other
  · simp [h]
  · simp [h, Ne.symm h]

/-- A loop over the rows that keeps their keys finds the same keys, and what it makes of the row
that is found. -/
theorem get?_of_mapM {ε : Type} {f : String × α → Except ε (String × β)}
    (hkey : ∀ row row', f row = .ok row' → row'.1 = row.1) {u : Table β}
    (h : t.mapM f = .ok u) (key : String) :
    (get? t key = none → get? u key = none) ∧
      ∀ v, get? t key = some v → ∃ w, f (key, v) = .ok (key, w) ∧ get? u key = some w := by
  induction t generalizing u with
  | nil =>
    cases h
    simp
  | cons row rest ih =>
    rw [List.mapM_cons] at h
    obtain ⟨row', hrow, h⟩ := Except.ok_of_bind h
    obtain ⟨rest', hrest, h⟩ := Except.ok_of_bind h
    cases h
    obtain ⟨k, v⟩ := row
    obtain ⟨k', w⟩ := row'
    obtain rfl : k' = k := hkey _ _ hrow
    obtain ⟨hnone, hsome⟩ := ih hrest
    by_cases hk : k' = key
    · subst hk
      simp [get?_cons, hrow]
    · simpa [get?_cons, hk] using ⟨hnone, hsome⟩

theorem keys_of_mapM {ε : Type} {f : String × α → Except ε (String × β)}
    (hkey : ∀ row row', f row = .ok row' → row'.1 = row.1) {u : Table β}
    (h : t.mapM f = .ok u) : keys u = keys t := by
  induction t generalizing u with
  | nil =>
    cases h
    rfl
  | cons row rest ih =>
    rw [List.mapM_cons] at h
    obtain ⟨row', hrow, h⟩ := Except.ok_of_bind h
    obtain ⟨rest', hrest, h⟩ := Except.ok_of_bind h
    cases h
    exact congrArg₂ List.cons (hkey _ _ hrow) (ih hrest)

/-- Writing what stands there changes nothing. -/
theorem set_of_get?_eq_some {value : α} (h : get? t key = some value) : set t key value = t := by
  induction t with
  | nil => cases h
  | cons row rest ih =>
    rw [get?_cons] at h
    split at h
    · next hk =>
      rw [set, if_pos hk, ← Option.some.inj h, ← beq_iff_eq.1 hk]
    · next hk => rw [set, if_neg hk, ih h]

theorem set_of_get?_eq_none (h : get? t key = none) (value : α) :
    set t key value = t ++ [(key, value)] := by
  induction t with
  | nil => rfl
  | cons row rest ih =>
    rw [get?_cons] at h
    split at h
    · cases h
    · next hk => simp [set, hk, ih h]

end Table

end LuaDocs
