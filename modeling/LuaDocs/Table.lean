/-!
# Tables in order of insertion

A table maps texts to values and lists its rows in the order in which their keys were first
written. Writing a key again keeps its place.
-/

namespace LuaDocs

/-- Rows of keys and values. -/
abbrev Table (α : Type) := List (String × α)

namespace Table

variable {α : Type}

/-- The value of a key. -/
def get? (t : Table α) (key : String) : Option α :=
  match t with
  | [] => none
  | row :: rest => if row.1 == key then some row.2 else get? rest key

/-- The key has a row. -/
def has (t : Table α) (key : String) : Bool := (get? t key).isSome

/-- The keys in order. -/
def keys (t : Table α) : List String := t.map Prod.fst

/-- Writes a value: in the place of the old one, or in a new row at the end. -/
def set (t : Table α) (key : String) (value : α) : Table α :=
  match t with
  | [] => [(key, value)]
  | row :: rest => if row.1 == key then (key, value) :: rest else row :: set rest key value

/-- Removes the row of a key. -/
def erase (t : Table α) (key : String) : Table α := t.filter fun row => row.1 != key

/-- Writes the rows of `s` over those of `t`, one after the other. -/
def update (t s : Table α) : Table α := s.foldl (fun t row => set t row.1 row.2) t

/-- Writes a value unless the key has one. -/
def setDefault (t : Table α) (key : String) (value : α) : Table α :=
  if has t key then t else set t key value

@[simp] theorem get?_nil (key : String) : get? ([] : Table α) key = none := rfl

theorem get?_cons (row : String × α) (t : Table α) (key : String) :
    get? (row :: t) key = if row.1 == key then some row.2 else get? t key := rfl

@[simp] theorem get?_set_self (t : Table α) (key : String) (value : α) :
    get? (set t key value) key = some value := by
  induction t with
  | nil => simp [set, get?]
  | cons row rest ih =>
    by_cases h : row.1 = key <;> simp [set, get?, h, ih]

theorem get?_set_of_ne (t : Table α) {key other : String} (value : α) (h : key ≠ other) :
    get? (set t key value) other = get? t other := by
  induction t with
  | nil => simp [set, get?, h]
  | cons row rest ih =>
    by_cases hk : row.1 = key
    · simp [set, get?, hk, h]
    · simp [set, get?, hk, ih]

/-- What is found stands in the table. -/
theorem mem_of_get? {t : Table α} {key : String} {v : α}
    (h : get? t key = some v) : (key, v) ∈ t := by
  induction t with
  | nil => simp at h
  | cons row rest ih =>
    rw [get?_cons] at h
    split at h
    · next hk =>
      obtain ⟨k, w⟩ := row
      simp only [Option.some.injEq] at h
      simp only [beq_iff_eq] at hk
      simp [← hk, ← h]
    · exact List.mem_cons_of_mem _ (ih h)

/-- A new key goes to the end, and writing a known key moves nothing. -/
theorem keys_set (t : Table α) (key : String) (value : α) :
    keys (set t key value) = if key ∈ keys t then keys t else keys t ++ [key] := by
  induction t with
  | nil => simp [set, keys]
  | cons row rest ih =>
    by_cases h : row.1 = key
    · simp [set, keys, h]
    · have hk : ¬ key = row.1 := fun e => h e.symm
      simp only [keys] at ih
      by_cases hm : key ∈ rest.map Prod.fst <;>
        simp [set, keys, h, hk, ih, hm]

end Table

end LuaDocs
