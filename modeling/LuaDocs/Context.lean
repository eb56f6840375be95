/-!
# The reference context

While a document is read, names are looked up in a current module, a current class and a list of
modules in use. A directive with a body saves the three and sets its own; when its body is done
they are restored.

A cell of the context keeps apart having no value and having been restored to no value, because a
reader of the context can tell the two apart.
-/

namespace LuaDocs

/-- A value of the context that may be absent, or present as "no value". -/
inductive Slot (α : Type) where
  /-- There is no entry. -/
  | absent
  /-- There is an entry, and it says that there is no value. -/
  | cleared
  /-- There is a value. -/
  | value (a : α)
  deriving DecidableEq, Repr

namespace Slot

variable {α : Type}

/-- The value, if there is one. -/
def get? : Slot α → Option α
  | .value a => some a
  | _ => none

/-- An entry that holds the given value or says that there is none. -/
def ofOption : Option α → Slot α
  | some a => .value a
  | none => .cleared

@[simp] theorem get?_ofOption (o : Option α) : (ofOption o).get? = o := by cases o <;> rfl

/-- The value, with `whenAbsent` for a missing entry only. -/
def getOr (s : Slot α) (whenAbsent : α) : Option α :=
  match s with
  | .absent => some whenAbsent
  | .cleared => none
  | .value a => some a

end Slot

/-- One value of the context and the values saved below it, the nearest first; nothing is noted of
saved values until the first push or pop. -/
structure Scoped (α : Type) where
  /-- The value in force. -/
  current : Slot α
  /-- The saved values, the nearest first. -/
  saved : Option (List (Option α))
  deriving DecidableEq, Repr

namespace Scoped

variable {α : Type}

/-- No value and nothing saved. -/
def empty : Scoped α := ⟨.absent, none⟩

/-- The value in force. -/
def get? (s : Scoped α) : Option α := s.current.get?

/-- Saves the value in force and sets a new one, or none. -/
def push (s : Scoped α) (next : Option α) : Scoped α :=
  ⟨match next with
    | some a => .value a
    | none => .absent, some (s.get? :: s.saved.getD [])⟩

/-- Restores the value saved last; with nothing saved there is no value. -/
def pop (s : Scoped α) : Scoped α :=
  match s.saved.getD [] with
  | [] => ⟨.absent, some []⟩
  | a :: rest => ⟨.ofOption a, some rest⟩

/-- Restoring gives back the value that was in force. -/
@[simp] theorem get?_pop_push (s : Scoped α) (next : Option α) :
    ((s.push next).pop).get? = s.get? := by
  simp [push, pop, get?]

/-- Restoring gives back the saved values. -/
theorem saved_pop_push (s : Scoped α) (next : Option α) :
    ((s.push next).pop).saved = some (s.saved.getD []) := by
  simp [push, pop]

end Scoped

/-- The value of a list option: everything, or the listed names. -/
inductive Selection where
  /-- No names were given, which selects everything. -/
  | all
  /-- The names, in the order given. -/
  | names (items : List String)
  deriving DecidableEq, Repr

namespace Selection

/-- Nothing is selected. -/
def isEmpty : Selection → Bool
  | .all => false
  | .names items => items.isEmpty

end Selection

/-- The current module, the current class and the modules in use. -/
structure Context where
  /-- The current module. -/
  moduleName : Scoped String
  /-- The current class, as a path below the current module. -/
  className : Scoped String
  /-- The modules whose members can be named without their module. -/
  usedModules : Scoped Selection
  deriving DecidableEq, Repr

namespace Context

/-- No module, no class, and nothing saved. -/
def empty : Context := ⟨.empty, .empty, .empty⟩

/-- The text unless it is missing or empty. -/
def nonEmpty (s : Option String) : Option String := s.filter fun s => !s.isEmpty

/-- Saves the context and sets a new one; an empty name or list stands for none. -/
def push (c : Context) (moduleName className : Option String) (used : Option Selection) :
    Context :=
  ⟨c.moduleName.push (nonEmpty moduleName), c.className.push (nonEmpty className),
    c.usedModules.push (used.filter fun s => !s.isEmpty)⟩

/-- Restores the context saved last. -/
def pop (c : Context) : Context := ⟨c.moduleName.pop, c.className.pop, c.usedModules.pop⟩

/-- The module, class and modules in use, without what is saved. -/
def current (c : Context) : Option String × Option String × Option Selection :=
  (c.moduleName.get?, c.className.get?, c.usedModules.get?)

end Context

end LuaDocs
