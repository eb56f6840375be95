import LuaDocs.Proofs.Description.Opening
import LuaDocs.Proofs.Name.Dotted

/-!
# Names do not depend on how a value is missing

The names of an object and the context of its body are made from the module and the class in the
context. A module that was never set and one that was restored to nothing give namings that differ,
but their full names and the contexts that they open do not: empty names are left out of both.
-/

namespace LuaDocs

open Text

namespace Context

theorem nonEmpty_getOr (s : Slot String) : nonEmpty (s.getOr "") = nonEmpty s.get? := by
  cases s <;> rfl

end Context

/-- The module and the class that an object belongs to: those of the option, or else those of the
context. -/
def Naming.home (options : Options) (c : Context) : Option String × Option String :=
  match options.get? "module" with
  | some v => (Context.nonEmpty (some (v.text?.getD "")), none)
  | none => (Context.nonEmpty c.moduleName.get?, Context.nonEmpty c.className.get?)

namespace Naming

variable (options : Options) (c : Context) (name : String)

theorem nonEmpty_moduleName : Context.nonEmpty (ofName options c name).moduleName =
    (home options c).1 := by
  unfold ofName home
  cases options.get? "module" with
  | some v => rfl
  | none => exact Context.nonEmpty_getOr _

theorem nonEmpty_className : Context.nonEmpty (ofName options c name).className =
    (home options c).2 := by
  unfold ofName home
  cases options.get? "module" with
  | some v => rfl
  | none => exact Context.nonEmpty_getOr _

/-- The full name of an object is its name below the class and the module that it belongs to. -/
theorem fullname_ofName : (ofName options c name).fullname =
    Index.joinGiven [(home options c).1, (home options c).2, some name] := by
  have hm := nonEmpty_moduleName options c name
  have hk := nonEmpty_className options c name
  have hfull : (ofName options c name).fullname =
      Index.joinGiven [(ofName options c name).moduleName, (ofName options c name).className,
        some name] := by
    unfold ofName
    cases options.get? "module" <;> rfl
  rw [hfull, Index.joinGiven_eq, Index.joinGiven_eq, ← hm, ← hk]
  simp only [List.filterMap_cons, Context.nonEmpty_nonEmpty, List.filterMap_nil]

@[simp] theorem home_settle : home options c.settle = home options c := by
  unfold home
  rw [Context.get?_moduleName_settle, Context.get?_className_settle]

/-- The full name in a settled context. -/
theorem fullname_settle :
    (ofName options c.settle name).fullname = (ofName options c name).fullname := by
  rw [fullname_ofName, fullname_ofName, home_settle]

end Naming

namespace Description

/-- The module and the class in the body of an object that belongs to a module and a class. -/
def insideHome (t : ObjType) (home : Option String × Option String) (name : String) :
    Option String × Option String :=
  if t == .module_ && home.2.isNone then (some (below home.1 name), none)
  else (home.1, some (below home.2 name))

theorem below_nonEmpty (outer : Option String) (name : String) :
    below (Context.nonEmpty outer) name = below outer name := by
  unfold below
  rw [Context.nonEmpty_nonEmpty]

theorem below_eq {name : String} (hname : name ≠ "") (outer : Option String) :
    below outer name = Index.joinGiven [outer, some name] := by
  unfold below
  rw [Index.joinGiven_eq]
  simp only [List.filterMap_cons, Context.nonEmpty_some hname, List.filterMap_nil]
  cases Context.nonEmpty outer with
  | none => simp
  | some m => simp [joinStrings, joinWith, List.intercalate, String.append_assoc]

/-- The context of a body is that of the module and the class that the object belongs to. -/
theorem push_inside (t : ObjType) (options : Options) (c : Context) (name : String)
    (u : Option Selection) :
    c.push (inside t (.ofName options c name)).1 (inside t (.ofName options c name)).2 u =
      c.push (insideHome t (Naming.home options c) name).1
        (insideHome t (Naming.home options c) name).2 u := by
  have hm := Naming.nonEmpty_moduleName options c name
  have hk := Naming.nonEmpty_className options c name
  have hnone : ((Naming.ofName options c name).className.getD "").isEmpty =
      (Naming.home options c).2.isNone := by
    rw [Bool.eq_iff_iff, ← Context.nonEmpty_eq_none_iff, hk, Option.isNone_iff_eq_none]
  have hname := naming_name options c name
  unfold inside insideHome
  rw [hnone]
  split
  · next h =>
    have hk' : Context.nonEmpty (Naming.ofName options c name).className = none := by
      simp only [Bool.and_eq_true, Option.isNone_iff_eq_none] at h
      rw [hk, h.2]
    simp only [Context.push, hname, hk', ← hm, below_nonEmpty]
    rfl
  · simp only [Context.push, hname, ← hm, ← hk, below_nonEmpty, Context.nonEmpty_nonEmpty]

variable (d : Description) (c : Context)

theorem bodyContext_eq : d.bodyContext c =
    match d.names.getLast? with
    | some name =>
      if d.objtype.family.nests then
        c.push (insideHome d.objtype (Naming.home d.options c) name).1
          (insideHome d.objtype (Naming.home d.options c) name).2 (d.options.usedModules c)
      else c
    | none => c := by
  rw [bodyContext, namings, List.getLast?_map]
  cases d.names.getLast? with
  | none => rfl
  | some name => simp only [Option.map_some, push_inside]

theorem usedModules_settle (options : Options) :
    options.usedModules c.settle = options.usedModules c := by
  unfold Options.usedModules
  rw [Context.get?_usedModules_settle]

/-- The context of a body in a settled context. -/
theorem bodyContext_settle :
    (d.bodyContext c.settle).settle = (d.bodyContext c).settle := by
  rw [bodyContext_eq, bodyContext_eq, Naming.home_settle, usedModules_settle]
  split
  · split
    · rw [Context.push_settle]
    · rw [Context.settle_settle]
  · rw [Context.settle_settle]

/-- Two descriptions have the same type, options and signatures. -/
structure Alike (d e : Description) : Prop where
  objtype : d.objtype = e.objtype
  options : d.options = e.options
  signatures : d.signatures = e.signatures

namespace Alike

variable {d e : Description}

theorem renamed (h : d.Alike e) : d.renamed.Alike e.renamed :=
  ⟨h.objtype, congrArg Options.withCurrentNames h.options, h.signatures⟩

theorem namings_eq (h : d.Alike e) (c : Context) : d.namings c = e.namings c := by
  rw [namings, namings, names, names, h.options, h.signatures]

theorem bodyContext_eq (h : d.Alike e) (c : Context) : d.bodyContext c = e.bodyContext c := by
  rw [bodyContext, bodyContext, h.namings_eq, h.objtype, h.options]

end Alike

/-- The full names of what a description enters in a settled context. -/
theorem fullnames_settle :
    (d.namings c.settle).map Naming.fullname = (d.namings c).map Naming.fullname := by
  rw [namings, namings, List.map_map, List.map_map]
  refine List.map_congr_left fun name _ => ?_
  exact Naming.fullname_settle d.options c name

end Description

end LuaDocs
