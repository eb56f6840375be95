import LuaDocs.Proofs.Auto.Signatures
import LuaDocs.Proofs.Object.Comparable
import LuaDocs.Proofs.Object.Find
import LuaDocs.Proofs.Text.Split

/-!
# What a directive finds

Outside of classes a directive reads its argument and looks the name up twice: in the module that it
is told, which its options or the context say, and then as it is. Where it is told no module it
finds an object under its own name exactly if reading gives the name back. Otherwise there must also
be no object of this name in the module. Names that are made of addresses are read back.
-/

namespace LuaDocs

open Text

namespace Index

open Context

/-- A name below a module, or alone. -/
theorem joinGiven_pair (m : Option String) (name : String) :
    joinGiven [m, some name] = match nonEmpty m with
      | none => name
      | some M => if name = "" then M else M ++ "." ++ name := by
  have hname :
      joinStrings '.' (([some name] : List (Option String)).filterMap nonEmpty) = name := by
    by_cases hempty : name = ""
    · rw [hempty]
      rfl
    · rw [List.filterMap_cons_some (nonEmpty_some hempty), List.filterMap_nil,
        joinStrings_singleton]
  rw [joinGiven_eq]
  cases hm : nonEmpty m with
  | none => rw [List.filterMap_cons_none hm, hname]
  | some M =>
    rw [List.filterMap_cons_some hm]
    by_cases hempty : name = ""
    · subst hempty
      rw [List.filterMap_cons_none rfl, List.filterMap_nil, joinStrings_singleton]
      rfl
    · rw [List.filterMap_cons_some (nonEmpty_some hempty), List.filterMap_nil]
      simp [joinStrings, joinWith, List.intercalate, hempty, String.append_assoc]

theorem joinGiven_pair_ne {m : Option String} {M : String} (hm : nonEmpty m = some M)
    (name : String) : joinGiven [m, some name] ≠ name := by
  rw [joinGiven_pair, hm]
  dsimp only
  split
  · next hempty =>
    rw [hempty]
    exact ne_empty_of_nonEmpty hm
  · intro heq
    have hlength := congrArg String.length heq
    simp only [String.length_append] at hlength
    have hdot : ".".length = 1 := rfl
    omega

end Index

namespace Auto

variable {site : Site} {tree : Object} {c : Context} {options : Options} {name : String}

/-- The module in which a directive looks first: that of its options, or else the current one. -/
def scope (options : Options) (c : Context) : Option String :=
  Context.nonEmpty (match options.get? "module" with
    | some v => v.text?
    | none => c.moduleName.get?)

/-- Outside of classes a name is looked up in the module and then as it is. -/
theorem candidates_eq (hclass : Context.nonEmpty c.className.get? = none) :
    candidates options c name =
      [Index.joinGiven [scope options c, some name], Index.joinGiven [scope options c, some name],
        name] := by
  have hthree : ∀ m k : Option String, Context.nonEmpty k = none →
      Index.joinGiven [m, k, some name] = Index.joinGiven [Context.nonEmpty m, some name] := by
    intro m k hk
    rw [Index.joinGiven_eq, Index.joinGiven_eq]
    simp only [List.filterMap_cons, hk, Context.nonEmpty_nonEmpty]
  have htwo : ∀ m : Option String,
      Index.joinGiven [m, some name] = Index.joinGiven [Context.nonEmpty m, some name] := by
    intro m
    rw [Index.joinGiven_pair, Index.joinGiven_pair, Context.nonEmpty_nonEmpty]
  unfold candidates scope
  cases options.get? "module" with
  | some v =>
    dsimp only
    rw [hthree _ none rfl, htwo v.text?]
  | none =>
    dsimp only
    rw [hthree _ _ hclass, htwo c.moduleName.get?]

/-- The directive finds the object at the path. -/
def Finds (site : Site) (c : Context) (options : Options) (argument : String)
    (path : List String) (o : Object) : Prop :=
  ∃ target signatures, resolve site c options argument = .ok (target, signatures) ∧
    target.member.path = path ∧ target.member.object = o

/-- What a directive reads is its argument. -/
def ReadsBack (site : Site) (argument : String) : Prop :=
  ∃ afters, readNames none (Description.signatureLines site argument) = .ok (some argument, afters)

/-- What is found at a path. -/
def targetAt (tree : Object) (path : String) : Option Target :=
  (tree.locate path).object.map fun o =>
    ⟨tree.locate path, ⟨(tree.locate path).name, splitString '.' path, o⟩⟩

theorem targetAt_eq_none_iff {tree : Object} {path : String} :
    targetAt tree path = none ↔ tree.find? path = none := by
  rw [targetAt, Option.map_eq_none_iff, Object.object_locate, Object.find?]

theorem of_targetAt {tree : Object} {path : String} {target : Target}
    (h : targetAt tree path = some target) :
    target.member.path = splitString '.' path ∧ tree.find? path = some target.member.object := by
  obtain ⟨o, ho, rfl⟩ := Option.map_eq_some_iff.1 h
  rw [Object.object_locate] at ho
  exact ⟨rfl, ho⟩

/-- Of a path that is tried twice and another one, the first counts. -/
theorem find?_three (tree : Object) (q p : String) :
    find? tree [q, q, p] = (targetAt tree q).or (targetAt tree p) := by
  have hfind : find? tree [q, q, p] = [q, q, p].findSome? (targetAt tree) := rfl
  rw [hfind]
  cases hq : targetAt tree q with
  | none => cases hp : targetAt tree p <;> simp [hq, hp]
  | some target => simp [hq]

/-- A directive that stands outside of classes in a document about the tree, on a site whose
defaults set no module. -/
structure AtTop (tree : Object) (site : Site) (c : Context) : Prop where
  tree : site.tree = tree
  defaults : ∀ d, ("module", d) ∉ site.defaults
  outside : Context.nonEmpty c.className.get? = none

/-- What a directive has read and found. -/
theorem resolve_ok_iff (htop : AtTop tree site c) {argument : String} {target : Target} :
    (∃ signatures, resolve site c options argument = .ok (target, signatures)) ↔
      ∃ own afters,
        readNames none (Description.signatureLines site argument) = .ok (some own, afters) ∧
        (targetAt tree (Index.joinGiven [scope options c, some own])).or (targetAt tree own) =
          some target := by
  obtain ⟨rfl, hdefaults, hclass⟩ := htop
  have hscope : scope (options.withDefaults site.defaults) c = scope options c := by
    unfold scope
    rw [(get?_withDefaults options site.defaults "module").resolve_right]
    rintro ⟨d, hd, -⟩
    exact hdefaults d hd
  constructor
  · rintro ⟨signatures, h⟩
    unfold resolve at h
    obtain ⟨⟨own?, afters⟩, hread, h⟩ := Except.ok_of_bind h
    cases own? with
    | none => cases h
    | some own =>
      refine ⟨own, afters, hread, ?_⟩
      dsimp only at h
      rw [candidates_eq hclass, hscope, find?_three] at h
      split at h
      · cases h
      · next found hfound =>
        rw [hfound, (Prod.mk.inj (Except.ok.inj h)).1]
  · rintro ⟨own, afters, hread, hfound⟩
    unfold resolve
    rw [Except.bind_of_ok hread]
    dsimp only
    rw [candidates_eq hclass, hscope, find?_three, hfound]
    exact ⟨_, rfl⟩

section Finding

variable {o : Object} (htop : AtTop tree site c)
  (hat : tree.at? (splitString '.' name) = some o)

include htop hat

/-- A directive that reads a name back and finds nothing else first finds the object of the name. -/
theorem finds_of_readsBack (hreads : ReadsBack site name)
    (hfirst : (targetAt tree (Index.joinGiven [scope options c, some name])).or
      (targetAt tree name) = targetAt tree name) :
    Finds site c options name (splitString '.' name) o := by
  obtain ⟨afters, hread⟩ := hreads
  have htarget : targetAt tree name ≠ none := by
    rw [Ne, targetAt_eq_none_iff, Object.find?, hat]
    exact Option.some_ne_none o
  obtain ⟨target, htarget⟩ := Option.ne_none_iff_exists'.1 htarget
  obtain ⟨signatures, hresolve⟩ := (resolve_ok_iff htop).2
    ⟨name, afters, hread, hfirst.trans htarget⟩
  obtain ⟨hpath, hobject⟩ := of_targetAt htarget
  exact ⟨target, signatures, hresolve, hpath, Option.some.inj (hobject.symm.trans hat)⟩

/-- **A directive that is told no module finds an object under its name exactly if it reads the name
back.** -/
theorem finds_iff_readsBack (hscope : scope options c = none) :
    Finds site c options name (splitString '.' name) o ↔ ReadsBack site name := by
  have hsame : ∀ own, Index.joinGiven [scope options c, some own] = own := fun own => by
    rw [hscope, Index.joinGiven_pair]
    rfl
  constructor
  · rintro ⟨target, signatures, hresolve, hpath, -⟩
    obtain ⟨own, afters, hread, hfound⟩ := (resolve_ok_iff htop).1 ⟨_, hresolve⟩
    rw [hsame, Option.or_self] at hfound
    have hown : own = name := splitString_injective ((of_targetAt hfound).1.symm.trans hpath)
    exact ⟨afters, hown ▸ hread⟩
  · intro hreads
    refine finds_of_readsBack htop hat hreads ?_
    rw [hsame, Option.or_self]

/-- **A directive that reads a name back finds the object of this name exactly if there is none of
this name in the module that it is told.** -/
theorem finds_iff_of_readsBack (hreads : ReadsBack site name) :
    Finds site c options name (splitString '.' name) o ↔
      ∀ m, scope options c = some m →
        tree.find? (Index.joinGiven [some m, some name]) = none := by
  cases hscope : scope options c with
  | none =>
    rw [finds_iff_readsBack htop hat hscope]
    exact ⟨fun _ _ hm => (Option.some_ne_none _ hm.symm).elim, fun _ => hreads⟩
  | some m =>
    constructor
    · rintro ⟨target, signatures, hresolve, hpath, -⟩ m' hm
      obtain ⟨afters, hread⟩ := hreads
      obtain ⟨own, afters', hread', hfound⟩ := (resolve_ok_iff htop).1 ⟨_, hresolve⟩
      obtain rfl : name = own :=
        Option.some.inj (Prod.mk.inj (Except.ok.inj (hread.symm.trans hread'))).1
      rw [← Option.some.inj hm, ← targetAt_eq_none_iff]
      rw [hscope] at hfound
      cases hq : targetAt tree (Index.joinGiven [some m, some name]) with
      | none => rfl
      | some found =>
        rw [hq, Option.some_or, Option.some.injEq] at hfound
        rw [← hfound] at hpath
        have hsame := splitString_injective ((of_targetAt hq).1.symm.trans hpath)
        have hgiven : Context.nonEmpty (some m) = some m := by
          rw [← hscope]
          exact Context.nonEmpty_nonEmpty _
        exact absurd hsame (Index.joinGiven_pair_ne hgiven name)
    · intro hnone
      refine finds_of_readsBack htop hat hreads ?_
      rw [hscope, targetAt_eq_none_iff.2 (hnone m rfl), Option.none_or]

end Finding

end Auto

/-! ### Names that are read back -/

namespace Description

theorem joinLines_of_notMem {s : List Char} (h : '\\' ∉ s) : joinLines s = s := by
  induction s with
  | nil => rfl
  | cons c s ih =>
    rw [List.mem_cons, not_or] at h
    unfold joinLines
    split
    · next heq => exact absurd (List.cons.inj heq).1.symm h.1
    · next heq =>
      obtain ⟨rfl, rfl⟩ := List.cons.inj heq
      rw [ih h.2]
    · next heq => cases heq

theorem dropBackslashes_of_notMem {s : List Char} (h : '\\' ∉ s) :
    dropBackslashes s = s := by
  induction s with
  | nil => rfl
  | cons c s ih =>
    rw [List.mem_cons, not_or] at h
    unfold dropBackslashes
    split
    · next heq => exact absurd (List.cons.inj heq).1.symm h.1
    · next heq =>
      obtain ⟨rfl, rfl⟩ := List.cons.inj heq
      rw [ih h.2]
    · next heq => cases heq

end Description

namespace Name

/-- The name is a component in normal form that is neither cut at a dot nor changed when the
argument of a directive is read. -/
structure IsAddress (name : String) : Prop where
  component : IsComponent name.toList
  undotted : '.' ∉ name.toList
  unescaped : '\\' ∉ name.toList
  oneLine : '\n' ∉ name.toList

theorem isAddress_of_isPlain {name : String} (h : isPlain name = true) : IsAddress name := by
  have hchars := isNameChar_of_isPlain h
  have hnot : ∀ c, isNameChar c = false → c ∉ name.toList := by
    intro c hc hmem
    rw [hchars c hmem] at hc
    cases hc
  exact ⟨isComponent_of_isPlain h, hnot _ (by decide +kernel), hnot _ (by decide +kernel),
    hnot _ (by decide +kernel)⟩

theorem isNormal_of_isAddress {name : String} (h : ∀ n ∈ splitString '.' name, IsAddress n) :
    IsNormal name := by
  rw [← joinStrings_splitString '.' name]
  exact isNormal_joinStrings (Object.splitString_ne_nil _ _) fun n hn =>
    isNormal_of_isComponent (h n hn).component

end Name

/-- A directive reads names back that are made of addresses. -/
theorem Auto.readsBack_of_isAddress (site : Site) {name : String}
    (h : ∀ n ∈ splitString '.' name, Name.IsAddress n) : ReadsBack site name := by
  have hname : joinStrings '.' (splitString '.' name) = name := joinStrings_splitString '.' name
  have hnormal := Name.isNormal_of_isAddress h
  have hescape : '\\' ∉ name.toList := by
    rw [← hname]
    exact notMem_joinStrings (by decide) fun n hn => (h n hn).unescaped
  have hline : '\n' ∉ name.toList := by
    rw [← hname]
    exact notMem_joinStrings (by decide) fun n hn => (h n hn).oneLine
  have htrim : trim name.toList = name.toList :=
    trim_of_ends hnormal.ends.1 fun c hc => (hnormal.ends.2 c hc).1
  have hlines : Description.signatureLines site name = [name] := by
    rw [Description.signatureLines, Description.joinLines_of_notMem hescape, lines,
      splitAt_of_notMem hline, List.map_singleton, htrim,
      Description.dropBackslashes_of_notMem hescape, ite_self, String.ofList_toList]
  refine ⟨[""], ?_⟩
  rw [hlines, readNames, Name.readName_of_isNormal hnormal]
  rfl

end LuaDocs
