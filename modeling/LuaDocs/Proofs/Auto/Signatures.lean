import LuaDocs.Proofs.Auto.Scene
import LuaDocs.Proofs.Auto.Settings
import LuaDocs.Proofs.Name.Components
import LuaDocs.Proofs.Object.Find

/-!
# The name that signatures give

The signatures of an object of the tree are made from what is known of it, or given by the directive
that names it. All of them give the name of the object. Those that are made can be read, at least
one of them; those that a directive gives may all be misspelt.
-/

namespace LuaDocs.Auto

open Description

/-- All signatures that can be read give the name. -/
def Gives (name : String) (sigs : List MadeSignature) : Prop :=
  ∀ sig ∈ sigs, ∀ r, sig.2 = .ok r → r.1 = name

/-- One of the signatures can be read. -/
def SomeRead (sigs : List MadeSignature) : Prop := ∃ sig ∈ sigs, ∃ r, sig.2 = .ok r

variable {name : String}

theorem gives_singleton (line : String) (subject : Subject) :
    Gives name [(line, .ok (name, subject))] := by
  intro sig hsig r hr
  obtain rfl := List.mem_singleton.1 hsig
  exact congrArg Prod.fst (Except.ok.inj hr).symm

theorem someRead_cons {line : String} {r : String × Subject} (sigs : List MadeSignature) :
    SomeRead ((line, .ok r) :: sigs) :=
  ⟨_, List.mem_cons_self, r, rfl⟩

theorem fst_of_readOverload {sig : String} {subject : Signature.Call → Subject}
    {r : String × Subject} (h : readOverload name sig subject = .ok r) : r.1 = name := by
  obtain ⟨p, -, rfl⟩ := Except.ok_of_map h
  rfl

/-! ### Signatures that are made -/

theorem gives_functionSignatures (name : String) (c : Callable) :
    Gives name (functionSignatures name c) := by
  intro sig hsig r hr
  obtain ⟨line, -, rfl⟩ := List.mem_map.1 hsig
  dsimp only at hr
  split at hr
  · exact congrArg Prod.fst (Except.ok.inj hr).symm
  · exact fst_of_readOverload hr

theorem someRead_functionSignatures (name : String) (c : Callable) :
    SomeRead (functionSignatures name c) := by
  refine ⟨_, List.mem_map_of_mem List.mem_cons_self, (name, .function (callOf c)), ?_⟩
  simp

theorem gives_constructorSignatures (name : String) (maker : Option Object.Constructor) :
    Gives name (constructorSignatures name maker) := by
  intro sig hsig r hr
  cases maker with
  | none => exact gives_singleton _ _ sig hsig r hr
  | some c =>
    rcases List.mem_cons.1 hsig with rfl | hsig
    · exact congrArg Prod.fst (Except.ok.inj hr).symm
    · obtain ⟨i, hi, rfl⟩ := List.mem_mapIdx.1 hsig
      dsimp only at hr
      exact fst_of_readOverload hr

theorem someRead_constructorSignatures (name : String) (maker : Option Object.Constructor) :
    SomeRead (constructorSignatures name maker) := by
  cases maker <;> exact someRead_cons _

theorem gives_classSignatures (options : Options) (name : String) (info : Object.ClassInfo)
    (maker : Option Object.Constructor) : Gives name (classSignatures options name info maker) := by
  unfold classSignatures
  dsimp only
  split
  · exact gives_singleton _ _
  · intro sig hsig r hr
    rcases List.mem_append.1 hsig with hsig | hsig
    · split at hsig
      · exact gives_singleton _ _ sig hsig r hr
      · cases hsig
    · split at hsig
      · exact gives_constructorSignatures name maker sig hsig r hr
      · cases hsig

/-- A class shows its bases or its constructor, whichever of the words is given. -/
theorem someRead_classSignatures {options : Options} (h : Worded options) (name : String)
    (info : Object.ClassInfo) (maker : Option Object.Constructor) :
    SomeRead (classSignatures options name info maker) := by
  unfold classSignatures
  dsimp only
  split
  · exact someRead_cons _
  · have hshown : (options.text? "class-signature").getD "both" ∈ classParts := by
      cases hw : options.text? "class-signature" with
      | none => decide
      | some w => exact h w hw
    have hmaker : SomeRead (constructorSignatures name maker) :=
      someRead_constructorSignatures name maker
    generalize (options.text? "class-signature").getD "both" = shown at hshown
    simp only [classParts, List.mem_cons, List.not_mem_nil, or_false] at hshown
    rcases hshown with rfl | rfl | rfl | rfl
    · exact someRead_cons _
    · exact someRead_cons _
    · exact hmaker
    · by_cases hshort : (!info.bases.isEmpty || maker.isNone) = true
      · simp only [hshort]
        exact someRead_cons _
      · simp only [Bool.or_eq_true, not_or, Bool.not_eq_true] at hshort
        have hsome : maker.isSome = true := by
          rw [← Option.not_isNone, hshort.2]
          rfl
        simp only [hshort.1, hshort.2, hsome]
        exact hmaker

/-! ### Signatures that a directive gives -/

/-- The signatures that a directive gives start with the name of the object. -/
def Request.Spelt (r : Request) : Prop :=
  ∀ sigs, r.signatures = some sigs → ∀ sig ∈ sigs,
    ∃ after, Signature.readName sig = .ok (r.member.name, after)

theorem Request.spelt_of_made {r : Request} (h : r.signatures = none) : r.Spelt := by
  intro sigs hsigs
  rw [h] at hsigs
  cases hsigs

theorem gives_chosenSignatures {r : Request} (hname : Name.IsComponent r.member.name.toList)
    (hspelt : r.Spelt) (t : ObjType) {made : List MadeSignature} (h : Gives r.member.name made) :
    Gives r.member.name (chosenSignatures r t made) := by
  unfold chosenSignatures
  split
  · next sigs hsigs =>
    intro sig hsig p hp
    obtain ⟨line, hline, rfl⟩ := List.mem_map.1 hsig
    obtain ⟨after, hafter⟩ := hspelt sigs hsigs line hline
    have hown : Signature.readName r.member.name = .ok (r.member.name, "") :=
      Name.readName_of_isNormal (Name.isNormal_of_isComponent hname)
    exact Family.fst_of_read hafter hown hp
  · exact h

theorem chosenSignatures_of_made {r : Request} (h : r.signatures = none) (t : ObjType)
    (made : List MadeSignature) : chosenSignatures r t made = made := by
  rw [chosenSignatures, h]

/-- What stands after the names in signatures was read from them. -/
theorem exists_readName {given name : Option String} {lines afters : List String}
    (h : readNames given lines = .ok (name, afters)) {after : String} (hafter : after ∈ afters) :
    ∃ sig own, Signature.readName sig = .ok (own, after) := by
  induction lines generalizing given afters with
  | nil =>
    cases h
    cases hafter
  | cons sig rest ih =>
    rw [readNames] at h
    split at h
    · cases h
    · next own first hsig =>
      split at h
      · cases h
      · obtain ⟨⟨name', rest'⟩, hrest, heq⟩ := Except.ok_of_map h
        obtain ⟨rfl, rfl⟩ := Prod.mk.inj heq
        rcases List.mem_cons.1 hafter with rfl | hafter
        · exact ⟨sig, own, hsig⟩
        · exact ih hrest hafter

/-- The object that a directive names is in the tree, in the module and the class that were found,
and each signature that the directive gives is the name of the object with what stands after the
name in the argument. -/
theorem target_of_resolve {site : Site} {c : Context} {options : Options} {argument : String}
    {target : Target} {signatures : Option (List String)}
    (h : resolve site c options argument = .ok (target, signatures)) :
    (target.member.path, target.member.object) ∈ site.tree.entries ∧
    (∃ m k, target.member.path = m ++ k ++ [target.member.name] ∧
      target.location.moduleName = Text.joinStrings '.' m ∧
      target.location.className = Text.joinStrings '.' k) ∧
    ∀ sigs, signatures = some sigs → ∀ sig ∈ sigs, ∃ line own after,
      Signature.readName line = .ok (own, after) ∧ sig = target.member.name ++ after := by
  unfold resolve at h
  obtain ⟨⟨name?, afters⟩, hread, h⟩ := Except.ok_of_bind h
  cases name? with
  | none => cases h
  | some name =>
    dsimp only at h
    split at h
    · cases h
    · next found hfound =>
      obtain ⟨rfl, rfl⟩ := Prod.mk.inj (Except.ok.inj h)
      obtain ⟨path, -, hpath⟩ := List.exists_of_findSome?_eq_some hfound
      obtain ⟨o, ho, rfl⟩ := Option.map_eq_some_iff.1 hpath
      obtain ⟨hat, m, k, hm, hk, hsplit⟩ := Object.path_of_locate ho
      refine ⟨Object.mem_entries_of_at? (by rw [hsplit]; simp) hat, ⟨m, k, hsplit, hm, hk⟩, ?_⟩
      intro sigs hsigs sig hsig
      split at hsigs
      · cases hsigs
      · cases hsigs
        obtain ⟨after, hafter, rfl⟩ := List.mem_map.1 hsig
        obtain ⟨line, own, hline⟩ := exists_readName hread hafter
        exact ⟨line, own, after, hline, rfl⟩

namespace Scene

variable {site : Site} {a : Scene} {kind : Kind} {options : Options}

/-- A signature of the object can be read. -/
def Legible (site : Site) (a : Scene) : Prop :=
  ∀ kind options, a.Admitted kind options → SomeRead (a.description site kind options).signatures

theorem placed_classOptions {m : Option OptionValue} (h : Placed m options)
    (hd : Modest site.defaults) (r : Request) (info : Object.ClassInfo) :
    Placed m (classOptions site r info options) := by
  unfold classOptions
  dsimp only
  split
  · exact (h.withDefaults hd).set (by decide) _
  · exact h.withDefaults hd

/-- The options of a description: those of the object with the defaults. -/
theorem placed_description {m : Option OptionValue} (h : Placed m options)
    (hd : Modest site.defaults) (a : Scene) (kind : Kind) :
    Placed m (a.description site kind options).options := by
  refine Placed.withCurrentNames ?_
  unfold describe
  split
  · exact h.withDefaults hd
  · exact placed_classOptions h hd _ _
  · exact h.withDefaults hd

/-- The signatures of a description are chosen before some that are made. -/
theorem exists_made (site : Site) (a : Scene) (kind : Kind) (options : Options) :
    ∃ t made, (a.description site kind options).signatures = chosenSignatures a.request t made ∧
      Gives a.member.name made ∧
      ∀ m, Placed m options → Modest site.defaults → SomeRead made := by
  unfold description describe
  split
  · exact ⟨_, _, rfl, gives_functionSignatures _ _,
      fun _ _ _ => someRead_functionSignatures _ _⟩
  · exact ⟨_, _, rfl, gives_classSignatures _ _ _ _,
      fun _ h hd => someRead_classSignatures (placed_classOptions h hd _ _).worded _ _ _⟩
  · refine ⟨_, _, rfl, ?_, fun _ _ _ => ?_⟩
    · split <;> exact gives_singleton _ _
    · split <;> exact someRead_cons _

/-- The signatures of a description give the name of the object. -/
theorem gives_signatures (hname : Name.IsComponent a.member.name.toList)
    (hspelt : a.request.Spelt) (kind : Kind) (options : Options) :
    Gives a.member.name (a.description site kind options).signatures := by
  obtain ⟨t, made, hsigs, hgives, -⟩ := exists_made site a kind options
  rw [hsigs]
  exact gives_chosenSignatures hname hspelt t hgives

/-- Signatures that are made can be read. -/
theorem someRead_of_made {m : Option OptionValue} (hmade : a.request.signatures = none)
    (h : Placed m options) (hd : Modest site.defaults) (kind : Kind) :
    SomeRead (a.description site kind options).signatures := by
  obtain ⟨t, made, hsigs, -, hread⟩ := exists_made site a kind options
  rw [hsigs, chosenSignatures_of_made hmade]
  exact hread m h hd

end Scene

end LuaDocs.Auto
