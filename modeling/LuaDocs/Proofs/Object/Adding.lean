import LuaDocs.Analyzer
import LuaDocs.Proofs.Object.Heads

/-!
# What adding objects collects

Some of what an object says of itself is only ever collected: the files that define it, and its
flags. A merged object has a file or a flag exactly if one of its definitions has it, whichever of
them leads. So the paths, files and flags of a tree are those of the objects that were added to it,
and it makes no difference in which order these came.
-/

namespace LuaDocs

open Text

namespace Object

theorem mem_union {a b : List Path} {f : Path} : f ∈ union a b ↔ f ∈ a ∨ f ∈ b := by
  unfold union
  induction b generalizing a with
  | nil => simp
  | cons p b ih =>
    rw [List.foldl_cons, ih]
    split
    · next hp =>
      rw [List.contains_iff_mem] at hp
      simp only [List.mem_cons]
      refine ⟨Or.imp_right .inr, ?_⟩
      rintro (h | rfl | h)
      · exact .inl h
      · exact .inl hp
      · exact .inr h
    · simp [or_assoc]

/-- Merged details have the property exactly if one of the two has it, and so has an object that is
noted as a global. An unknown object has it only if every object has it. -/
structure Collected (φ : Details → Prop) : Prop where
  absorb : ∀ lead other : Details, φ (lead.absorb other) ↔ φ lead ∨ φ other
  toplevel : ∀ d : Details, φ { d with toplevel := true } ↔ φ d
  unknown : ∀ cleanup d, φ (.unknown cleanup) → φ d

theorem collected_true : Collected fun _ => True := ⟨by simp, by simp, by simp⟩

theorem collected_file (f : Path) : Collected fun d => f ∈ d.files where
  absorb _ _ := mem_union
  toplevel _ := Iff.rfl
  unknown _ _ h := by cases h

theorem collected_deprecated : Collected fun d => d.deprecated = true where
  absorb lead other := by simp [Details.absorb]
  toplevel _ := Iff.rfl
  unknown _ _ h := by cases h

theorem collected_noDiscard : Collected fun d => d.noDiscard = true where
  absorb lead other := by simp [Details.absorb]
  toplevel _ := Iff.rfl
  unknown _ _ h := by cases h

theorem collected_async : Collected fun d => d.async = true where
  absorb lead other := by simp [Details.absorb]
  toplevel _ := Iff.rfl
  unknown _ _ h := by cases h

/-- There is an object whose details have the property. -/
def Shown (φ : Details → Prop) (h : Option Head) : Prop := ∃ x, h = some x ∧ φ x.details

variable {φ : Details → Prop} {a b c : Option Head}

@[simp] theorem shown_none : ¬ Shown φ none := by
  rintro ⟨_, h, -⟩
  cases h

@[simp] theorem shown_some {x : Head} : Shown φ (some x) ↔ φ x.details := by
  simp [Shown]

theorem shown_headAt? {o : Object} {path : List String} :
    Shown φ (o.headAt? path) ↔ ∃ x, o.at? path = some x ∧ φ x.details := by
  rw [headAt?]
  cases o.at? path <;> simp [head]

theorem shown_true {h : Option Head} : Shown (fun _ => True) h ↔ h.isSome = true := by
  cases h <;> simp

theorem Meets.shown_iff (hφ : Collected φ) (h : Meets a b c) :
    Shown φ c ↔ Shown φ a ∨ Shown φ b := by
  cases a with
  | none => simp_all
  | some x =>
    cases b with
    | none => simp_all
    | some y =>
      obtain ⟨z, rfl, ⟨-, rfl⟩ | ⟨-, rfl⟩⟩ := h
      · simp [Head.absorb, hφ.absorb]
      · simp [Head.absorb, hφ.absorb, or_comm]

theorem shown_noted (hφ : Collected φ) (parts : List String) (o : Object) (rest : List String) :
    Shown φ ((noted parts o).headAt? rest) ↔ Shown φ (o.headAt? rest) := by
  unfold noted
  split
  · cases rest with
    | nil => simp [head, hφ.toplevel]
    | cons name rest => rw [headAt?_cons, headAt?_cons]; rfl
  · rfl

/-- **What an added object contributes** to a tree: what is in it, below its path, and the objects
that were missing above it. -/
theorem shown_insert {root added merged : Object} {cleanup : Bool} {dotted : String}
    {path : List String} (hφ : Collected φ) (h : root.insert cleanup dotted added = .ok merged)
    (hpath : path ≠ []) :
    Shown φ (merged.headAt? path) ↔ Shown φ (root.headAt? path) ∨
      (path <+: splitString '.' dotted ∧ φ (.unknown cleanup)) ∨
      ∃ rest, path = splitString '.' dotted ++ rest ∧ Shown φ (added.headAt? rest) := by
  by_cases hbelow : splitString '.' dotted <+: path
  · obtain ⟨rest, rfl⟩ := hbelow
    have hmeets := (meets_insert h rest).shown_iff hφ
    rw [shown_noted hφ] at hmeets
    rw [hmeets]
    constructor
    · exact Or.imp_right fun hr => .inr ⟨rest, rfl, hr⟩
    · rintro (hr | ⟨hshort, hfresh⟩ | ⟨rest', heq, hr⟩)
      · exact .inl hr
      · -- the path is that of the added object, which has the property as every object has it
        obtain rfl : rest = [] := by
          have hlength := hshort.length_le
          rw [List.length_append] at hlength
          exact List.eq_nil_of_length_eq_zero (by omega)
        exact .inr (shown_some.2 (hφ.unknown cleanup _ hfresh))
      · rw [List.append_cancel_left heq]
        exact .inr hr
  · have hnot : ¬ ∃ rest, path = splitString '.' dotted ++ rest ∧ Shown φ (added.headAt? rest) :=
      fun ⟨rest, heq, _⟩ => hbelow ⟨rest, heq.symm⟩
    by_cases habove : path <+: splitString '.' dotted
    · have hne : path ≠ splitString '.' dotted := fun heq => hbelow (heq ▸ List.prefix_rfl)
      rw [headAt?_insert_above h hpath habove hne, shown_some]
      simp only [habove, true_and, hnot, or_false]
      cases root.headAt? path with
      | none => simp [head, Object.unknown]
      | some x => simpa using hφ.unknown cleanup x.details
    · rw [headAt?_insert_aside h hbelow habove]
      simp [habove, hnot]

end Object

namespace Analysis

open Object

/-- Adds objects to the tree, one after the other. -/
def addAll (a : Analysis) (steps : List (String × Object)) : Reader Analysis :=
  steps.foldlM (fun a s => a.add s.1 s.2) a

/-- The object was added at the path, or is nested at it in an object that was added. -/
def Defines (steps : List (String × Object)) (path : List String) (x : Object) : Prop :=
  ∃ s ∈ steps, ∃ rest, path = splitString '.' s.1 ++ rest ∧ s.2.at? rest = some x

theorem addAll_cons {a b : Analysis} {s : String × Object} {steps : List (String × Object)} :
    a.addAll (s :: steps) = .ok b ↔ ∃ c, a.add s.1 s.2 = .ok c ∧ c.addAll steps = .ok b := by
  rw [addAll, List.foldlM_cons]
  constructor
  · exact Except.ok_of_bind
  · rintro ⟨c, hc, h⟩
    rw [hc]
    exact h

/-- What adding an object does, the tree apart, is nothing. -/
theorem add_eq_ok_iff {a b : Analysis} {path : String} {o : Object} :
    a.add path o = .ok b ↔ ∃ root, a.root.insert a.cleanup path o = .ok root ∧
      b = { a with root } := by
  unfold add merging
  cases a.root.insert a.cleanup path o with
  | error e => simp [Except.mapError, bind, Except.bind]
  | ok root =>
    simp only [Except.mapError, bind, Except.bind, pure, Except.pure, Except.ok.injEq,
      exists_eq_left']
    exact eq_comm

variable {φ : Details → Prop} {a b : Analysis} {steps : List (String × Object)} {path : List String}

/-- **What a sequence of added objects contributes** to a tree. -/
theorem shown_addAll (hφ : Collected φ) (h : a.addAll steps = .ok b) (hpath : path ≠ []) :
    Shown φ (b.root.headAt? path) ↔ Shown φ (a.root.headAt? path) ∨
      (∃ s ∈ steps, path <+: splitString '.' s.1 ∧ φ (.unknown a.cleanup)) ∨
      ∃ x, Defines steps path x ∧ φ x.details := by
  induction steps generalizing a with
  | nil =>
    cases h
    simp [Defines]
  | cons s steps ih =>
    obtain ⟨c, hc, h⟩ := addAll_cons.1 h
    obtain ⟨root, hroot, rfl⟩ := add_eq_ok_iff.1 hc
    rw [ih h, shown_insert hφ hroot hpath]
    simp only [shown_headAt?, Defines, List.exists_mem_cons_iff]
    constructor
    · rintro ((hold | habove | ⟨rest, heq, x, hx, hφx⟩) | habove | ⟨x, hx, hφx⟩)
      · exact .inl hold
      · exact .inr (.inl (.inl habove))
      · exact .inr (.inr ⟨x, .inl ⟨rest, heq, hx⟩, hφx⟩)
      · exact .inr (.inl (.inr habove))
      · exact .inr (.inr ⟨x, .inr hx, hφx⟩)
    · rintro (hold | (habove | habove) | ⟨x, ⟨rest, heq, hx⟩ | hx, hφx⟩)
      · exact .inl (.inl hold)
      · exact .inl (.inr (.inl habove))
      · exact .inr (.inl habove)
      · exact .inl (.inr (.inr ⟨rest, heq, x, hx, hφx⟩))
      · exact .inr (.inr ⟨x, hx, hφx⟩)

/-- Nothing is in the tree at the start. -/
theorem not_shown_empty (cleanup : Bool) (hpath : path ≠ []) :
    ¬ Shown φ ((empty cleanup).root.headAt? path) := by
  rw [headAt?_of_childless rfl hpath]
  exact shown_none

/-- A property that an unknown object does not have is contributed by added objects only. -/
theorem holds_addAll {cleanup : Bool} (hφ : Collected φ) (hunknown : ¬ φ (.unknown cleanup))
    (h : (empty cleanup).addAll steps = .ok b) (hpath : path ≠ []) {x : Object}
    (hx : b.root.at? path = some x) :
    φ x.details ↔ ∃ y, Defines steps path y ∧ φ y.details := by
  have hshown : Shown φ (b.root.headAt? path) ↔ φ x.details := by
    rw [headAt?, hx]
    exact shown_some
  rw [← hshown, shown_addAll hφ h hpath]
  have hnot : ¬ ∃ s ∈ steps, path <+: splitString '.' s.1 ∧
      φ (.unknown (empty cleanup).cleanup) := by
    rintro ⟨-, -, -, hfresh⟩
    exact hunknown hfresh
  simp only [not_shown_empty, hpath, ne_eq, not_false_eq_true, hnot, false_or]

theorem isSome_addAll {cleanup : Bool} (h : (empty cleanup).addAll steps = .ok b)
    (hpath : path ≠ []) : (b.root.at? path).isSome = true ↔
      (∃ s ∈ steps, path <+: splitString '.' s.1) ∨ ∃ x, Defines steps path x := by
  have hall := shown_addAll collected_true h hpath
  rw [shown_true, headAt?, Option.isSome_map] at hall
  simpa only [not_shown_empty, hpath, ne_eq, not_false_eq_true, false_or, and_true] using hall

theorem defines_perm {other : List (String × Object)} (hperm : other.Perm steps) {x : Object} :
    Defines other path x ↔ Defines steps path x := by
  simp only [Defines, hperm.mem_iff]

/-- **Adding objects loses no path, no file and no flag.** After objects were added to an empty
tree, the tree has exactly the paths of these objects, the paths above them and the paths of what
is nested in them. The object at a path has exactly the files and the flags of the objects that were
added or nested there. In which order the objects are added makes no difference to any of this. -/
theorem at?_addAll {cleanup : Bool} (h : (empty cleanup).addAll steps = .ok a) :
    (∀ path, path ≠ [] → ((a.root.at? path).isSome = true ↔
      (∃ s ∈ steps, path <+: splitString '.' s.1) ∨ ∃ x, Defines steps path x)) ∧
    (∀ path x, path ≠ [] → a.root.at? path = some x →
      (∀ f, f ∈ x.details.files ↔ ∃ y, Defines steps path y ∧ f ∈ y.details.files) ∧
      (x.details.deprecated = true ↔ ∃ y, Defines steps path y ∧ y.details.deprecated = true) ∧
      (x.details.noDiscard = true ↔ ∃ y, Defines steps path y ∧ y.details.noDiscard = true) ∧
      (x.details.async = true ↔ ∃ y, Defines steps path y ∧ y.details.async = true)) ∧
    ∀ other b, other.Perm steps → (empty cleanup).addAll other = .ok b → ∀ path, path ≠ [] →
      (b.root.at? path).isSome = (a.root.at? path).isSome ∧
      ∀ x y, a.root.at? path = some x → b.root.at? path = some y →
        (∀ f, f ∈ y.details.files ↔ f ∈ x.details.files) ∧
        y.details.deprecated = x.details.deprecated ∧
        y.details.noDiscard = x.details.noDiscard ∧ y.details.async = x.details.async := by
  refine ⟨fun path => isSome_addAll h, fun path x hpath hx => ⟨fun f => ?_, ?_, ?_, ?_⟩, ?_⟩
  · exact holds_addAll (collected_file f) nofun h hpath hx
  · exact holds_addAll collected_deprecated nofun h hpath hx
  · exact holds_addAll collected_noDiscard nofun h hpath hx
  · exact holds_addAll collected_async nofun h hpath hx
  intro other b hperm hb path hpath
  constructor
  · rw [Bool.eq_iff_iff, isSome_addAll h hpath, isSome_addAll hb hpath]
    simp only [defines_perm hperm, hperm.mem_iff]
  · intro x y hx hy
    -- both have what the added objects have, and these are the same
    have hsame : ∀ φ : Details → Prop, Collected φ → ¬ φ (.unknown cleanup) →
        (φ y.details ↔ φ x.details) := by
      intro φ hφ hunknown
      rw [holds_addAll hφ hunknown h hpath hx, holds_addAll hφ hunknown hb hpath hy]
      simp only [defines_perm hperm]
    refine ⟨fun f => hsame _ (collected_file f) nofun, ?_, ?_, ?_⟩
    · exact Bool.eq_iff_iff.2 (hsame _ collected_deprecated nofun)
    · exact Bool.eq_iff_iff.2 (hsame _ collected_noDiscard nofun)
    · exact Bool.eq_iff_iff.2 (hsame _ collected_async nofun)

/-- What is known of an object in the given file. -/
def inFile (file : String) : Details :=
  { Details.unknown false with files := [Path.ofString file] }

/-- A variable that may wait, and a table of the same path that should not be used any more. The
table is nested in the definition of its parent, in another file. -/
def sharedName : List (String × Object) :=
  [("m.A", ⟨{ inFile "a.lua" with async := true }, .data none none, []⟩),
    ("m", ⟨inFile "b.lua", .table,
      [("A", ⟨{ inFile "b.lua" with deprecated := true }, .table, []⟩)]⟩)]

/-- Both definitions can be added, in either order, and the object has the files and flags of
both. -/
theorem files_and_flags_of_sharedName :
    ∃ a b, (empty false).addAll sharedName = .ok a ∧
      (empty false).addAll sharedName.reverse = .ok b ∧
      ∃ x y, a.root.at? ["m", "A"] = some x ∧ b.root.at? ["m", "A"] = some y ∧
        Path.ofString "a.lua" ∈ x.details.files ∧ Path.ofString "b.lua" ∈ x.details.files ∧
        x.details.async = true ∧ x.details.deprecated = true ∧
        (∀ f, f ∈ y.details.files ↔ f ∈ x.details.files) ∧
        y.details.deprecated = x.details.deprecated ∧ y.details.async = x.details.async := by
  have hok : ((empty false).addAll sharedName).isOk = true := by decide +kernel
  have hok' : ((empty false).addAll sharedName.reverse).isOk = true := by decide +kernel
  obtain ⟨a, ha⟩ := Except.exists_of_isOk hok
  obtain ⟨b, hb⟩ := Except.exists_of_isOk hok'
  obtain ⟨hpaths, hholds, horder⟩ := at?_addAll ha
  have hpath : ["m", "A"] ≠ ([] : List String) := List.cons_ne_nil _ _
  have hvariable : Defines sharedName ["m", "A"]
      ⟨{ inFile "a.lua" with async := true }, .data none none, []⟩ :=
    ⟨_, List.mem_cons_self, [], rfl, rfl⟩
  have htable : Defines sharedName ["m", "A"]
      ⟨{ inFile "b.lua" with deprecated := true }, .table, []⟩ :=
    ⟨_, List.mem_cons_of_mem _ List.mem_cons_self, ["A"], rfl, rfl⟩
  obtain ⟨x, hx⟩ := Option.isSome_iff_exists.1 ((hpaths _ hpath).2 (.inr ⟨_, htable⟩))
  obtain ⟨hfiles, hdeprecated, -, hasync⟩ := hholds _ x hpath hx
  obtain ⟨hsome, hsame⟩ := horder sharedName.reverse b (List.reverse_perm _) hb _ hpath
  rw [hx, Option.isSome_some] at hsome
  obtain ⟨y, hy⟩ := Option.isSome_iff_exists.1 hsome
  obtain ⟨hfiles', hdeprecated', -, hasync'⟩ := hsame x y hx hy
  refine ⟨a, b, ha, hb, x, y, hx, hy, ?_, ?_, ?_, ?_, hfiles', hdeprecated', hasync'⟩
  · exact (hfiles _).2 ⟨_, hvariable, List.mem_singleton_self _⟩
  · exact (hfiles _).2 ⟨_, htable, List.mem_singleton_self _⟩
  · exact hasync.2 ⟨_, hvariable, rfl⟩
  · exact hdeprecated.2 ⟨_, htable, rfl⟩

end Analysis

end LuaDocs
