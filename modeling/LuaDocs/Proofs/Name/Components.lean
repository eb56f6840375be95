import LuaDocs.Proofs.Bracket
import LuaDocs.Proofs.TypeExpr.Spacing

/-!
# Normal names

A name is normal if its components are identifiers and keys whose types are closed and in normal
form. Such a name is taken apart in the same way by all that read names: the reader of signatures
and the one that cuts a full name at its dots both find its components. So a normal name is read as
it is written, and bringing its keys into normal form changes nothing. Normal names that are joined
by a dot make a normal name.

A key that is written with blanks, or without those of the normal form, is not normal. When it is
read its type is normalized, and the key is normal if it is clear: its brackets are closed, and
there are no strings and no arrows in it.
-/

namespace LuaDocs

open Text

variable {s : List Char}

namespace Text

/-- A text that has no blanks at its ends. -/
theorem trim_of_ends (hfirst : ∀ c ∈ s.head?, isBlank c = false)
    (hlast : ∀ c ∈ s.getLast?, isBlank c = false) : trim s = s := by
  have hstart : ∀ t : List Char, (∀ c ∈ t.head?, isBlank c = false) → trimStart t = t := by
    rintro (_ | ⟨c, t⟩) h
    · rfl
    · exact trimStart_of_head (h c rfl)
  rw [trim, hstart s hfirst, trimEnd]
  have hend := hstart s.reverse (by simpa using hlast)
  rw [trimStart] at hend
  rw [hend, List.reverse_reverse]

/-- A text that is left as it is starts with no blank. -/
theorem isBlank_of_trimStart {c : Char} (h : trimStart (c :: s) = c :: s) :
    isBlank c = false := by
  have hnot := List.head?_dropWhile_not isBlank (c :: s)
  rw [← trimStart, h] at hnot
  simpa using hnot

end Text

namespace Name

variable {c r : List Char} {cs : List (List Char)}

/-! ### Components -/

/-- The component is a key in normal form: its type is closed, and normalizing the type changes
nothing. -/
def IsKey (c : List Char) : Prop :=
  ∃ type, c = '[' :: type ++ [']'] ∧ Bracket.closed .start type = true ∧
    TypeExpr.normalizeChars type = type ∧ TypeExpr.normalizeChars (trim type) = type

/-- The component is an identifier or a key in normal form. -/
def IsComponent (c : List Char) : Prop := IsIdentifier c ∨ IsKey c

/-- The component is an identifier or a closed text in square brackets. -/
def IsPart (c : List Char) : Prop :=
  IsIdentifier c ∨ ∃ type, c = '[' :: type ++ [']'] ∧ Bracket.closed .start type = true

theorem isComponent_of_isPlain {name : String} (h : isPlain name = true) :
    IsComponent name.toList :=
  .inl (isIdentifier_of_isPlain h)

theorem IsComponent.isPart (h : IsComponent c) : IsPart c := by
  rcases h with h | ⟨type, hc, hclosed, -⟩
  · exact .inl h
  · exact .inr ⟨type, hc, hclosed⟩

theorem IsPart.ne_nil (h : IsPart c) : c ≠ [] := by
  rcases h with h | ⟨type, rfl, -⟩
  · exact h.1
  · simp

theorem IsComponent.ne_nil (h : IsComponent c) : c ≠ [] := h.isPart.ne_nil

theorem IsPart.ends (h : IsPart c) : (∀ d ∈ c.head?, isBlank d = false) ∧
    ∀ d ∈ c.getLast?, isBlank d = false ∧ d ≠ ')' := by
  rcases h with h | ⟨type, rfl, -⟩
  · have hchar : ∀ d ∈ c, isBlank d = false ∧ d ≠ ')' := by
      intro d hd
      refine ⟨isBlank_of_isNameChar (h.2 d hd), ?_⟩
      rintro rfl
      exact absurd (h.2 _ hd) (by decide +kernel)
    exact ⟨fun d hd => (hchar d (List.mem_of_mem_head? hd)).1,
      fun d hd => hchar d (List.mem_of_getLast? hd)⟩
  · refine ⟨fun d hd => ?_, fun d hd => ?_⟩
    · obtain rfl : '[' = d := Option.some.inj hd
      decide
    · rw [List.getLast?_concat] at hd
      obtain rfl : ']' = d := Option.some.inj hd
      decide

theorem IsComponent.trimStart_append (h : IsComponent c) (r : List Char) :
    trimStart (c ++ r) = c ++ r := by
  obtain ⟨d, rest, rfl⟩ := List.exists_cons_of_ne_nil h.ne_nil
  exact trimStart_of_head (h.isPart.ends.1 d rfl)

/-- A component is read as it is, up to what cannot continue an identifier. -/
theorem component?_of_isComponent (h : IsComponent c)
    (hr : ∀ d ∈ r.head?, isNameChar d = false) :
    component? (c ++ r) = some (c, trimStart r) ∨ component? (c ++ r) = some (c, trim r) := by
  rcases h with h | ⟨type, rfl, hclosed, -, hnormal⟩
  · exact .inl (component?_append h.1 h.2 hr)
  · right
    have hunwrap : Bracket.unwrap '[' ']' ('[' :: type ++ ']' :: r) = (trim type, trim r) :=
      Bracket.unwrap_of_closed (by decide) (by decide) hclosed
    rw [List.append_assoc, List.singleton_append]
    rw [List.cons_append] at hunwrap ⊢
    simp only [component?, hunwrap, key, hnormal, List.cons_append]

/-! ### Reading a normal name -/

theorem head?_continuation {d : Char} (hd : d ∈ (continuation cs).head?) : d = '.' := by
  cases cs with
  | nil => cases hd
  | cons => exact (Option.some.inj hd).symm

theorem getLast?_append_continuation {d : Char} (h : IsComponent c)
    (hcs : ∀ c ∈ cs, IsComponent c) (hd : d ∈ (c ++ continuation cs).getLast?) :
    isBlank d = false ∧ d ≠ ')' := by
  induction cs generalizing c with
  | nil => exact h.isPart.ends.2 d (by simpa [continuation] using hd)
  | cons next cs ih =>
    rw [List.forall_mem_cons] at hcs
    refine ih hcs.1 hcs.2 ?_
    have hnext : next ++ continuation cs ≠ [] := by simp [hcs.1.ne_nil]
    have hrest : continuation (next :: cs) = '.' :: (next ++ continuation cs) := rfl
    rw [hrest, List.getLast?_append, List.getLast?_cons_of_ne_nil hnext,
      Option.or_of_isSome (List.getLast?_isSome.2 hnext)] at hd
    exact hd

/-- The components after the first one have no blanks around them. -/
theorem trim_continuation (hcs : ∀ c ∈ cs, IsComponent c) :
    trim (continuation cs) = continuation cs := by
  refine trim_of_ends (fun d hd => ?_) fun d hd => ?_
  · rw [head?_continuation hd]
    decide
  · cases cs with
    | nil => cases hd
    | cons c cs =>
      rw [List.forall_mem_cons] at hcs
      have hrest : continuation (c :: cs) = '.' :: (c ++ continuation cs) := rfl
      rw [hrest, List.getLast?_cons_of_ne_nil (by simp [hcs.1.ne_nil])] at hd
      exact (getLast?_append_continuation hcs.1 hcs.2 hd).1

theorem component?_continuation (h : IsComponent c) (hcs : ∀ c ∈ cs, IsComponent c) :
    component? (c ++ continuation cs) = some (c, continuation cs) := by
  have htrim := trim_continuation hcs
  have hstart : trimStart (continuation cs) = continuation cs := by
    rw [← htrim, trimStart_trim]
  have hread := component?_of_isComponent h (r := continuation cs) fun d hd => by
    rw [head?_continuation hd]
    exact isNameChar_dot
  rwa [htrim, hstart, or_self] at hread

/-- The components of a name are read one after the other. -/
theorem components?_continuation (h : ∀ c ∈ cs, IsComponent c) :
    components? (continuation cs) = some (cs, []) := by
  induction cs with
  | nil => exact components?_nil
  | cons c cs ih =>
    obtain ⟨hc, hcs⟩ := List.forall_mem_cons.1 h
    have hdot : continuation (c :: cs) = '.' :: (c ++ continuation cs) := rfl
    rw [hdot, components?_dot (component?_continuation hc hcs), ih hcs]
    rfl

/-- The components of a normal name are read from it. -/
theorem readComponents?_join (hne : cs ≠ []) (h : ∀ c ∈ cs, IsComponent c) :
    readComponents? (join cs) = some (cs, []) := by
  obtain ⟨c, cs, rfl⟩ := List.exists_cons_of_ne_nil hne
  obtain ⟨hc, hcs⟩ := List.forall_mem_cons.1 h
  rw [readComponents?, join_cons, hc.trimStart_append, component?_continuation hc hcs]
  simp only [components?_continuation hcs, Option.map_some]

theorem toList_joinStrings (path : List String) :
    (joinStrings '.' path).toList = join (path.map String.toList) := by
  rw [joinStrings, String.toList_ofList]
  rfl

/-! ### Another name in the place of a name -/

/-- A text cannot continue a name if its first character cannot. -/
theorem ended_iff : Ended r ↔ ∀ c ∈ r.head?, isBlank c = false ∧ isNameChar c = false ∧
    c ≠ '.' ∧ c ≠ '[' := by
  constructor
  · intro h c hc
    obtain ⟨t, rfl⟩ : ∃ t, r = c :: t := List.head?_eq_some_iff.1 hc
    have hcs := h.components
    refine ⟨isBlank_of_trimStart h.trimmed, h.head c rfl, ?_, ?_⟩
    · rintro rfl
      rw [components?] at hcs
      split at hcs <;> simp at hcs
    · rintro rfl
      rw [components?] at hcs
      · split at hcs
        · simp at hcs
        · next hnone => cases hnone
      · intro _ heq
        cases heq
  · intro h
    cases r with
    | nil => exact ⟨rfl, components?_nil⟩
    | cons c t =>
      obtain ⟨hblank, hname, hdot, hbracket⟩ := h c rfl
      have htrim : trimStart (c :: t) = c :: t := trimStart_of_head hblank
      have hnone : component? (c :: t) = none := by
        unfold component?
        split
        · next heq => exact absurd (List.cons.inj heq).1 hbracket
        · simp [identifier?, htrim, hname]
      refine ⟨htrim, ?_⟩
      rw [components?]
      · split
        · next hsome => rw [hnone] at hsome; cases hsome
        · rfl
      · exact fun _ heq => hdot (List.cons.inj heq).1

/-- Blanks at the end of a text do not continue a name. -/
theorem Ended.trim (h : Ended r) : Ended (trim r) := by
  obtain ⟨blanks, hblanks⟩ := exists_append_trimEnd r
  have htrim : Text.trim r = trimEnd r := by rw [Text.trim, h.trimmed]
  rw [ended_iff] at h ⊢
  intro c hc
  refine h c ?_
  obtain ⟨t, ht⟩ : ∃ t, Text.trim r = c :: t := List.head?_eq_some_iff.1 hc
  rw [hblanks, ← htrim, ht]
  rfl

/-- What stands after a name is left after any component. -/
theorem read?_append {sig own after name : String} (h : read? sig = some (own, after))
    (hname : IsComponent name.toList) : ∃ rest, read? (name ++ after) = some (name, rest) := by
  obtain ⟨p, hp, heq⟩ := Option.map_eq_some_iff.1 h
  obtain ⟨-, rfl⟩ := Prod.mk.inj heq
  have hended := ended_of_readComponents? hp
  have hread : ∀ rest, component? (name.toList ++ p.2) = some (name.toList, rest) → Ended rest →
      read? (name ++ String.ofList p.2) = some (name, String.ofList rest) := by
    intro rest hrest hended
    have hall : readComponents? (name.toList ++ p.2) = some ([name.toList], rest) := by
      rw [readComponents?, hname.trimStart_append, hrest]
      simp only [hended.components, Option.map_some]
    rw [read?, String.toList_append, String.toList_ofList, hall]
    simp [join, List.intercalate]
  rcases component?_of_isComponent hname hended.head with hrest | hrest
  · rw [hended.trimmed] at hrest
    exact ⟨_, hread _ hrest hended⟩
  · exact ⟨_, hread _ hrest hended.trim⟩

/-! ### The components of a full name -/

/-- A component is not cut at dots. -/
theorem IsPart.whole (h : IsPart c) : Bracket.Whole '.' c := by
  rcases h with h | ⟨type, rfl, hclosed⟩
  · refine Bracket.whole_of_passes fun d hd => ⟨Scan.passes_of_class ?_ (h.2 d hd), ?_⟩
    · decide +kernel
    rintro rfl
    exact absurd (h.2 _ hd) (by rw [isNameChar_dot]; decide)
  · exact Bracket.whole_group (by decide) (by decide) (by decide) hclosed

theorem pieces_join (hne : cs ≠ []) (h : ∀ c ∈ cs, IsPart c) :
    Bracket.pieces '.' .start (join cs) = cs := by
  obtain ⟨c, cs, rfl⟩ := List.exists_cons_of_ne_nil hne
  rw [join_cons]
  induction cs generalizing c with
  | nil =>
    rw [continuation, List.flatMap_nil, List.append_nil]
    exact (h c List.mem_cons_self).whole.pieces_eq
  | cons next cs ih =>
    rw [List.forall_mem_cons] at h
    have hdot : continuation (next :: cs) = '.' :: (next ++ continuation cs) := rfl
    rw [hdot, h.1.whole.pieces_sep (by decide), ih next (List.cons_ne_nil _ _) h.2]

theorem IsPart.trim_eq (h : IsPart c) : Text.trim c = c :=
  trim_of_ends h.ends.1 fun d hd => (h.ends.2 d hd).1

/-- The components of a name are what stands between its dots. -/
theorem split_join (hne : cs ≠ []) (h : ∀ c ∈ cs, IsPart c) :
    Bracket.split '.' (join cs) = cs := by
  have hraw : Bracket.splitRaw '.' (join cs) = cs := by
    rw [Bracket.splitRaw, pieces_join hne h, List.filter_eq_self]
    intro c hc
    obtain ⟨d, rest, rfl⟩ := List.exists_cons_of_ne_nil (h c hc).ne_nil
    simp [allBlank, (h _ hc).ends.1 d rfl]
  rw [Bracket.split, hraw, List.map_congr_left fun c hc => (h c hc).trim_eq, List.map_id']

theorem IsComponent.normalComponent_eq (h : IsComponent c) : normalComponent c = c := by
  rcases h with h | ⟨type, rfl, -, hnormal, -⟩
  · unfold normalComponent
    split
    · exact absurd (h.2 '[' List.mem_cons_self) (by rw [isNameChar_bracket]; decide)
    · rfl
  · simp [normalComponent, key, hnormal]

theorem normalizeChars_join (hne : cs ≠ []) (h : ∀ c ∈ cs, IsComponent c) :
    normalizeChars (join cs) = join cs := by
  unfold normalizeChars
  split
  · rw [keyedComponents, split_join hne fun c hc => (h c hc).isPart,
      List.map_congr_left fun c hc => (h c hc).normalComponent_eq, List.map_id']
  · rfl

/-! ### Normal names -/

/-- The name is normal: its components are identifiers and keys in normal form. -/
def IsNormal (name : String) : Prop :=
  ∃ cs, cs ≠ [] ∧ (∀ c ∈ cs, IsComponent c) ∧ name.toList = join cs

variable {name : String}

theorem isNormal_of_isComponent (h : IsComponent name.toList) : IsNormal name :=
  ⟨[name.toList], List.cons_ne_nil _ _, List.forall_mem_singleton.2 h, by
    simp [join, List.intercalate]⟩

theorem IsNormal.ne_empty (h : IsNormal name) : name ≠ "" := by
  rintro rfl
  obtain ⟨cs, hne, hcs, hname⟩ := h
  obtain ⟨c, cs, rfl⟩ := List.exists_cons_of_ne_nil hne
  rw [join_cons] at hname
  exact (hcs c List.mem_cons_self).ne_nil (List.append_eq_nil_iff.1 hname.symm).1

/-- The ends of a normal name. -/
theorem IsNormal.ends (h : IsNormal name) : (∀ d ∈ name.toList.head?, isBlank d = false) ∧
    ∀ d ∈ name.toList.getLast?, isBlank d = false ∧ d ≠ ')' := by
  obtain ⟨cs, hne, hcs, hname⟩ := h
  obtain ⟨c, cs, rfl⟩ := List.exists_cons_of_ne_nil hne
  rw [List.forall_mem_cons] at hcs
  rw [hname, join_cons]
  refine ⟨fun d hd => hcs.1.isPart.ends.1 d ?_, fun d => getLast?_append_continuation hcs.1 hcs.2⟩
  rwa [List.head?_append, Option.or_of_isSome (List.isSome_head?.2 hcs.1.ne_nil)] at hd

/-- Bringing the keys of a normal name into normal form changes nothing. -/
theorem normalize_of_isNormal (h : IsNormal name) : normalize name = name := by
  obtain ⟨cs, hne, hcs, hname⟩ := h
  rw [normalize, hname, normalizeChars_join hne hcs, ← hname, String.ofList_toList]

theorem readName_of_isNormal (h : IsNormal name) : Signature.readName name = .ok (name, "") := by
  obtain ⟨cs, hne, hcs, hname⟩ := h
  rw [Signature.readName, read?, hname, readComponents?_join hne hcs, Option.map_some, ← hname,
    String.ofList_toList]

/-- Normal names that are joined by dots make a normal name. -/
theorem isNormal_joinStrings {path : List String} (hne : path ≠ [])
    (h : ∀ name ∈ path, IsNormal name) : IsNormal (joinStrings '.' path) := by
  induction path with
  | nil => exact absurd rfl hne
  | cons name rest ih =>
    obtain ⟨hname, hrest⟩ := List.forall_mem_cons.1 h
    by_cases hlast : rest = []
    · rw [hlast, joinStrings_singleton]
      exact hname
    · obtain ⟨cs, hcs, hc, hown⟩ := hname
      obtain ⟨ds, hds, hd, hothers⟩ := ih hlast hrest
      refine ⟨cs ++ ds, by simp [hcs], List.forall_mem_append.2 ⟨hc, hd⟩, ?_⟩
      rw [toList_joinStrings] at hothers ⊢
      have hjoin : join (name.toList :: rest.map String.toList) =
          joinWith '.' [join cs, join ds] := by
        rw [← hown, ← hothers, join, ← joinWith, joinWith_cons_cons]
        have hrest : rest.map String.toList ≠ [] := by simpa using hlast
        rw [joinWith_cons_of_ne_nil hrest]
        simp [join, joinWith, List.intercalate]
      rw [List.map_cons, hjoin]
      exact (joinWith_append hcs hds).symm

/-- The given parts of a full name make a normal name, if they are normal. -/
theorem isNormal_joinGiven {parts : List (Option String)}
    (hne : parts.filterMap Context.nonEmpty ≠ [])
    (h : ∀ name ∈ parts.filterMap Context.nonEmpty, IsNormal name) :
    IsNormal (Index.joinGiven parts) := by
  rw [Index.joinGiven_eq]
  exact isNormal_joinStrings hne h

/-! ### Names that are read -/

/-- The component is no key, or its brackets are closed and there are no strings and no arrows in
it. -/
def IsClear (c : List Char) : Prop :=
  c.head? = some '[' →
    Bracket.closed .start c.tail.dropLast = true ∧ TypeExpr.IsSimple c.tail.dropLast

instance (c : List Char) : Decidable (IsClear c) :=
  inferInstanceAs (Decidable (_ → _))

/-- The components of the name at the start of the text are clear as they are read. -/
def StartsClear (text : String) : Prop :=
  match readComponents? text.toList with
  | some (cs, _) => ∀ c ∈ cs, IsClear c
  | none => True

instance (text : String) : Decidable (StartsClear text) := by
  unfold StartsClear
  split <;> infer_instance

/-- A key that is read is in normal form, if it is clear. -/
theorem isKey_key {type : List Char} (h : IsClear (key type)) : IsKey (key type) := by
  obtain ⟨hclosed, hsimple⟩ := h rfl
  have hinner : (key type).tail.dropLast = TypeExpr.normalizeChars type := by simp [key]
  rw [hinner] at hclosed hsimple
  exact ⟨_, rfl, hclosed, TypeExpr.normalizeChars_of_isSimple hsimple,
    TypeExpr.normalizeChars_trim hsimple⟩

/-- A component that is read is an identifier or a key. -/
theorem isComponent_of_component? (h : component? s = some (c, r))
    (hclear : IsClear c) : IsComponent c := by
  unfold component? at h
  split at h
  · obtain ⟨rfl, -⟩ := Prod.mk.inj (Option.some.inj h)
    exact .inr (isKey_key hclear)
  · unfold identifier? at h
    dsimp only at h
    split at h
    · cases h
    · next hne =>
      obtain ⟨rfl, -⟩ := Prod.mk.inj (Option.some.inj h)
      refine .inl ⟨by simpa using hne, fun d hd => ?_⟩
      exact List.all_eq_true.1 List.all_takeWhile d hd

theorem isComponent_of_components? (h : components? s = some (cs, r))
    (hclear : ∀ c ∈ cs, IsClear c) : ∀ c ∈ cs, IsComponent c := by
  refine components?_induction (motive := fun _ cs _ => (∀ c ∈ cs, IsClear c) →
    ∀ c ∈ cs, IsComponent c) ?_ ?_ h hclear
  · intro s _ _
    exact List.forall_mem_nil _
  · intro s t c rest cs r hread ih hclear
    rw [List.forall_mem_cons] at hclear ⊢
    exact ⟨isComponent_of_component? hread hclear.1, ih hclear.2⟩

/-- **A name that is read is normal**, if its components are clear. -/
theorem isNormal_of_readName {sig name after : String} (h : StartsClear sig)
    (hread : Signature.readName sig = .ok (name, after)) : IsNormal name := by
  unfold Signature.readName read? at hread
  unfold StartsClear at h
  split at hread
  · next p hp =>
    obtain rfl : p = (name, after) := Except.ok.inj hread
    obtain ⟨⟨cs, r⟩, hcs, heq⟩ := Option.map_eq_some_iff.1 hp
    obtain ⟨rfl, -⟩ := Prod.mk.inj heq
    rw [hcs] at h
    unfold readComponents? at hcs
    split at hcs
    · next c rest hc =>
      obtain ⟨⟨ds, r'⟩, hds, heq⟩ := Option.map_eq_some_iff.1 hcs
      obtain ⟨rfl, rfl⟩ := Prod.mk.inj heq
      dsimp only at h
      rw [List.forall_mem_cons] at h
      refine ⟨c :: ds, List.cons_ne_nil _ _, ?_, String.toList_ofList⟩
      rw [List.forall_mem_cons]
      exact ⟨isComponent_of_component? hc h.1, isComponent_of_components? hds h.2⟩
    · cases hcs
  · cases hread

end Name

namespace Signature

theorem readName_append {sig own after name : String} (h : readName sig = .ok (own, after))
    (hname : Name.IsComponent name.toList) :
    ∃ rest, readName (name ++ after) = .ok (name, rest) := by
  unfold readName at h
  split at h
  · next p hp =>
    obtain rfl : p = (own, after) := Except.ok.inj h
    obtain ⟨rest, hrest⟩ := Name.read?_append hp hname
    exact ⟨rest, by rw [readName, hrest]⟩
  · cases h

end Signature

end LuaDocs
