import LuaDocs.Heading
import LuaDocs.Proofs.Except
import LuaDocs.Proofs.Name.Dotted

/-!
# Plain names

The name at the start of a signature is read component by component, with blanks and keys in
brackets. An identifier is read up to the first character that is no part of it. What is left after
a name cannot continue it, so that another name can be put in its place.
-/

namespace LuaDocs

open Text

variable {name sig : String}

namespace Text

variable {c : Char}

/-- Classes of characters whose ranges do not meet have no character in common. -/
theorem inRanges_eq_false {p q : List (Nat × Nat)}
    (h : (p.all fun r => q.all fun t => r.2 < t.1 || t.2 < r.1) = true)
    (hc : inRanges p c = true) : inRanges q c = false := by
  rw [Bool.eq_false_iff]
  intro hq
  obtain ⟨r, hr, hlow, hhigh⟩ := inRanges_iff.1 hc
  obtain ⟨t, ht, hlow', hhigh'⟩ := inRanges_iff.1 hq
  have hapart := List.all_eq_true.1 (List.all_eq_true.1 h r hr) t ht
  simp only [Bool.or_eq_true, decide_eq_true_eq] at hapart
  omega

/-- Blanks are no part of a name. -/
theorem isBlank_of_isNameChar (h : isNameChar c = true) : isBlank c = false := by
  rw [isNameChar, Bool.or_eq_true, beq_iff_eq] at h
  rcases h with h | rfl
  · exact inRanges_eq_false (p := wordRanges) (by decide +kernel) h
  · decide

theorem exists_zeroDigit (h : isDigit c = true) :
    ∃ z ∈ zeroDigits, z ≤ c.toNat ∧ c.toNat ≤ z + 9 := by
  rw [isDigit, digitValue?, Option.isSome_map, List.find?_isSome] at h
  simpa using h

/-- Blanks are no digits. -/
theorem isBlank_of_isDigit (h : isDigit c = true) : isBlank c = false := by
  have hapart : ∀ z ∈ zeroDigits, ∀ r ∈ blankRanges, z + 9 < r.1 ∨ r.2 < z := by decide +kernel
  obtain ⟨z, hz, hlow, hhigh⟩ := exists_zeroDigit h
  rw [Bool.eq_false_iff]
  intro hc
  obtain ⟨r, hr, hc⟩ := inRanges_iff.1 hc
  have := hapart z hz r hr
  omega

theorem isNameChar_dot : isNameChar '.' = false := by decide +kernel

theorem isNameChar_bracket : isNameChar '[' = false := by decide +kernel

theorem trimStart_append {a : List Char} (h : isNameChar c = true) (r : List Char) :
    trimStart (c :: a ++ r) = c :: a ++ r :=
  trimStart_of_head (isBlank_of_isNameChar h)

/-- What is trimmed from the end of a text stands after the rest of it. -/
theorem exists_append_trimEnd (s : List Char) : ∃ blanks, s = trimEnd s ++ blanks := by
  refine ⟨(s.reverse.takeWhile isBlank).reverse, ?_⟩
  rw [trimEnd, ← List.reverse_append, List.takeWhile_append_dropWhile, List.reverse_reverse]

theorem trim_subset (s : List Char) : trim s ⊆ s := by
  obtain ⟨blanks, hblanks⟩ := exists_append_trimEnd (trimStart s)
  have hend : trim s ⊆ trimStart s := by
    rw [hblanks]
    exact List.subset_append_left _ _
  exact List.Subset.trans hend (List.dropWhile_sublist _).subset

/-- A trimmed text starts with no blank. -/
theorem trimStart_trim (s : List Char) : trimStart (trim s) = trim s := by
  have hcut : ∀ r : List Char, trimStart r = r → trimStart (trimEnd r) = trimEnd r := by
    intro r hr
    obtain ⟨blanks, hblanks⟩ := exists_append_trimEnd r
    cases hend : trimEnd r with
    | nil => rfl
    | cons c rest =>
      rw [hend] at hblanks
      refine trimStart_of_head (Bool.eq_false_iff.2 fun hc => ?_)
      rw [hblanks, trimStart, List.cons_append, List.dropWhile_cons_of_pos hc] at hr
      have hlen := (List.dropWhile_sublist (l := rest ++ blanks) isBlank).length_le
      rw [hr, List.length_cons] at hlen
      omega
  exact hcut _ (trimStart_trimStart s)

end Text

namespace Name

variable {cs : List (List Char)} {s r : List Char}

/-- The name is one identifier. -/
def isPlain (name : String) : Bool := !name.isEmpty && name.toList.all isNameChar

theorem ne_empty_of_isPlain (h : isPlain name = true) : name ≠ "" := by
  rintro rfl
  cases h

theorem isNameChar_of_isPlain (h : isPlain name = true) :
    ∀ c ∈ name.toList, isNameChar c = true := by
  rw [isPlain, Bool.and_eq_true, List.all_eq_true] at h
  exact h.2

/-! ### Components -/

/-- An identifier is read up to the first character that is no part of it. -/
theorem component?_append {a : List Char} (hne : a ≠ []) (ha : ∀ c ∈ a, isNameChar c = true)
    (hr : ∀ c ∈ r.head?, isNameChar c = false) :
    component? (a ++ r) = some (a, trimStart r) := by
  obtain ⟨c, b, rfl⟩ := List.exists_cons_of_ne_nil hne
  have hc : isNameChar c = true := ha c List.mem_cons_self
  have htake : (c :: b ++ r).takeWhile isNameChar = c :: b := by
    rw [List.takeWhile_append_of_pos ha]
    cases r with
    | nil => simp
    | cons d r => simp [hr d rfl]
  have hdrop : (c :: b ++ r).dropWhile isNameChar = r := by
    rw [List.dropWhile_append_of_pos ha]
    cases r with
    | nil => rfl
    | cons d r => simp [hr d rfl]
  unfold component?
  split
  · next heq =>
    -- a key starts with a bracket
    obtain rfl : c = '[' := (List.cons.inj heq).1
    rw [isNameChar_bracket] at hc
    cases hc
  · simp only [identifier?, trimStart_append hc, htake, hdrop]
    simp

theorem components?_dot {c rest : List Char} (h : component? r = some (c, rest)) :
    components? ('.' :: r) = (components? rest).map fun p => (c :: p.1, p.2) := by
  rw [components?]
  split <;> simp_all

theorem components?_nil : components? [] = some ([], []) := by
  rw [components?]
  · simp [component?, identifier?, trimStart]
  · simp

/-- The components after the first one with their dots. -/
def continuation (cs : List (List Char)) : List Char := cs.flatMap fun c => '.' :: c

theorem join_cons (c : List Char) (cs : List (List Char)) :
    join (c :: cs) = c ++ continuation cs := by
  induction cs generalizing c with
  | nil => simp [join, continuation, List.intercalate]
  | cons d cs ih =>
    have hjoin : join (c :: d :: cs) = c ++ '.' :: join (d :: cs) := joinWith_cons_cons '.' c d cs
    rw [hjoin, ih]
    rfl

/-- The component is an identifier. -/
def IsIdentifier (c : List Char) : Prop := c ≠ [] ∧ ∀ d ∈ c, isNameChar d = true

/-! ### What is left after a name -/

/-- The text cannot continue a name. -/
structure Ended (r : List Char) : Prop where
  trimmed : trimStart r = r
  components : components? r = some ([], r)

theorem trimmed_of_component? {c : List Char} (h : component? s = some (c, r)) :
    trimStart r = r := by
  unfold component? at h
  split at h
  · next t =>
    simp only [Bracket.unwrap, beq_self_eq_true, if_true, Option.some.injEq, Prod.mk.injEq] at h
    rw [← h.2]
    split
    · exact trimStart_trim _
    · rfl
  · unfold identifier? at h
    dsimp only at h
    split at h
    · cases h
    · obtain ⟨-, rfl⟩ := Prod.mk.inj (Option.some.inj h)
      exact trimStart_trimStart _

/-- Induction along the components that are read. -/
theorem components?_induction {motive : List Char → List (List Char) → List Char → Prop}
    (stop : ∀ s, components? s = some ([], s) → motive s [] s)
    (next : ∀ s t c rest cs r, component? t = some (c, rest) → motive rest cs r →
      motive s (c :: cs) r) (h : components? s = some (cs, r)) : motive s cs r := by
  induction hn : s.length using Nat.strongRecOn generalizing s cs with
  | ind n ih =>
    -- a component that is read leaves a shorter text, in which the others are read
    have hstep : ∀ t c rest, t.length ≤ s.length → component? t = some (c, rest) →
        (components? rest).map (fun p => (c :: p.1, p.2)) = some (cs, r) → motive s cs r := by
      intro t c rest ht hread hrest
      obtain ⟨p, hp, heq⟩ := Option.map_eq_some_iff.1 hrest
      obtain ⟨rfl, rfl⟩ := Prod.mk.inj heq
      have hshort := length_component?_snd_lt hread
      exact next s t c rest p.1 p.2 hread (ih rest.length (by omega) hp rfl)
    have hall := h
    rw [components?.eq_def] at h
    split at h
    · next t =>
      split at h
      · next c rest hread => exact hstep t c rest (by simp) hread h
      · cases h
    · split at h
      · next c rest hread => exact hstep s c rest (Nat.le_refl _) hread h
      · obtain ⟨rfl, rfl⟩ := Prod.mk.inj (Option.some.inj h)
        exact stop _ hall

theorem ended_of_components? (hs : trimStart s = s)
    (h : components? s = some (cs, r)) : Ended r := by
  refine components?_induction (motive := fun s _ r => trimStart s = s → Ended r) ?_ ?_ h hs
  · intro s hstop hs
    exact ⟨hs, hstop⟩
  · intro s t c rest cs r hread ih _
    exact ih (trimmed_of_component? hread)

theorem ended_of_readComponents? (h : readComponents? s = some (cs, r)) : Ended r := by
  unfold readComponents? at h
  split at h
  · next c rest hread =>
    obtain ⟨p, hp, heq⟩ := Option.map_eq_some_iff.1 h
    obtain ⟨-, rfl⟩ := Prod.mk.inj heq
    exact ended_of_components? (trimmed_of_component? hread) hp
  · cases h

/-- What cannot continue a name does not start with a character of names. -/
theorem Ended.head (h : Ended r) : ∀ c ∈ r.head?, isNameChar c = false := by
  intro c hc
  cases r with
  | nil => cases hc
  | cons d r =>
    obtain rfl : d = c := Option.some.inj hc
    rw [Bool.eq_false_iff]
    intro hd
    have hread : ∃ rest, component? (d :: r) = some (d :: r.takeWhile isNameChar, rest) := by
      have := component?_append (a := d :: r.takeWhile isNameChar) (r := r.dropWhile isNameChar)
        (List.cons_ne_nil _ _) ?_ ?_
      · rw [List.cons_append, List.takeWhile_append_dropWhile] at this
        exact ⟨_, this⟩
      · exact List.forall_mem_cons.2 ⟨hd, fun e he => List.all_eq_true.1 List.all_takeWhile e he⟩
      · intro e he
        have := List.head?_dropWhile_not isNameChar r
        rw [Option.mem_def.1 he] at this
        simpa using this
    obtain ⟨rest, hread⟩ := hread
    have hcs := h.components
    rw [components?.eq_def] at hcs
    split at hcs
    · next heq =>
      obtain ⟨rfl, -⟩ := List.cons.inj heq
      rw [isNameChar_dot] at hd
      cases hd
    · rw [hread] at hcs
      simp at hcs

theorem isIdentifier_of_isPlain (h : isPlain name = true) :
    IsIdentifier name.toList := by
  refine ⟨fun hnil => ne_empty_of_isPlain h ?_, isNameChar_of_isPlain h⟩
  simpa using hnil

end Name

namespace Signature

/-- A reader that passes the name on gives the name that is read first. -/
theorem exists_readName_of_bind {α : Type} {p : String × α}
    {rest : String × String → Except Error (String × α)}
    (hrest : ∀ q p, rest q = .ok p → p.1 = q.1) (h : readName sig >>= rest = .ok p) :
    ∃ after, readName sig = .ok (p.1, after) := by
  obtain ⟨q, hq, hp⟩ := Except.ok_of_bind h
  exact ⟨q.2, by rw [hq, hrest q p hp]⟩

end Signature

namespace Family

open Signature

/-- The text in which the name of an object is read: the signature, or the whole argument of a
directive that describes a table. -/
def named (f : Family) (argument sig : String) : String :=
  match f with
  | .table => argument
  | _ => sig

/-- The name that a signature gives is read at the start of it. -/
theorem readName_of_read {f : Family} {argument : String} {r : String × Subject}
    (h : f.read argument sig = .ok r) :
    ∃ after, readName (f.named argument sig) = .ok (r.1, after) := by
  cases f with
  | function =>
    obtain ⟨p, hp, rfl⟩ := Except.ok_of_map h
    refine exists_readName_of_bind (p := p) ?_ hp
    rintro ⟨own, rest⟩ p hp
    obtain ⟨returns, -, hp⟩ := Except.ok_of_bind hp
    exact (congrArg Prod.fst (Except.ok.inj hp)).symm
  | data =>
    obtain ⟨p, hp, rfl⟩ := Except.ok_of_map h
    refine exists_readName_of_bind (p := p) ?_ hp
    rintro ⟨own, rest⟩ p hp
    exact (congrArg Prod.fst (Except.ok.inj hp)).symm
  | alias_ =>
    obtain ⟨p, hp, rfl⟩ := Except.ok_of_map h
    refine exists_readName_of_bind (p := p) ?_ hp
    rintro ⟨own, rest⟩ p hp
    exact (congrArg Prod.fst (Except.ok.inj hp)).symm
  | class_ =>
    obtain ⟨p, hp, rfl⟩ := Except.ok_of_map h
    refine exists_readName_of_bind (p := p) ?_ hp
    rintro ⟨own, rest⟩ p hp
    dsimp only at hp
    split at hp
    · obtain ⟨returns, -, hp⟩ := Except.ok_of_bind hp
      exact (congrArg Prod.fst (Except.ok.inj hp)).symm
    · exact (congrArg Prod.fst (Except.ok.inj hp)).symm
  | table =>
    obtain ⟨own, hp, rfl⟩ := Except.ok_of_map h
    obtain ⟨⟨name, after⟩, hq, hp⟩ := Except.ok_of_bind hp
    dsimp only at hp
    split at hp
    · obtain rfl : name = own := Except.ok.inj hp
      exact ⟨after, hq⟩
    · cases hp

/-- The name that a signature gives does not depend on the family. -/
theorem fst_of_read {f : Family} {argument after after' : String}
    (hsig : readName sig = .ok (name, after)) (hargument : readName argument = .ok (name, after'))
    {r : String × Subject} (h : f.read argument sig = .ok r) : r.1 = name := by
  obtain ⟨rest, hread⟩ := readName_of_read h
  cases f with
  | table => exact (congrArg Prod.fst (Except.ok.inj (hargument.symm.trans hread))).symm
  | _ => exact (congrArg Prod.fst (Except.ok.inj (hsig.symm.trans hread))).symm

end Family

end LuaDocs
