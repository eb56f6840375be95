import LuaDocs.Proofs.Name.Plain
import LuaDocs.TypeExpr

/-!
# The spacing of type expressions

Every token is read from a part of the text, and the parts follow each other with nothing but
blanks between them. The normal form of a token shows the characters of its part without the
blanks, and with new blanks around separators. Two kinds of tokens are different: strings are
copied with the blanks in them, and an arrow becomes a colon.

A text without quotes in which no arrow can arise is therefore normalized character by character,
and normalizing it a second time changes nothing if none arises in its normal form.
-/

namespace LuaDocs.TypeExpr

open Text

variable {c : Char} {p : Char → Bool}

/-! ### Characters -/

/-- How a character is shown outside strings and arrows. -/
def spaced (c : Char) : List Char :=
  if isBlank c then []
  else if Token.isSeparator c then (Token.separator c).normal
  else [c]

/-- The text with its characters spaced one by one. -/
def spacing (s : List Char) : List Char := s.flatMap spaced

@[simp] theorem spacing_nil : spacing [] = [] := rfl

@[simp] theorem spacing_cons (c : Char) (s : List Char) :
    spacing (c :: s) = spaced c ++ spacing s := rfl

@[simp] theorem spacing_append (s t : List Char) : spacing (s ++ t) = spacing s ++ spacing t :=
  List.flatMap_append

/-- A character that is shown as it is. -/
def isSolid (c : Char) : Bool := !isBlank c && !Token.isSeparator c

theorem spaced_of_isSolid (h : isSolid c = true) : spaced c = [c] := by
  simp only [isSolid, Bool.and_eq_true, Bool.not_eq_true'] at h
  simp [spaced, h.1, h.2]

theorem isSolid_of_all {s : List Char} (h : s.all isSolid = true) : ∀ c ∈ s, isSolid c = true :=
  List.all_eq_true.1 h

theorem spacing_of_isSolid {s : List Char} (h : ∀ c ∈ s, isSolid c = true) : spacing s = s := by
  induction s with
  | nil => rfl
  | cons c s ih =>
    rw [List.forall_mem_cons] at h
    rw [spacing_cons, spaced_of_isSolid h.1, ih h.2, List.singleton_append]

/-- A text starts with blanks, which are not shown. -/
theorem exists_blanks (s : List Char) : ∃ blanks, s = blanks ++ trimStart s ∧
    spacing blanks = [] := by
  refine ⟨s.takeWhile isBlank, List.takeWhile_append_dropWhile.symm, ?_⟩
  rw [spacing, List.flatMap_eq_nil_iff]
  intro c hc
  have hblank : isBlank c = true := List.all_eq_true.1 List.all_takeWhile c hc
  simp [spaced, hblank]

/-- Blanks at the ends of a text are not shown. -/
theorem spacing_trim (s : List Char) : spacing (trim s) = spacing s := by
  have hspacing : ∀ t, spacing t = (squeeze t).flatMap spaced := by
    intro t
    induction t with
    | nil => rfl
    | cons c t ih => by_cases hc : isBlank c = true <;> simp_all [squeeze, spaced]
  rw [hspacing, squeeze_trim, ← hspacing]

/-- The signs that separate parts of a type. -/
def Token.separators : List Char := ['=', ':', ',', '|', '&']

/-- The characters of a class separate nothing if no separator belongs to it. -/
theorem isSeparator_of_class (hp : (Token.separators.all fun d => !p d) = true) (hc : p c = true) :
    Token.isSeparator c = false := by
  rw [Bool.eq_false_iff]
  intro hsep
  have hmem : c ∈ Token.separators := by
    simpa [Token.isSeparator, Token.separators, or_assoc] using hsep
  have hother := List.all_eq_true.1 hp c hmem
  rw [hc] at hother
  cases hother

theorem isSolid_of_isNameChar (h : isNameChar c = true) : isSolid c = true := by
  have hsep : Token.isSeparator c = false := isSeparator_of_class (by decide +kernel) h
  simp [isSolid, isBlank_of_isNameChar h, hsep]

theorem isSolid_of_isDigit (h : isDigit c = true) : isSolid c = true := by
  have hsep : Token.isSeparator c = false := isSeparator_of_class (by decide +kernel) h
  simp [isSolid, isBlank_of_isDigit h, hsep]

/-! ### Tokens and what they are read from -/

namespace Token

variable {r : List Char × List Char}

/-- The token is read from the text `p`: its normal form is the text with its characters spaced, but
a string is shown as it is, and an arrow is an arrow. -/
def Spells (p : List Char) : Token → Prop
  | .literal text => p = text ∧ ∃ q body, text = q :: body ∧ isQuote q = true
  | .arrow => p = ['-', '>']
  | token => token.normal = spacing p

theorem eq_append_of_string? {q : Char} {s a b : List Char} (h : string? q s = some (a, b)) :
    s = a ++ b := by
  fun_induction string? q s generalizing a with
  | case1 => cases h
  | case2 => cases h
  | case3 c r hc ih =>
    obtain ⟨p, hp, hq⟩ := Option.map_eq_some_iff.1 h
    obtain ⟨rfl, rfl⟩ := Prod.mk.inj hq
    rw [ih hp, List.cons_append, List.cons_append]
  | case4 c r =>
    obtain ⟨rfl, rfl⟩ := Prod.mk.inj (Option.some.inj h)
    rfl
  | case5 => cases h
  | case6 c r _ _ _ ih =>
    obtain ⟨p, hp, hq⟩ := Option.map_eq_some_iff.1 h
    obtain ⟨rfl, rfl⟩ := Prod.mk.inj hq
    rw [ih hp, List.cons_append]

/-- The signs that occur in numbers. -/
def numeralSigns : List Char := ['.', 'e', 'E', '+', '-']

/-- A character of numbers. -/
def isNumeral (c : Char) : Bool := isDigit c || numeralSigns.contains c

theorem isNumeral_of_isDigit (h : isDigit c = true) : isNumeral c = true := by
  simp [isNumeral, h]

theorem isNumeral_of_mem (h : c ∈ numeralSigns) : isNumeral c = true := by
  simp [isNumeral, h]

theorem isSolid_of_isNumeral (h : isNumeral c = true) : isSolid c = true := by
  have hsigns : ∀ d ∈ numeralSigns, isSolid d = true := isSolid_of_all (by decide)
  rw [isNumeral, Bool.or_eq_true, List.contains_iff_mem] at h
  exact h.elim isSolid_of_isDigit (hsigns c)

/-- The text is cut after characters with the property `p`. -/
def Cuts (p : Char → Bool) (s : List Char) (r : List Char × List Char) : Prop :=
  s = r.1 ++ r.2 ∧ ∀ c ∈ r.1, p c = true

theorem cuts_run (p : Char → Bool) (s : List Char) : Cuts p s (run p s) :=
  ⟨List.takeWhile_append_dropWhile.symm, fun c hc => List.all_eq_true.1 List.all_takeWhile c hc⟩

theorem cuts_nil (p : Char → Bool) (s : List Char) : Cuts p s ([], s) := ⟨rfl, nofun⟩

theorem Cuts.mono {q : Char → Bool} {s : List Char}
    (h : Cuts p s r) (hpq : ∀ c, p c = true → q c = true) : Cuts q s r :=
  ⟨h.1, fun c hc => hpq c (h.2 c hc)⟩

theorem Cuts.append {s a b c d : List Char} (h : Cuts p s (a, b))
    (h' : Cuts p b (c, d)) : Cuts p s (a ++ c, d) := by
  refine ⟨?_, List.forall_mem_append.2 ⟨h.2, h'.2⟩⟩
  rw [List.append_assoc, ← h'.1]
  exact h.1

theorem Cuts.cons {s : List Char}
    (hc : p c = true) (h : Cuts p s r) : Cuts p (c :: s) (c :: r.1, r.2) :=
  ⟨congrArg (c :: ·) h.1, List.forall_mem_cons.2 ⟨hc, h.2⟩⟩

theorem cuts_digits (s : List Char) : Cuts isNumeral s (run isDigit s) :=
  (cuts_run isDigit s).mono fun _ => isNumeral_of_isDigit

theorem cuts_exponent (s : List Char) : Cuts isNumeral s (exponent s) := by
  cases s with
  | nil => exact cuts_nil _ _
  | cons e r =>
    unfold exponent
    dsimp only
    split
    · next he =>
      have hletter : isNumeral e = true := by
        simp only [Bool.or_eq_true, beq_iff_eq] at he
        rcases he with rfl | rfl <;> exact isNumeral_of_mem (by decide)
      split
      · split
        · exact cuts_nil _ _
        · exact .cons hletter (.cons (isNumeral_of_mem (by decide)) (cuts_digits _))
      · split
        · exact cuts_nil _ _
        · exact .cons hletter (.cons (isNumeral_of_mem (by decide)) (cuts_digits _))
      · split
        · exact cuts_nil _ _
        · exact .cons hletter (cuts_digits _)
    · exact cuts_nil _ _

theorem cuts_fraction (s : List Char) : Cuts isNumeral s (fraction s) := by
  unfold fraction
  split
  · exact .cons (isNumeral_of_mem (by decide)) (cuts_digits _)
  · exact cuts_nil _ _

theorem cuts_number? {s : List Char} (h : number? s = some r) :
    Cuts isNumeral s r := by
  unfold number? at h
  dsimp only at h
  split at h
  · cases h
  · obtain rfl := Option.some.inj h
    exact ((cuts_digits s).append (cuts_fraction _)).append (cuts_exponent _)

/-! ### Names -/

theorem exists_of_component (before s : List Char) : ∃ p, s = p ++ (component before s).rest ∧
    (component before s).name = before ++ spacing p := by
  obtain ⟨blanks, hblanks, hnone⟩ := exists_blanks (s.dropWhile isNameChar)
  refine ⟨s.takeWhile isNameChar ++ blanks, ?_, ?_⟩
  · rw [component, List.append_assoc, ← hblanks, List.takeWhile_append_dropWhile]
  · rw [component, spacing_append, hnone, List.append_nil, spacing_of_isSolid]
    exact fun c hc => isSolid_of_isNameChar (List.all_eq_true.1 List.all_takeWhile c hc)

/-- A dotted name is read from its characters and blanks. -/
theorem exists_of_mem_stops {before s : List Char} {stop : Stop} (h : stop ∈ stops before s) :
    ∃ p, s = p ++ stop.rest ∧ stop.name = before ++ spacing p := by
  fun_induction stops before s with
  | case1 before s own r hr hnil =>
    obtain rfl := List.mem_singleton.1 h
    exact exists_of_component before s
  | case2 before s own r hr c t hc hword ih =>
    rcases List.mem_cons.1 h with rfl | h
    · exact exists_of_component before s
    · obtain ⟨p, hp, hname⟩ := exists_of_component before s
      obtain ⟨blanks, hblanks, hnone⟩ := exists_blanks r
      obtain ⟨q, hq, hrest⟩ := ih h
      refine ⟨p ++ '.' :: blanks ++ q, ?_, ?_⟩
      · rw [hc, hq] at hblanks
        have hrest : own.rest = '.' :: (blanks ++ (q ++ stop.rest)) := by rw [hr, ← hblanks]
        rw [hp]
        simp only [own] at hrest
        rw [hrest]
        simp
      · have hdot : spaced '.' = ['.'] := spaced_of_isSolid (by decide)
        simp [hrest, own, hname, hdot, hnone]
  | case3 before s own r hr c t hc hword =>
    obtain rfl := List.mem_singleton.1 h
    exact exists_of_component before s
  | case4 before s own hr =>
    obtain rfl := List.mem_singleton.1 h
    exact exists_of_component before s

/-- Question marks are read from themselves and blanks. -/
theorem exists_of_marks (n : Nat) (s : List Char) : ∃ p, s = p ++ (marks n s).2 ∧
    List.replicate (marks n s).1 '?' = List.replicate n '?' ++ spacing p := by
  have hmark : spaced '?' = ['?'] := spaced_of_isSolid (by decide)
  fun_induction marks n s with
  | case1 n r t h ih =>
    obtain ⟨blanks, hblanks, hnone⟩ := exists_blanks r
    obtain ⟨p, hp, hmarks⟩ := ih
    refine ⟨'?' :: blanks ++ p, ?_, ?_⟩
    · rw [List.cons_append, List.cons_append, List.append_assoc, ← hp, ← h, ← hblanks]
    · rw [hmarks, List.replicate_succ']
      simp [hmark, hnone]
  | case2 n r _ h =>
    obtain ⟨blanks, hblanks, hnone⟩ := exists_blanks r
    refine ⟨'?' :: blanks, ?_, ?_⟩
    · rw [List.cons_append, ← hblanks]
    · rw [List.replicate_succ']
      simp [hmark, hnone]
  | case3 => exact ⟨[], rfl, by simp⟩
  | case4 => exact ⟨[], rfl, by simp⟩

theorem spells_reference? {s : List Char} {r : Token × List Char} (h : reference? s = some r) :
    ∃ p, s = p ++ r.2 ∧ r.1.Spells p := by
  obtain ⟨stop, hstop, rfl⟩ := Option.map_eq_some_iff.1 h
  obtain ⟨p, hp, hname⟩ :=
    exists_of_mem_stops (List.mem_reverse.1 (List.mem_of_find?_eq_some hstop))
  obtain ⟨q, hq, hmarks⟩ := exists_of_marks 0 stop.rest
  refine ⟨p ++ q, by rw [List.append_assoc, ← hq, ← hp], ?_⟩
  rw [List.nil_append] at hname
  simpa [Spells, normal, hname] using hmarks

theorem spells_readLabel (s : List Char) :
    ∃ p, s = p ++ (readLabel s).2 ∧ (readLabel s).1.Spells p := by
  unfold readLabel
  split
  · next stop hstop =>
    obtain ⟨p, hp, hname⟩ := exists_of_mem_stops (List.mem_of_getLast? hstop)
    exact ⟨p, hp, hname⟩
  · exact ⟨[], rfl, rfl⟩

theorem spells_keyword? {s t : List Char} (h : keyword? s = some t) :
    ∃ p, s = p ++ t ∧ keyword.Spells p := by
  unfold keyword? at h
  split at h
  · next r =>
    obtain ⟨blanks, hblanks, hnone⟩ := exists_blanks r
    split at h
    · next u hu =>
      obtain rfl := Option.some.inj h
      refine ⟨'f' :: 'u' :: 'n' :: blanks, by simp [← hu, ← hblanks], ?_⟩
      have hfun : spacing ['f', 'u', 'n'] = ['f', 'u', 'n'] :=
        spacing_of_isSolid (isSolid_of_all (by decide))
      have happend := spacing_append ['f', 'u', 'n'] blanks
      rw [hfun, hnone] at happend
      exact happend.symm
    · cases h
  · cases h

/-- Signs that are copied are solid. -/
theorem isSolid_of_isSymbol (h : isSymbol c = true) : isSolid c = true := by
  have hall := isSolid_of_all (s := "-!#$%*+/\\;?@^_~".toList) (by decide)
  rw [isSymbol, String.contains_char_eq] at h
  exact hall c (by simpa using h)

/-- **What a token is read from.** The text starts with a part from which the token is read, and the
rest follows it. -/
theorem exists_spells_next (hc : isBlank c = false) (r : List Char) :
    ∃ p, c :: r = p ++ (next c r).2 ∧ (next c r).1.Spells p := by
  unfold next
  split
  · next t =>
    have hdots := isSolid_of_all (s := ['.', '.', '.']) (by decide)
    exact ⟨['.', '.', '.'], rfl, (spacing_of_isSolid hdots).symm⟩
  split
  · next body t hs =>
    split at hs
    · next hq =>
      exact ⟨c :: body, congrArg (c :: ·) (eq_append_of_string? hs), rfl, c, body, rfl, hq⟩
    · cases hs
  split
  · next digits t hn =>
    have hcuts := cuts_number? hn
    refine ⟨digits, hcuts.1, ?_⟩
    exact (spacing_of_isSolid fun d hd => isSolid_of_isNumeral (hcuts.2 d hd)).symm
  split
  · next hk => exact spells_keyword? hk
  split
  · next hw =>
    cases hr : reference? (c :: r) with
    | none => exact spells_readLabel (c :: r)
    | some p => exact spells_reference? hr
  split
  · next hsep => exact ⟨[c], rfl, by simp [Spells, spaced, hc, hsep]⟩
  have hsolid : isSolid c = true := by
    next hsep => simp [isSolid, hc, hsep]
  split
  · exact ⟨[c], rfl, by simp [Spells, normal, spaced_of_isSolid hsolid]⟩
  split
  · exact ⟨_, rfl, rfl⟩
  split
  · next hsymbol =>
    have hcuts := Cuts.cons hsymbol (cuts_run isSymbol r)
    refine ⟨_, hcuts.1, ?_⟩
    exact (spacing_of_isSolid fun d hd => isSolid_of_isSymbol (hcuts.2 d hd)).symm
  · exact ⟨[c], rfl, by simp [Spells, normal, spaced_of_isSolid hsolid]⟩

end Token

/-! ### Simple texts -/

/-- No string and no arrow can arise in the text: it has no quotes, and it does not have both of the
signs that make an arrow. -/
def IsSimple (s : List Char) : Prop :=
  (∀ c ∈ s, Token.isQuote c = false) ∧ ('-' ∉ s ∨ '>' ∉ s)

instance (s : List Char) : Decidable (IsSimple s) :=
  decidable_of_iff ((s.all fun c => !Token.isQuote c) = true ∧ ('-' ∉ s ∨ '>' ∉ s))
    (by simp [IsSimple])

variable {s : List Char}

theorem IsSimple.of_subset {t : List Char} (h : IsSimple s) (ht : t ⊆ s) : IsSimple t :=
  ⟨fun c hc => h.1 c (ht hc), h.2.imp (mt (@ht _)) (mt (@ht _))⟩

/-- A token of a simple text is spaced character by character. -/
theorem IsSimple.normal_of_spells {token : Token} (h : IsSimple s) (hs : token.Spells s) :
    token.normal = spacing s := by
  cases token with
  | literal text =>
    obtain ⟨rfl, q, body, rfl, hq⟩ := hs
    rw [h.1 q List.mem_cons_self] at hq
    cases hq
  | arrow =>
    obtain rfl : s = ['-', '>'] := hs
    exact absurd h.2 (by decide)
  | _ => exact hs

/-- **A simple text is spaced character by character.** -/
theorem normalizeChars_eq_spacing (h : IsSimple s) : normalizeChars s = spacing s := by
  rw [normalizeChars]
  fun_induction Token.lex s with
  | case1 => rfl
  | case2 c r hc ih =>
    rw [ih (h.of_subset (List.subset_cons_self c r)), spacing_cons]
    simp [spaced, hc]
  | case3 c r hc token ih =>
    obtain ⟨p, hp, hspells⟩ := Token.exists_spells_next (Bool.eq_false_iff.2 hc) r
    rw [hp] at h ⊢
    rw [List.flatMap_cons, spacing_append,
      ih (h.of_subset (List.subset_append_right _ _)),
      (h.of_subset (List.subset_append_left _ _)).normal_of_spells hspells]

theorem spacing_spaced (c : Char) : spacing (spaced c) = spaced c := by
  by_cases hblank : isBlank c = true
  · simp [spaced, hblank]
  by_cases hsep : Token.isSeparator c = true
  · -- the blanks around a separator are taken away and put back
    have hspace : spaced ' ' = [] := by decide
    have hc : spaced c = (Token.separator c).normal := by simp [spaced, hblank, hsep]
    rw [hc, Token.normal]
    split <;> simp [Token.normal, *]
  · exact spacing_of_isSolid (by simp [spaced, isSolid, hblank, hsep])

/-- Spacing a text a second time changes nothing. -/
theorem spacing_spacing (s : List Char) : spacing (spacing s) = spacing s := by
  induction s with
  | nil => rfl
  | cons c s ih => rw [spacing_cons, spacing_append, spacing_spaced, ih]

/-- A normal form without quotes is spaced. -/
theorem spacing_normal {token : Token} (hs : token.Spells s)
    (h : ∀ c ∈ token.normal, Token.isQuote c = false) : spacing token.normal = token.normal := by
  cases token with
  | literal text =>
    obtain ⟨-, q, body, rfl, hq⟩ := hs
    rw [h q List.mem_cons_self] at hq
    cases hq
  | arrow => rfl
  | _ => exact hs ▸ spacing_spacing s

theorem spacing_normalizeChars (h : ∀ c ∈ normalizeChars s, Token.isQuote c = false) :
    spacing (normalizeChars s) = normalizeChars s := by
  rw [normalizeChars] at h ⊢
  fun_induction Token.lex s with
  | case1 => rfl
  | case2 c r hc ih => exact ih h
  | case3 c r hc token ih =>
    obtain ⟨p, -, hspells⟩ := Token.exists_spells_next (Bool.eq_false_iff.2 hc) r
    rw [List.flatMap_cons, List.forall_mem_append] at h
    rw [List.flatMap_cons, spacing_append, ih h.2, spacing_normal hspells h.1]

/-- A simple normal form is the normal form of itself, -/
theorem normalizeChars_of_isSimple (h : IsSimple (normalizeChars s)) :
    normalizeChars (normalizeChars s) = normalizeChars s := by
  rw [normalizeChars_eq_spacing h, spacing_normalizeChars h.1]

/-- also when it stands without the blanks at its ends. -/
theorem normalizeChars_trim (h : IsSimple (normalizeChars s)) :
    normalizeChars (trim (normalizeChars s)) = normalizeChars s := by
  rw [normalizeChars_eq_spacing (h.of_subset (trim_subset _)), spacing_trim,
    spacing_normalizeChars h.1]

end LuaDocs.TypeExpr
