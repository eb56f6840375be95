import LuaDocs.Proofs.TypeExpr.Display
import LuaDocs.Proofs.TypeExpr.Loose
import LuaDocs.Proofs.TypeExpr.Pieces
import Mathlib.Data.List.Chain

/-!
# Strings and the characters outside them

A string starts with a quote outside other strings and ends with the same quote. No token but a
string has a quote in it, except a quote that starts no string and stands alone. So the strings
of a text can be found character by character, without reading the other tokens: a text is a
sequence of items, which are strings and characters outside them.

As long as a text has no arrows, its items are enough to normalize it: strings are copied, and the
characters outside strings are spaced one by one.
-/

namespace LuaDocs.TypeExpr

open Text

variable {c : Char} {s r : List Char}

/-! ### Items -/

/-- A character outside strings, or a string with its quotes. -/
inductive Item where
  /-- A character outside strings. -/
  | char (c : Char)
  /-- A string, quotes included. -/
  | string (text : List Char)
  deriving DecidableEq, Repr

/-- How an item is shown: a string as it is, and a character spaced. -/
def Item.spaced : Item → List Char
  | .char c => TypeExpr.spaced c
  | .string text => text

/-- The strings of a text and the characters outside them. -/
def items (s : List Char) : List Item :=
  match s with
  | [] => []
  | c :: r =>
    match _h : if Token.isQuote c then Token.string? c r else none with
    | some (body, t) => .string (c :: body) :: items t
    | none => .char c :: items r
termination_by s.length
decreasing_by
  · split at _h
    · have := Token.length_string?_snd_le _h
      simp only [List.length_cons]
      omega
    · cases _h
  · simp

/-- The text with the characters outside its strings spaced one by one. -/
def outerSpacing (s : List Char) : List Char := (items s).flatMap Item.spaced

@[simp] theorem items_nil : items [] = [] := by rw [items]

theorem items_of_string? {body t : List Char} (hc : Token.isQuote c = true)
    (h : Token.string? c r = some (body, t)) : items (c :: r) = .string (c :: body) :: items t := by
  rw [items]
  split
  · next heq =>
    rw [if_pos hc, h] at heq
    cases heq
    rfl
  · next heq =>
    rw [if_pos hc, h] at heq
    cases heq

theorem items_of_char (h : Token.isQuote c = true → Token.string? c r = none) :
    items (c :: r) = .char c :: items r := by
  rw [items]
  split
  · next heq =>
    split at heq
    · next hc =>
      rw [h hc] at heq
      cases heq
    · cases heq
  · rfl

/-- The characters of a text without quotes are its items. -/
theorem items_append (h : ∀ c ∈ s, Token.isQuote c = false) (t : List Char) :
    items (s ++ t) = s.map .char ++ items t := by
  induction s with
  | nil => rfl
  | cons c s ih =>
    rw [List.forall_mem_cons] at h
    have hc : Token.isQuote c = true → Token.string? c (s ++ t) = none := fun hquote => by
      rw [h.1] at hquote
      cases hquote
    rw [List.cons_append, items_of_char hc, ih h.2, List.map_cons, List.cons_append]

theorem flatMap_spaced_map_char (s : List Char) :
    (s.map Item.char).flatMap Item.spaced = spacing s :=
  List.flatMap_map ..

namespace Token

/-! ### The characters of tokens -/

/-- The token is a string. -/
def isLiteral : Token → Bool
  | .literal _ => true
  | _ => false

/-- A character that is no blank and has no part in names, numbers, separators and signs. -/
def isForeign (c : Char) : Bool :=
  !isBlank c && !isNameChar c && !isNumeral c && !isSeparator c && !isSymbol c

/-- No token but a string has a foreign character in it, unless it is this character. -/
theorem eq_of_mem_normal {d : Char} (hd : isForeign d = true)
    (h : d ∈ (next c r).1.normal) : (next c r).1.isLiteral = true ∨
      d = c ∧ (next c r).1 = if isBracket c then .bracket c else .other c := by
  simp only [isForeign, Bool.and_eq_true, Bool.not_eq_true'] at hd
  obtain ⟨⟨⟨⟨hblank, hname⟩, hnumeral⟩, hseparator⟩, hsymbol⟩ := hd
  have hne {p : Char → Bool} {e : Char} (hp : p d = false) (he : p e = true) : d ≠ e := by
    rintro rfl
    rw [hp] at he
    cases he
  have hdot : d ≠ '.' := hne hnumeral (by decide)
  have hdotted : ∀ {name : List Char}, (∀ e ∈ name, isNameChar e = true ∨ e = '.') → d ∉ name := by
    intro name hchars hmem
    rcases hchars d hmem with hchar | heq
    · exact hne hname hchar rfl
    · exact hdot heq
  revert h
  unfold next
  split
  · intro h
    simp [normal, hdot] at h
  split
  · exact fun _ => .inl rfl
  split
  · next digits t hn => exact fun h => absurd rfl (hne hnumeral ((cuts_number? hn).2 d h))
  split
  · intro h
    have hword : ∀ e ∈ keyword.normal, isNameChar e = true :=
      List.all_eq_true.1 (by decide +kernel)
    exact absurd rfl (hne hname (hword d h))
  split
  · next hw =>
    intro h
    cases hr : reference? (c :: r) with
    | none =>
      rw [hr, Option.getD_none, readLabel] at h
      split at h
      · next stop hstop =>
        obtain ⟨more, hmore, hchars⟩ := exists_name_of_mem_stops (List.mem_of_getLast? hstop)
        refine absurd h (hdotted ?_)
        rw [hmore, List.nil_append]
        exact List.forall_mem_append.2 ⟨fun e he => .inl (isNameChar_of_mem_takeWhile he), hchars⟩
      · cases h
    | some p =>
      rw [hr, Option.getD_some] at h
      obtain ⟨stop, -, rfl⟩ := Option.map_eq_some_iff.1 hr
      have hchars := (isDotted_of_reference? hw hr rfl).chars
      rcases List.mem_append.1 h with h | h
      · exact absurd h (hdotted hchars)
      · exact absurd (List.eq_of_mem_replicate h) (hne hsymbol (by simp [isSymbol]))
  split
  · next hsep =>
    intro h
    have hspace : d ≠ ' ' := hne hblank (by decide)
    have hc : d ≠ c := hne hseparator hsep
    simp only [normal] at h
    split at h <;> simp [hspace, hc] at h
  split
  · exact fun h => .inr ⟨List.mem_singleton.1 h, rfl⟩
  split
  · intro h
    have harrow : ∀ e ∈ arrow.normal, (isBlank e || isSeparator e) = true :=
      List.all_eq_true.1 (by decide)
    have hsign := harrow d h
    rw [hblank, hseparator] at hsign
    cases hsign
  split
  · next hsymbolic =>
    intro h
    have hcuts := Cuts.cons hsymbolic (cuts_run isSymbol r)
    exact absurd rfl (hne hsymbol (hcuts.2 d h))
  · exact fun h => .inr ⟨List.mem_singleton.1 h, rfl⟩

theorem isForeign_of_isQuote (h : isQuote c = true) : isForeign c = true := by
  simp only [isQuote, Bool.or_eq_true, beq_iff_eq] at h
  rcases h with (rfl | rfl) | rfl <;> simp [isForeign, isSymbol] <;> decide +kernel

theorem isStray_of_isQuote (h : isQuote c = true) : isStray c = true := by
  simp only [isQuote, Bool.or_eq_true, beq_iff_eq] at h
  rcases h with (rfl | rfl) | rfl <;> simp [isStray, isSymbol] <;> decide +kernel

theorem spacing_eq_normal {token : Token} {p : List Char} (h : token.Spells p)
    (hliteral : token.isLiteral = false) (harrow : token ≠ .arrow) : spacing p = token.normal := by
  cases token with
  | literal text => cases hliteral
  | arrow => exact absurd rfl harrow
  | _ => exact h.symm

theorem isSolid_of_isQuote (h : isQuote c = true) : isSolid c = true := by
  simp only [isQuote, Bool.or_eq_true, beq_iff_eq] at h
  rcases h with (rfl | rfl) | rfl <;> decide

theorem isQuote_of_isBlank (h : isBlank c = true) : isQuote c = false := by
  rw [Bool.eq_false_iff]
  intro hquote
  have hsolid := isSolid_of_isQuote hquote
  simp [isSolid, h] at hsolid

theorem mem_spacing (hc : isSolid c = true) (h : c ∈ s) :
    c ∈ spacing s :=
  List.mem_flatMap.2 ⟨c, h, by rw [spaced_of_isSolid hc]; exact List.mem_singleton_self c⟩

/-- **A token is a string, a quote that starts no string, or has no quotes in it.** -/
theorem next_cases (hc : isBlank c = false) (r : List Char) :
    (∃ body rest, isQuote c = true ∧ string? c r = some (body, rest) ∧
      next c r = (.literal (c :: body), rest)) ∨
    (isQuote c = true ∧ string? c r = none ∧ next c r = (.other c, r)) ∨
    ∃ p, c :: r = p ++ (next c r).2 ∧ (next c r).1.Spells p ∧ (next c r).1.isLiteral = false ∧
      (∀ d ∈ p, isQuote d = false) ∧ ∀ d ∈ (next c r).1.normal, isQuote d = false := by
  by_cases hquote : isQuote c = true
  · have hdot : c ≠ '.' := by
      rintro rfl
      exact absurd hquote (by decide)
    cases hstring : string? c r with
    | none =>
      exact .inr (.inl ⟨hquote, rfl,
        next_of_string?_eq_none (isStray_of_isQuote hquote) hdot fun _ => hstring⟩)
    | some p =>
      refine .inl ⟨p.1, p.2, hquote, rfl, ?_⟩
      unfold next
      split
      · exact absurd rfl hdot
      · rw [if_pos hquote, hstring]
  · refine .inr (.inr ?_)
    obtain ⟨p, hp, hspells⟩ := exists_spells_next hc r
    have hliteral : (next c r).1.isLiteral = false := by
      cases htoken : (next c r).1 with
      | literal text =>
        rw [htoken] at hspells
        obtain ⟨rfl, q, body, rfl, hq⟩ := hspells
        obtain ⟨rfl, -⟩ := List.cons.inj hp
        exact absurd hq hquote
      | _ => rfl
    have hnormal : ∀ d ∈ (next c r).1.normal, isQuote d = false := fun d hd =>
      Bool.eq_false_iff.2 fun hq => by
        rcases eq_of_mem_normal (isForeign_of_isQuote hq) hd with h | ⟨rfl, -⟩
        · rw [hliteral] at h
          cases h
        · exact hquote hq
    refine ⟨p, hp, hspells, hliteral, fun d hd => Bool.eq_false_iff.2 fun hq => ?_, hnormal⟩
    by_cases harrow : (next c r).1 = .arrow
    · rw [harrow] at hspells
      obtain rfl : p = ['-', '>'] := hspells
      have hsigns : ∀ e ∈ ['-', '>'], (!isQuote e) = true := List.all_eq_true.1 (by decide)
      have hsign := hsigns d hd
      rw [hq] at hsign
      cases hsign
    · have hspacing := spacing_eq_normal hspells hliteral harrow
      have hd' := hnormal d (hspacing ▸ mem_spacing (isSolid_of_isQuote hq) hd)
      rw [hq] at hd'
      cases hd'

end Token

/-! ### Reading items -/

/-- The items of a token: one string, or the characters from which it is read. -/
theorem items_next (hc : isBlank c = false) (r : List Char) :
    (∃ text, (Token.next c r).1 = .literal text ∧
      items (c :: r) = .string text :: items (Token.next c r).2) ∨
    ∃ p, (Token.next c r).1.isLiteral = false ∧ (Token.next c r).1.Spells p ∧
      items (c :: r) = p.map .char ++ items (Token.next c r).2 := by
  rcases Token.next_cases hc r with ⟨body, rest, hquote, hstring, hnext⟩ |
    ⟨hquote, hstring, hnext⟩ | ⟨p, hp, hspells, hliteral, hquotes, -⟩
  · rw [hnext]
    exact .inl ⟨c :: body, rfl, items_of_string? hquote hstring⟩
  · rw [hnext]
    refine .inr ⟨[c], rfl, ?_, items_of_char fun _ => hstring⟩
    have hsolid : ∀ d ∈ [c], isSolid d = true := by simpa using Token.isSolid_of_isQuote hquote
    exact (spacing_of_isSolid hsolid).symm
  · exact .inr ⟨p, hliteral, hspells, by rw [← items_append hquotes, ← hp]⟩

theorem lex_cons (hc : isBlank c = false) (r : List Char) :
    Token.lex (c :: r) = (Token.next c r).1 :: Token.lex (Token.next c r).2 := by
  rw [Token.lex, if_neg (by simp [hc])]

theorem normalizeChars_nil : normalizeChars [] = [] := by
  rw [normalizeChars, Token.lex, List.flatMap_nil]

theorem normalizeChars_blank (hc : isBlank c = true) (r : List Char) :
    normalizeChars (c :: r) = normalizeChars r := by
  rw [normalizeChars, Token.lex, if_pos hc, normalizeChars]

theorem normalizeChars_cons (hc : isBlank c = false) (r : List Char) :
    normalizeChars (c :: r) =
      (Token.next c r).1.normal ++ normalizeChars (Token.next c r).2 := by
  rw [normalizeChars, lex_cons hc, List.flatMap_cons, normalizeChars]

theorem items_blank (hc : isBlank c = true) (r : List Char) :
    items (c :: r) = .char c :: items r :=
  items_of_char fun hquote => by
    rw [Token.isQuote_of_isBlank hc] at hquote
    cases hquote

/-- **A text without arrows is normalized by spacing the characters outside its strings.** -/
theorem normalizeChars_eq_outerSpacing (h : .arrow ∉ Token.lex s) :
    normalizeChars s = outerSpacing s := by
  rw [normalizeChars, outerSpacing]
  fun_induction Token.lex s with
  | case1 => rw [items_nil]; rfl
  | case2 c r hc ih =>
    rw [ih h, items_blank hc, List.flatMap_cons]
    simp [Item.spaced, spaced, hc]
  | case3 c r hc token ih =>
    rw [List.mem_cons, not_or] at h
    rw [List.flatMap_cons, ih h.2]
    rcases items_next (Bool.eq_false_iff.2 hc) r with ⟨text, htoken, hitems⟩ |
      ⟨p, hliteral, hspells, hitems⟩
    · rw [hitems, List.flatMap_cons]
      exact congrArg (· ++ _) (congrArg Token.normal htoken)
    · rw [hitems, List.flatMap_append, flatMap_spaced_map_char,
        Token.spacing_eq_normal hspells hliteral (Ne.symm h.1)]

/-- The two items are not the two signs of an arrow. -/
def Item.Apart (a b : Item) : Prop := ¬ (a = .char '-' ∧ b = .char '>')

/-- An arrow is read from two characters outside strings that follow each other. -/
theorem arrow_not_mem_lex (h : (items s).IsChain Item.Apart) :
    .arrow ∉ Token.lex s := by
  fun_induction Token.lex s with
  | case1 => exact List.not_mem_nil
  | case2 c r hc ih =>
    rw [items_blank hc] at h
    exact ih h.tail
  | case3 c r hc token ih =>
    rw [List.mem_cons, not_or]
    rcases items_next (Bool.eq_false_iff.2 hc) r with ⟨text, htoken, hitems⟩ |
      ⟨p, hliteral, hspells, hitems⟩
    · rw [hitems] at h
      refine ⟨fun harrow => ?_, ih h.tail⟩
      cases harrow.trans htoken
    · rw [hitems] at h
      refine ⟨fun harrow => ?_, ih h.right_of_append⟩
      rw [← harrow] at hspells
      obtain rfl : p = ['-', '>'] := hspells
      exact (List.isChain_cons_cons.1 h).1 ⟨rfl, rfl⟩

end LuaDocs.TypeExpr
