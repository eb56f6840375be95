import LuaDocs.Proofs.TypeExpr.Strings

/-!
# Normalizing twice

A normal form can be normalized again, and this is done to names with keys whenever they are looked
up. Two things can go wrong. The signs of an arrow, of which the first ended a token, are put
together when the blanks between them go: `- >` is not an arrow, but `->` is. And a backslash that
stood before a line end, where it keeps a string from being one, comes to stand before something
else, so that a string is found where there was none.

A quote after which no backslash stands at the end of a line is harmless. If the rest of the text
has no end for it, but the rest of the normal form has, then this end was another quote that started
no string: the string that is found covers whole tokens, and reading goes on between two tokens.
That is because a backslash takes one character with it, so that the search for an end is between
two characters again after each quote, whatever stood before it.

## Main results

* `TypeExpr.Token.exists_of_afterString?`: where a string that is found ends
* `TypeExpr.reread_lex`: the items of the normal form of an unbroken text
* `TypeExpr.normalize_normalize_iff`: when normalizing a second time changes nothing
-/

namespace LuaDocs.TypeExpr

open Text

namespace Token

/-! ### The end of a string -/

variable {q c : Char} {s t : List Char} {e : Bool}

theorem string?_cons (hne : c ≠ q) (hslash : c ≠ '\\') :
    string? q (c :: s) = (string? q s).map fun p => (c :: p.1, p.2) := by
  rw [string?, if_neg (by simpa using hne), if_neg (by simpa using hslash)]
  rintro d r rfl
  exact absurd rfl hslash

theorem string?_escape (hline : c ≠ '\n') :
    string? q ('\\' :: c :: s) = (string? q s).map fun p => ('\\' :: c :: p.1, p.2) := by
  rw [string?, if_neg (by simpa using hline)]

theorem string?_quote (hslash : q ≠ '\\') : string? q (q :: s) = some ([q], s) := by
  rw [string?, if_pos (by simp)]
  rintro d r rfl
  exact absurd rfl hslash

/-- What follows a string does not matter to it. -/
theorem string?_append {a b : List Char} (hslash : q ≠ '\\') (h : string? q s = some (a, b))
    (t : List Char) : string? q (a ++ t) = some (a, t) := by
  fun_induction string? q s generalizing a with
  | case1 => cases h
  | case2 => cases h
  | case3 c r hline ih =>
    obtain ⟨p, hp, hpair⟩ := Option.map_eq_some_iff.1 h
    obtain ⟨rfl, rfl⟩ := Prod.mk.inj hpair
    rw [List.cons_append, List.cons_append, string?_escape (by simpa using hline), ih hp]
    rfl
  | case4 c r _ hc =>
    obtain ⟨rfl, rfl⟩ := Prod.mk.inj (Option.some.inj h)
    obtain rfl : c = q := by simpa using hc
    exact string?_quote hslash
  | case5 => cases h
  | case6 c r _ hc hslash' ih =>
    obtain ⟨p, hp, hpair⟩ := Option.map_eq_some_iff.1 h
    obtain ⟨rfl, rfl⟩ := Prod.mk.inj hpair
    rw [List.cons_append, string?_cons (by simpa using hc) (by simpa using hslash'), ih hp]
    rfl

/-- The text after the first end of a string with the quote `q`. -/
def afterString? (q : Char) (s : List Char) : Option (List Char) := (string? q s).map Prod.snd

/-- A backslash that takes the next character with it, if `e` is set. -/
def pending (e : Bool) : List Char := if e then ['\\'] else []

/-- A character that does not end the string is passed; it takes the next one with it if it is a
backslash that was not taken itself. -/
theorem afterString?_pending (hc : c = q → e = true) (hline : e = true → c ≠ '\n') :
    afterString? q (pending e ++ c :: s) = afterString? q (pending (!e && c == '\\') ++ s) := by
  cases e with
  | false =>
    by_cases hslash : c = '\\'
    · subst hslash
      rfl
    · have hne : c ≠ q := fun heq => Bool.false_ne_true (hc heq)
      have htaken : (!false && c == '\\') = false := by simpa using hslash
      rw [htaken, pending, if_neg Bool.false_ne_true, List.nil_append, List.nil_append,
        afterString?, string?_cons hne hslash, Option.map_map]
      rfl
  | true =>
    have hpair : pending true ++ c :: s = '\\' :: c :: s := rfl
    rw [hpair, afterString?, string?_escape (hline rfl), Option.map_map]
    rfl

theorem slash_ne_of_isQuote (hq : isQuote q = true) : q ≠ '\\' := by
  rintro rfl
  exact absurd hq (by decide)

theorem ne_of_isQuote (hq : isQuote q = true) (hc : isQuote c = false) : c ≠ q := by
  rintro rfl
  rw [hq] at hc
  cases hc

/-- No character is taken by a quote. -/
theorem afterString?_of_isQuote (hquote : isQuote c = true) (hc : c = q → e = true) :
    afterString? q (pending e ++ c :: s) = afterString? q s := by
  have hline : e = true → c ≠ '\n' := by
    rintro - rfl
    exact absurd hquote (by decide)
  have htaken : (!e && c == '\\') = false := by simp [slash_ne_of_isQuote hquote]
  rw [afterString?_pending hc hline, htaken]
  rfl

theorem afterString?_quote (hq : isQuote q = true) : afterString? q (q :: s) = some s := by
  rw [afterString?, string?_quote (slash_ne_of_isQuote hq)]
  rfl

/-- The search for another quote passes a string that it finds no end in. -/
theorem afterString?_body {q' : Char} {a b : List Char} (hq' : isQuote q' = true) (hne : q' ≠ q)
    (hq : isQuote q = true) (hstring : string? q' s = some (a, b)) (hnone : afterString? q s = none)
    (t : List Char) : afterString? q (a ++ t) = afterString? q t := by
  fun_induction string? q' s generalizing a with
  | case1 => cases hstring
  | case2 => cases hstring
  | case3 c r hline ih =>
    obtain ⟨p, hp, hpair⟩ := Option.map_eq_some_iff.1 hstring
    obtain ⟨rfl, rfl⟩ := Prod.mk.inj hpair
    have hpass (s : List Char) : afterString? q ('\\' :: c :: s) = afterString? q s :=
      afterString?_pending (e := true) (fun _ => rfl) fun _ => by simpa using hline
    rw [hpass] at hnone
    exact (hpass _).trans (ih hp hnone)
  | case4 c r _ hc =>
    obtain ⟨rfl, rfl⟩ := Prod.mk.inj (Option.some.inj hstring)
    obtain rfl : c = q' := by simpa using hc
    exact afterString?_of_isQuote (e := false) hq' fun heq => absurd heq hne
  | case5 => cases hstring
  | case6 c r _ hc hslash ih =>
    obtain ⟨p, hp, hpair⟩ := Option.map_eq_some_iff.1 hstring
    obtain ⟨rfl, rfl⟩ := Prod.mk.inj hpair
    have hcq : c ≠ q := by
      rintro rfl
      cases (afterString?_quote hq).symm.trans hnone
    have htaken : (!false && c == '\\') = false := by simpa using hslash
    have hpass (s : List Char) : afterString? q (c :: s) = afterString? q s := by
      have h := afterString?_pending (e := false) (s := s) (fun heq => absurd heq hcq)
        fun heq => absurd heq Bool.false_ne_true
      rw [htaken] at h
      exact h
    rw [hpass] at hnone
    exact (hpass _).trans (ih hp hnone)

/-! ### Unbroken texts -/

/-- A backslash stands at the end of a line. -/
def EscapesLine (s : List Char) : Prop := ['\\', '\n'] <:+: s

theorem EscapesLine.of_suffix (h : EscapesLine s) (hsuffix : s <:+ t) : EscapesLine t :=
  List.IsInfix.trans h hsuffix.isInfix

theorem pending_suffix : pending (!e && c == '\\') ++ s <:+ pending e ++ c :: s := by
  cases e with
  | false =>
    by_cases hslash : c = '\\'
    · exact ⟨[], by rw [hslash]; rfl⟩
    · have htaken : (!false && c == '\\') = false := by simpa using hslash
      rw [htaken]
      exact List.suffix_cons c s
  | true => exact ⟨['\\', c], rfl⟩

/-- A text without quotes is passed: nothing in it ends a string. -/
theorem exists_pending {u : List Char} (hq : isQuote q = true) (hu : ∀ c ∈ u, isQuote c = false)
    (h : ¬ EscapesLine (pending e ++ (u ++ s))) :
    ∃ e', afterString? q (pending e ++ (u ++ s)) = afterString? q (pending e' ++ s) ∧
      ¬ EscapesLine (pending e' ++ s) := by
  induction u generalizing e with
  | nil => exact ⟨e, rfl, h⟩
  | cons c u ih =>
    rw [List.forall_mem_cons] at hu
    have hc : c = q → e = true := fun heq => absurd heq (ne_of_isQuote hq hu.1)
    have hline : e = true → c ≠ '\n' := by
      rintro rfl rfl
      exact h ⟨[], u ++ s, rfl⟩
    obtain ⟨e', heq, he'⟩ := ih hu.2 fun hbreak => h (hbreak.of_suffix pending_suffix)
    exact ⟨e', (afterString?_pending hc hline).trans heq, he'⟩

/-- Where an end is found, it is found after a text without quotes. -/
theorem exists_pending_of_some {u : List Char} (hq : isQuote q = true)
    (hu : ∀ c ∈ u, isQuote c = false) (h : afterString? q (pending e ++ (u ++ s)) = some t) :
    ∃ e', afterString? q (pending e' ++ s) = some t := by
  induction u generalizing e with
  | nil => exact ⟨e, h⟩
  | cons c u ih =>
    rw [List.forall_mem_cons] at hu
    have hc : c = q → e = true := fun heq => absurd heq (ne_of_isQuote hq hu.1)
    have hline : e = true → c ≠ '\n' := by
      rintro rfl rfl
      cases h
    exact ih hu.2 ((afterString?_pending hc hline).symm.trans h)

/-- A quote after which no end is found is passed. -/
theorem afterString?_eq_none_of_isQuote (hq : isQuote q = true) (hquote : isQuote c = true)
    (h : afterString? q (pending e ++ c :: s) = none) :
    (c = q → e = true) ∧ afterString? q s = none := by
  have hpass : c = q → e = true := by
    rintro rfl
    cases e with
    | false => cases (afterString?_quote hq).symm.trans h
    | true => rfl
  exact ⟨hpass, (afterString?_of_isQuote hquote hpass).symm.trans h⟩

theorem afterString?_pending_nil (hq : isQuote q = true) (e : Bool) :
    afterString? q (pending e ++ []) = none := by
  have hslash : '\\' ≠ q := (slash_ne_of_isQuote hq).symm
  cases e <;> simp [afterString?, pending, string?, hslash]

/-- **Where a string that is found in a normal form ends.** If there is no end in the text, the end
that is found in its normal form is a quote that starts no string. -/
theorem exists_of_afterString? {r : List Char} {f : Bool} (hq : isQuote q = true)
    (hnone : afterString? q (pending e ++ r) = none) (hbreak : ¬ EscapesLine (pending e ++ r))
    (hsome : afterString? q (pending f ++ normalizeChars r) = some t) :
    ∃ before r', lex r = before ++ .other q :: lex r' ∧ r' <:+ r ∧ t = normalizeChars r' := by
  -- the searches in the text and in its normal form may take different characters with backslashes,
  -- and agree again after each quote
  induction hlength : r.length using Nat.strongRecOn generalizing r e f with
  | _ n ih =>
  subst hlength
  cases r with
  | nil =>
    rw [normalizeChars_nil, afterString?_pending_nil hq] at hsome
    cases hsome
  | cons c r =>
    have hsuffix : r <:+ c :: r := List.suffix_cons c r
    by_cases hblank : isBlank c = true
    · have hplain : ∀ d ∈ [c], isQuote d = false := fun d hd => by
        rw [List.mem_singleton.1 hd]
        exact isQuote_of_isBlank hblank
      obtain ⟨e₁, heq, hbreak₁⟩ := exists_pending (u := [c]) hq hplain hbreak
      rw [normalizeChars_blank hblank] at hsome
      obtain ⟨before, r', hlex, hr', ht⟩ :=
        ih r.length (Nat.lt_succ_self _) (heq.symm.trans hnone) hbreak₁ hsome rfl
      exact ⟨before, r', by rw [lex, if_pos hblank, hlex], hr'.trans hsuffix, ht⟩
    rw [Bool.not_eq_true] at hblank
    rw [normalizeChars_cons hblank] at hsome
    rw [lex_cons hblank]
    have hle := length_next_snd_le c r
    have hinner : ¬ EscapesLine r := fun h =>
      hbreak (h.of_suffix (hsuffix.trans (List.suffix_append _ _)))
    rcases next_cases hblank r with ⟨body, rest, hquote, hstring, hnext⟩ |
      ⟨hquote, hstring, hnext⟩ | ⟨p, hp, -, -, hquotes, hnormal⟩
    · -- a string in other quotes, which is the same in the normal form
      rw [hnext] at hsome hle ⊢
      obtain ⟨-, hafter⟩ := afterString?_eq_none_of_isQuote hq hquote hnone
      have hr : r = body ++ rest := eq_append_of_string? hstring
      have hne : c ≠ q := by
        rintro rfl
        rw [afterString?, hstring] at hafter
        cases hafter
      have hbody := afterString?_body hquote hne hq hstring hafter
      have hrest : rest <:+ r := hr ▸ List.suffix_append _ _
      have hfound : afterString? q (normalizeChars rest) = some t := by
        rw [← hbody, ← hsome]
        exact (afterString?_of_isQuote hquote fun heq => absurd heq hne).symm
      rw [hr, hbody] at hafter
      obtain ⟨before, r', hlex, hr', ht⟩ := ih rest.length (Nat.lt_succ_of_le hle)
        (e := false) (f := false) hafter (fun h => hinner (h.of_suffix hrest)) hfound rfl
      exact ⟨_ :: before, r', by rw [hlex]; rfl, hr'.trans (hrest.trans hsuffix), ht⟩
    · -- a quote that starts no string
      rw [hnext] at hsome ⊢
      obtain ⟨-, hafter⟩ := afterString?_eq_none_of_isQuote hq hquote hnone
      by_cases hend : c = q ∧ f = false
      · obtain ⟨rfl, rfl⟩ := hend
        have ht := Option.some.inj ((afterString?_quote hq).symm.trans hsome)
        exact ⟨[], r, rfl, hsuffix, ht.symm⟩
      · have hpass : c = q → f = true := fun heq => by simpa [heq] using hend
        obtain ⟨before, r', hlex, hr', ht⟩ := ih r.length (Nat.lt_succ_self _)
          (e := false) (f := false) hafter hinner
          ((afterString?_of_isQuote hquote hpass).symm.trans hsome) rfl
        exact ⟨_ :: before, r', by rw [hlex]; rfl, hr'.trans hsuffix, ht⟩
    · -- a token without quotes
      rw [hp] at hnone hbreak
      obtain ⟨e₁, heq, hbreak₁⟩ := exists_pending hq hquotes hbreak
      obtain ⟨e₂, hfound⟩ := exists_pending_of_some hq hnormal hsome
      obtain ⟨before, r', hlex, hr', ht⟩ := ih (next c r).2.length (Nat.lt_succ_of_le hle)
        (heq.symm.trans hnone) hbreak₁ hfound rfl
      exact ⟨_ :: before, r', by rw [hlex]; rfl, hr'.trans (hp ▸ List.suffix_append _ _), ht⟩

end Token

/-- No backslash stands at the end of a line after a quote. -/
def Unbroken (s : List Char) : Prop :=
  ∀ q r, q :: r <:+ s → Token.isQuote q = true → ¬ Token.EscapesLine r

theorem Unbroken.of_suffix {s t : List Char} (h : Unbroken t) (hsuffix : s <:+ t) : Unbroken s :=
  fun q r hr => h q r (hr.trans hsuffix)

/-! ### The items of a normal form -/

/-- How the items of a normal form come from tokens: strings are read again, other tokens come apart
into their characters, or what stands between two equal quotes that start no strings is a string. -/
inductive Reread : List Token → List Item → Prop
  | nil : Reread [] []
  | chars {token : Token} {tokens : List Token} {items : List Item}
      (hliteral : token.isLiteral = false) (rest : Reread tokens items) :
      Reread (token :: tokens) (token.normal.map .char ++ items)
  | literal {text : List Char} {tokens : List Token} {items : List Item}
      (rest : Reread tokens items) : Reread (.literal text :: tokens) (.string text :: items)
  | quoted {q : Char} {between tokens : List Token} {items : List Item}
      (rest : Reread tokens items) :
      Reread (.other q :: (between ++ .other q :: tokens))
        (.string (q :: (between.flatMap Token.normal ++ [q])) :: items)

/-- **The items of the normal form of an unbroken text.** -/
theorem reread_lex {s : List Char} (h : Unbroken s) :
    Reread (Token.lex s) (items (normalizeChars s)) := by
  induction hlength : s.length using Nat.strongRecOn generalizing s with
  | _ n ih =>
  subst hlength
  cases s with
  | nil =>
    rw [normalizeChars_nil, items_nil, Token.lex]
    exact .nil
  | cons c r =>
    have hsuffix : r <:+ c :: r := List.suffix_cons c r
    by_cases hblank : isBlank c = true
    · rw [normalizeChars_blank hblank, Token.lex, if_pos hblank]
      exact ih r.length (Nat.lt_succ_self _) (h.of_suffix hsuffix) rfl
    rw [Bool.not_eq_true] at hblank
    have hle := Token.length_next_snd_le c r
    rw [normalizeChars_cons hblank, lex_cons hblank]
    rcases Token.next_cases hblank r with ⟨body, rest, hquote, hstring, hnext⟩ |
      ⟨hquote, hstring, hnext⟩ | ⟨p, hp, -, hliteral, -, hnormal⟩
    · have hrest : rest <:+ r := ⟨body, (Token.eq_append_of_string? hstring).symm⟩
      rw [hnext] at hle ⊢
      have hagain := Token.string?_append (Token.slash_ne_of_isQuote hquote) hstring
        (normalizeChars rest)
      have hitems : items (c :: body ++ normalizeChars rest) =
          .string (c :: body) :: items (normalizeChars rest) := items_of_string? hquote hagain
      rw [Token.normal, hitems]
      exact .literal (ih rest.length (Nat.lt_succ_of_le hle)
        (h.of_suffix (hrest.trans hsuffix)) rfl)
    · rw [hnext]
      cases hfound : Token.string? c (normalizeChars r) with
      | none =>
        have hitems : items ([c] ++ normalizeChars r) = .char c :: items (normalizeChars r) :=
          items_of_char fun _ => hfound
        rw [Token.normal, hitems]
        exact .chars rfl (ih r.length (Nat.lt_succ_self _) (h.of_suffix hsuffix) rfl)
      | some found =>
        obtain ⟨body, t⟩ := found
        have hnone : Token.afterString? c r = none := by rw [Token.afterString?, hstring]; rfl
        have hsome : Token.afterString? c (normalizeChars r) = some t := by
          rw [Token.afterString?, hfound]
          rfl
        have hline : ¬ Token.EscapesLine r := h c r (List.suffix_refl _) hquote
        obtain ⟨between, r', hlex, hr', rfl⟩ :=
          Token.exists_of_afterString? (e := false) (f := false) hquote hnone hline hsome
        have hbody : body = between.flatMap Token.normal ++ [c] := by
          have hsplit : normalizeChars r = body ++ normalizeChars r' :=
            Token.eq_append_of_string? hfound
          have hnormal : normalizeChars r =
              between.flatMap Token.normal ++ [c] ++ normalizeChars r' := by
            rw [normalizeChars, hlex]
            simp [normalizeChars, Token.normal]
          exact List.append_cancel_right (hsplit.symm.trans hnormal)
        have hitems : items ([c] ++ normalizeChars r) =
            .string (c :: body) :: items (normalizeChars r') := items_of_string? hquote hfound
        rw [Token.normal, hitems, hlex, hbody]
        exact .quoted (ih r'.length (Nat.lt_succ_of_le hr'.length_le)
          (h.of_suffix (hr'.trans hsuffix)) rfl)
    · rw [items_append hnormal]
      exact .chars hliteral (ih (Token.next c r).2.length (Nat.lt_succ_of_le hle)
        (h.of_suffix (hp ▸ List.suffix_append _ _)) rfl)

/-! ### Tokens of a text -/

namespace Token

/-- Two tokens that cannot make an arrow: the first does not end with a minus sign, or the second is
not an angle bracket. -/
def Apart (a b : Token) : Prop := ¬ (a.normal.getLast? = some '-' ∧ b = .bracket '>')

instance (a b : Token) : Decidable (Apart a b) := inferInstanceAs (Decidable (¬ _))

/-- What is true of the tokens of every text. -/
structure Regular (token : Token) : Prop where
  spaced : token.isLiteral = false → spacing token.normal = token.normal
  shown : token.normal ≠ []
  /-- An angle bracket outside strings is a token. -/
  angle : '>' ∈ token.normal → token.isLiteral = false → token = .bracket '>'

theorem spaced_ne_nil {c : Char} (hc : isBlank c = false) : spaced c ≠ [] := by
  rw [spaced, if_neg (by simp [hc])]
  split
  · rw [normal]
    split <;> simp
  · simp

theorem normal_next_ne_nil {c : Char} (hc : isBlank c = false) (r : List Char) :
    (next c r).1.normal ≠ [] := by
  obtain ⟨p, hp, hspells⟩ := exists_spells_next hc r
  have hle := length_next_snd_le c r
  cases p with
  | nil =>
    have hlength := congrArg List.length hp
    simp only [List.nil_append, List.length_cons] at hlength
    omega
  | cons d p =>
    obtain ⟨rfl, -⟩ := List.cons.inj hp
    cases htoken : (next c r).1 with
    | literal text =>
      rw [htoken] at hspells
      rw [normal, ← hspells.1]
      exact List.cons_ne_nil _ _
    | arrow => exact List.cons_ne_nil _ _
    | _ =>
      rw [htoken] at hspells
      have hspacing : Token.normal _ = spacing (c :: p) := hspells
      rw [hspacing, spacing_cons]
      exact fun hnil => spaced_ne_nil hc (List.append_eq_nil_iff.1 hnil).1

theorem regular_next {c : Char} (hc : isBlank c = false) (r : List Char) :
    (next c r).1.Regular := by
  obtain ⟨p, hp, hspells⟩ := exists_spells_next hc r
  refine ⟨fun hliteral => ?_, normal_next_ne_nil hc r, fun hangle hliteral => ?_⟩
  · by_cases harrow : (next c r).1 = .arrow
    · rw [harrow]
      rfl
    · rw [← spacing_eq_normal hspells hliteral harrow, spacing_spacing]
  · have hforeign : isForeign '>' = true := by simp [isForeign, isSymbol]; decide +kernel
    rcases eq_of_mem_normal hforeign hangle with h | ⟨rfl, h⟩
    · rw [hliteral] at h
      cases h
    · exact h

theorem regular_of_mem_lex {s : List Char} {token : Token} (h : token ∈ lex s) :
    token.Regular := by
  fun_induction lex s with
  | case1 => cases h
  | case2 c r hc ih => exact ih h
  | case3 c r hc first ih =>
    rcases List.mem_cons.1 h with rfl | h
    · exact regular_next (Bool.eq_false_iff.2 hc) r
    · exact ih h

end Token

/-! ### Normalizing a normal form -/

variable {tokens : List Token} {its : List Item}

/-- The characters of tokens are spaced already. -/
theorem Reread.flatMap_spaced (h : Reread tokens its) (hregular : ∀ a ∈ tokens, a.Regular) :
    its.flatMap Item.spaced = tokens.flatMap Token.normal := by
  induction h with
  | nil => rfl
  | chars hliteral rest ih =>
    rw [List.forall_mem_cons] at hregular
    rw [List.flatMap_append, flatMap_spaced_map_char, hregular.1.spaced hliteral, ih hregular.2,
      List.flatMap_cons]
  | literal rest ih =>
    rw [List.forall_mem_cons] at hregular
    rw [List.flatMap_cons, ih hregular.2, List.flatMap_cons]
    rfl
  | quoted rest ih =>
    rw [List.forall_mem_cons, List.forall_mem_append, List.forall_mem_cons] at hregular
    rw [List.flatMap_cons, ih hregular.2.2.2]
    simp [Item.spaced, Token.normal]

/-- The first character of a normal form outside strings is the first one of a token. -/
theorem Reread.exists_of_head? (h : Reread tokens its) (hregular : ∀ a ∈ tokens, a.Regular)
    {c : Char} (hc : its.head? = some (.char c)) :
    ∃ a rest, tokens = a :: rest ∧ c ∈ a.normal ∧ a.isLiteral = false := by
  cases h with
  | nil => cases hc
  | @chars token tokens _ hliteral rest =>
    obtain ⟨d, more, hnormal⟩ :=
      List.exists_cons_of_ne_nil (hregular token List.mem_cons_self).shown
    rw [hnormal] at hc
    obtain rfl : d = c := by simpa using hc
    exact ⟨token, tokens, rfl, hnormal ▸ List.mem_cons_self, hliteral⟩
  | literal rest => cases hc
  | quoted rest => cases hc

/-- Tokens that cannot make arrows make none. -/
theorem Reread.isChain (h : Reread tokens its) (hregular : ∀ a ∈ tokens, a.Regular)
    (hapart : tokens.IsChain Token.Apart) : its.IsChain Item.Apart := by
  induction h with
  | nil => exact .nil
  | @chars token tokens its hliteral rest ih =>
    rw [List.forall_mem_cons] at hregular
    refine List.isChain_append.2 ⟨?_, ih hregular.2 hapart.tail, ?_⟩
    · by_cases hangle : '>' ∈ token.normal
      · rw [hregular.1.angle hangle hliteral]
        exact .singleton _
      · refine List.Pairwise.isChain (List.pairwise_of_forall_mem_list ?_)
        rintro a - b hb ⟨-, rfl⟩
        exact hangle (by simpa using hb)
    · rintro a ha b hb ⟨rfl, rfl⟩
      obtain ⟨next, more, rfl, hangle, hnext⟩ := rest.exists_of_head? hregular.2 hb
      have hlast : token.normal.getLast? = some '-' := by simpa using ha
      have hbracket := (hregular.2 next List.mem_cons_self).angle hangle hnext
      exact (List.isChain_cons_cons.1 hapart).1 ⟨hlast, hbracket⟩
  | literal rest ih =>
    rw [List.forall_mem_cons] at hregular
    refine List.isChain_cons.2 ⟨?_, ih hregular.2 hapart.tail⟩
    rintro b - ⟨hstring, -⟩
    cases hstring
  | quoted rest ih =>
    rw [List.forall_mem_cons, List.forall_mem_append, List.forall_mem_cons] at hregular
    refine List.isChain_cons.2 ⟨?_, ih hregular.2.2.2 hapart.tail.right_of_append.tail⟩
    rintro b - ⟨hstring, -⟩
    cases hstring

/-- **A text is its own normal form exactly if no arrow is read in it and the characters outside its
strings are spaced.** -/
theorem normalizeChars_eq_self_iff {s : List Char} :
    normalizeChars s = s ↔ .arrow ∉ Token.lex s ∧ outerSpacing s = s := by
  constructor
  · intro h
    have hcount := length_squeeze_withColons s
    rw [← squeeze_normalizeChars, h] at hcount
    have harrow : .arrow ∉ Token.lex s := List.count_eq_zero.1 (by omega)
    exact ⟨harrow, (normalizeChars_eq_outerSpacing harrow).symm.trans h⟩
  · rintro ⟨harrow, hspacing⟩
    rw [normalizeChars_eq_outerSpacing harrow, hspacing]

/-- The characters outside the strings of a normal form are spaced, if the text is unbroken. -/
theorem outerSpacing_normalizeChars {s : List Char} (h : Unbroken s) :
    outerSpacing (normalizeChars s) = normalizeChars s :=
  (reread_lex h).flatMap_spaced fun _ => Token.regular_of_mem_lex

/-- **When normalizing a second time changes nothing.** Only arrows can change an unbroken text, and
none arises if no token that ends with a minus sign stands before an angle bracket. -/
theorem normalize_normalize_iff (type : String) :
    (normalize (normalize type) = normalize type ↔
      .arrow ∉ Token.lex (normalize type).toList ∧
        outerSpacing (normalize type).toList = (normalize type).toList) ∧
    (Unbroken type.toList → (normalize (normalize type) = normalize type ↔
      .arrow ∉ Token.lex (normalize type).toList)) ∧
    (Unbroken type.toList → (Token.lex type.toList).IsChain Token.Apart →
      normalize (normalize type) = normalize type) := by
  have hiff : normalize (normalize type) = normalize type ↔
      .arrow ∉ Token.lex (normalize type).toList ∧
        outerSpacing (normalize type).toList = (normalize type).toList := by
    rw [← normalizeChars_eq_self_iff, ← String.toList_inj]
    rw [normalize, String.toList_ofList]
  have hlist : (normalize type).toList = normalizeChars type.toList := by
    rw [normalize, String.toList_ofList]
  have hspacing (h : Unbroken type.toList) :
      outerSpacing (normalize type).toList = (normalize type).toList := by
    rw [hlist, outerSpacing_normalizeChars h]
  refine ⟨hiff, fun h => hiff.trans (and_iff_left (hspacing h)), fun h hapart => ?_⟩
  have hitems := (reread_lex h).isChain (fun _ => Token.regular_of_mem_lex) hapart
  exact hiff.2 ⟨by rw [hlist]; exact arrow_not_mem_lex hitems, hspacing h⟩

/-- A text without backslashes is unbroken. -/
theorem unbroken_of_not_mem {s : List Char} (h : '\\' ∉ s) : Unbroken s := by
  intro q r hsuffix _ hbreak
  exact h (hsuffix.subset (List.mem_cons_of_mem q (List.IsInfix.subset hbreak List.mem_cons_self)))

/-- An arrow that is written with a blank in it becomes one, while a whole arrow and a string with
blanks in it stay as they are shown. -/
theorem normalize_split_arrow : normalize "- >" = "->" ∧
    normalize (normalize "- >") ≠ normalize "- >" ∧
      normalize (normalize "(a)->b|'c,  d'") = normalize "(a)->b|'c,  d'" := by
  have hnext : Token.next '-' [' ', '>'] = (.symbols ['-'], [' ', '>']) := by
    have hword : isWord '-' = false := by decide +kernel
    have hnumber : Token.number? ['-', ' ', '>'] = none := by decide +kernel
    simp [Token.next, Token.isQuote, hnumber, Token.keyword?, hword, Token.isSeparator,
      Token.isBracket, Token.isSymbol, Token.run]
  have hangle : normalizeChars [' ', '>'] = ['>'] := by decide +kernel
  have hchars : normalizeChars ['-', ' ', '>'] = ['-', '>'] := by
    rw [normalizeChars_cons (by decide), hnext, hangle]
    rfl
  have hsplit : normalize "- >" = "->" := String.toList_inj.1 (by
    rw [normalize, String.toList_ofList]
    exact hchars)
  refine ⟨hsplit, fun h => ?_, ?_⟩
  · exact ((normalize_normalize_iff "- >").1.1 h).1 (by rw [hsplit]; decide +kernel)
  · exact (normalize_normalize_iff "(a)->b|'c,  d'").2.2
      (unbroken_of_not_mem (by decide)) (by decide +kernel)

end LuaDocs.TypeExpr
