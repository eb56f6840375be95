import LuaDocs.Proofs.Text.Trim
import LuaDocs.Proofs.TypeExpr.Spacing
import Mathlib.Data.List.Basic

/-!
# The characters of a normal form

A type expression is cut into pieces: the blanks between tokens, one by one, and the texts from
which the tokens are read. The pieces are the whole text, so that normalizing it loses nothing but
blanks: without its blanks, a normal form is the text in which every arrow is written as a colon.
Strings are not even respaced.
-/

namespace LuaDocs.TypeExpr

open Text

/-! ### Pieces -/

/-- A piece of a text: a blank, or the text of a token. -/
structure Piece where
  /-- The characters of the piece. -/
  text : List Char
  /-- The token that is read from it, unless it is a blank. -/
  token : Option Token
  deriving DecidableEq, Repr

namespace Piece

/-- What a normal form shows of the piece. -/
def normal (p : Piece) : List Char := (p.token.map Token.normal).getD []

/-- The text of the piece, with a colon for an arrow. -/
def colonText (p : Piece) : List Char := if p.token = some .arrow then [':'] else p.text

/-- The piece is a blank, or its token is read from its text. -/
def Sound (p : Piece) : Prop :=
  match p.token with
  | none => allBlank p.text = true
  | some token => token.Spells p.text

end Piece

/-- The pieces of a text. -/
def pieces (s : List Char) : List Piece :=
  match s with
  | [] => []
  | c :: r =>
    if isBlank c then ⟨[c], none⟩ :: pieces r
    else
      let p := Token.next c r
      ⟨(c :: r).take ((c :: r).length - p.2.length), some p.1⟩ :: pieces p.2
termination_by s.length
decreasing_by
  · simp
  · have := Token.length_next_snd_le c r
    simp only [List.length_cons]
    omega

/-- The text with its arrows written as colons. -/
def withColons (s : List Char) : List Char := (pieces s).flatMap Piece.colonText

/-- The characters before the rest of a text are the text of a token. -/
theorem take_of_eq_append {s p rest : List Char} (h : s = p ++ rest) :
    s.take (s.length - rest.length) = p := by
  rw [h, List.length_append, Nat.add_sub_cancel, List.take_left]

/-- **The pieces are the whole text.** -/
theorem flatMap_text_pieces (s : List Char) : (pieces s).flatMap Piece.text = s := by
  fun_induction pieces s with
  | case1 => rfl
  | case2 c r hc ih => rw [List.flatMap_cons, ih, List.singleton_append]
  | case3 c r hc token ih =>
    obtain ⟨p, hp, -⟩ := Token.exists_spells_next (Bool.eq_false_iff.2 hc) r
    rw [List.flatMap_cons, ih, take_of_eq_append hp, ← hp]

/-- The tokens of the pieces are the tokens of the text. -/
theorem filterMap_token_pieces (s : List Char) :
    (pieces s).filterMap Piece.token = Token.lex s := by
  fun_induction pieces s with
  | case1 => rw [Token.lex, List.filterMap_nil]
  | case2 c r hc ih => rw [List.filterMap_cons_none rfl, ih, Token.lex, if_pos hc]
  | case3 c r hc token ih =>
    have hlex : Token.lex (c :: r) = token.1 :: Token.lex token.2 := by rw [Token.lex, if_neg hc]
    rw [hlex, ← ih]
    rfl

/-- A normal form shows piece after piece. -/
theorem flatMap_normal_pieces (s : List Char) :
    (pieces s).flatMap Piece.normal = normalizeChars s := by
  rw [normalizeChars, ← filterMap_token_pieces]
  induction pieces s with
  | nil => rfl
  | cons p ps ih =>
    rw [List.flatMap_cons, ih]
    cases htoken : p.token with
    | none => simp [Piece.normal, htoken]
    | some token => simp [Piece.normal, htoken]

/-- Each piece is a blank, or its token is read from its text. -/
theorem sound_of_mem_pieces {s : List Char} {p : Piece} (h : p ∈ pieces s) : p.Sound := by
  fun_induction pieces s with
  | case1 => cases h
  | case2 c r hc ih =>
    rcases List.mem_cons.1 h with rfl | h
    · simpa [Piece.Sound, allBlank] using hc
    · exact ih h
  | case3 c r hc token ih =>
    rcases List.mem_cons.1 h with rfl | h
    · obtain ⟨p, hp, hspells⟩ := Token.exists_spells_next (Bool.eq_false_iff.2 hc) r
      have htext : (c :: r).take ((c :: r).length - token.2.length) = p := take_of_eq_append hp
      rw [htext]
      exact hspells
    · exact ih h

/-- A text without arrows has no arrow among its pieces. -/
theorem token_ne_arrow {s : List Char} (h : ¬ ['-', '>'] <:+: s) {p : Piece} (hp : p ∈ pieces s) :
    p.token ≠ some .arrow := by
  intro harrow
  have hsound := sound_of_mem_pieces hp
  rw [Piece.Sound, harrow] at hsound
  obtain ⟨before, after, hsplit⟩ := List.append_of_mem hp
  refine h ⟨before.flatMap Piece.text, after.flatMap Piece.text, ?_⟩
  have htext : p.text = ['-', '>'] := hsound
  rw [← htext, ← flatMap_text_pieces s, hsplit]
  simp

/-! ### Characters that are no blanks -/

theorem squeeze_spaced (c : Char) : squeeze (spaced c) = squeeze [c] := by
  have hspace : isBlank ' ' = true := by decide
  by_cases hblank : isBlank c = true
  · simp [spaced, squeeze, hblank]
  · by_cases hsep : Token.isSeparator c = true
    · have hc : spaced c = (Token.separator c).normal := by simp [spaced, hblank, hsep]
      rw [hc, Token.normal]
      split <;> simp [squeeze, hblank, hspace]
    · simp [spaced, squeeze, hblank, hsep]

/-- Spacing a text changes blanks only. -/
theorem squeeze_spacing (s : List Char) : squeeze (spacing s) = squeeze s := by
  induction s with
  | nil => rfl
  | cons c s ih =>
    rw [spacing_cons, squeeze_append, squeeze_spaced, ih, ← squeeze_append, List.singleton_append]

theorem Token.squeeze_normal {token : Token} {p : List Char} (h : token.Spells p)
    (harrow : token ≠ .arrow) : squeeze token.normal = squeeze p := by
  cases token with
  | literal text => rw [h.1, normal]
  | arrow => exact absurd rfl harrow
  | _ =>
    have hspacing : Token.normal _ = spacing p := h
    rw [hspacing, squeeze_spacing]

theorem Piece.Sound.squeeze_normal {p : Piece} (h : p.Sound) :
    squeeze p.normal = squeeze p.colonText := by
  cases htoken : p.token with
  | none =>
    simp only [Sound, htoken] at h
    simp only [normal, colonText, htoken, reduceCtorEq, if_false, squeeze_of_allBlank h]
    rfl
  | some token =>
    simp only [Sound, htoken] at h
    by_cases harrow : token = .arrow
    · simp only [normal, colonText, htoken, harrow]
      rfl
    · simpa [normal, colonText, htoken, harrow] using Token.squeeze_normal h harrow

/-- **Without its blanks, a normal form is the text with its arrows written as colons.** -/
theorem squeeze_normalizeChars (s : List Char) :
    squeeze (normalizeChars s) = squeeze (withColons s) := by
  rw [← flatMap_normal_pieces, withColons, squeeze, squeeze, List.filter_flatMap,
    List.filter_flatMap]
  refine List.flatMap_congr fun p hp => ?_
  exact (sound_of_mem_pieces hp).squeeze_normal

theorem Piece.Sound.length_squeeze {p : Piece} (h : p.Sound) :
    (squeeze p.colonText).length + p.token.toList.count .arrow = (squeeze p.text).length := by
  by_cases harrow : p.token = some .arrow
  · rw [Sound, harrow] at h
    have htext : p.text = ['-', '>'] := h
    rw [colonText, if_pos harrow, harrow, htext]
    rfl
  · have hnone : .arrow ∉ p.token.toList := by simpa using harrow
    rw [colonText, if_neg harrow, List.count_eq_zero.2 hnone, Nat.add_zero]

/-- An arrow is written with one character more than a colon. -/
theorem length_squeeze_withColons (s : List Char) :
    (squeeze (withColons s)).length + (Token.lex s).count .arrow = (squeeze s).length := by
  have hsound : ∀ p ∈ pieces s, p.Sound := fun p => sound_of_mem_pieces
  rw [← filterMap_token_pieces, withColons]
  conv_rhs => rw [← flatMap_text_pieces s]
  generalize pieces s = ps at hsound
  induction ps with
  | nil => rfl
  | cons p ps ih =>
    rw [List.forall_mem_cons] at hsound
    have hfirst := hsound.1.length_squeeze
    have hrest := ih hsound.2
    have htokens :
        (p :: ps).filterMap Piece.token = p.token.toList ++ ps.filterMap Piece.token := by
      cases htoken : p.token <;> simp [htoken]
    rw [htokens, List.count_append, List.flatMap_cons, List.flatMap_cons, squeeze_append,
      squeeze_append, List.length_append, List.length_append]
    omega

theorem withColons_of_no_arrow {s : List Char} (h : ¬ ['-', '>'] <:+: s) : withColons s = s := by
  have htext : ∀ p ∈ pieces s, p.colonText = p.text := fun p hp => if_neg (token_ne_arrow h hp)
  rw [withColons, List.flatMap_congr htext, flatMap_text_pieces]

/-- **Normalizing changes blanks and arrows only, and no strings.** -/
theorem normalize_keeps_characters (type : String) :
    (pieces type.toList).flatMap Piece.text = type.toList ∧
    (pieces type.toList).filterMap Piece.token = Token.lex type.toList ∧
    squeeze (normalize type).toList = squeeze (withColons type.toList) ∧
    (¬ ['-', '>'] <:+: type.toList → squeeze (normalize type).toList = squeeze type.toList) ∧
    ∀ before p after text, pieces type.toList = before ++ p :: after →
      p.token = some (.literal text) → p.text = text ∧
        (normalize type).toList =
          before.flatMap Piece.normal ++ text ++ after.flatMap Piece.normal := by
  have hchars : squeeze (normalize type).toList = squeeze (withColons type.toList) := by
    rw [normalize, String.toList_ofList, squeeze_normalizeChars]
  refine ⟨flatMap_text_pieces _, filterMap_token_pieces _, hchars, fun h => ?_, ?_⟩
  · rw [hchars, withColons_of_no_arrow h]
  · intro before p after text hsplit htoken
    have hsound : p.Sound := sound_of_mem_pieces (by rw [hsplit]; simp)
    rw [Piece.Sound, htoken] at hsound
    refine ⟨hsound.1, ?_⟩
    rw [normalize, String.toList_ofList, ← flatMap_normal_pieces, hsplit]
    simp [Piece.normal, htoken, Token.normal]

end LuaDocs.TypeExpr
