import LuaDocs.Proofs.Bracket.Level

/-!
# The pieces of a list

A list is cut at its separators. Its pieces make the list again; the scan comes to each of them
outside every bracket and string, and no separator is in a piece. Texts that are joined by
separators are therefore cut again where they were joined, with or without blanks around them.
-/

namespace LuaDocs

open Text

namespace Bracket

variable {stop : Scan → Char → Bool} {s : Scan} {sep c : Char} {a b p text : List Char}
  {ps : List (List Char)}

/-! ### Pieces -/

theorem separates_iff : separates sep s c = true ↔
    s.atTop = true ∧ Scan.passes c = true ∧ c = sep := by
  simp only [separates, Scan.passes, Bool.and_eq_true, beq_iff_eq]
  constructor
  · rintro ⟨⟨⟨⟨htop, ho⟩, hc⟩, hq⟩, heq⟩
    exact ⟨htop, ⟨⟨ho, hc⟩, hq⟩, heq⟩
  · rintro ⟨htop, ⟨⟨ho, hc⟩, hq⟩, heq⟩
    exact ⟨⟨⟨⟨htop, ho⟩, hc⟩, hq⟩, heq⟩

theorem pieces_cons_of_separates (h : separates sep s c = true) :
    pieces sep s (c :: text) = [] :: pieces sep (s.step c) text := by
  rw [pieces, if_pos h]

theorem pieces_cons_of_not_separates (h : separates sep s c = false) :
    pieces sep s (c :: text) =
      (c :: (pieces sep (s.step c) text).headD []) :: (pieces sep (s.step c) text).tail := by
  rw [pieces, h]
  rfl

/-- The pieces of a text make the text again. -/
theorem intercalate_pieces (sep : Char) (s : Scan) (text : List Char) :
    [sep].intercalate (pieces sep s text) = text := by
  induction text generalizing s with
  | nil => rfl
  | cons c text ih =>
    obtain ⟨p, ps, hps⟩ := List.exists_cons_of_ne_nil (pieces_ne_nil sep (s.step c) text)
    have hrest := ih (s.step c)
    rw [hps] at hrest
    by_cases h : separates sep s c = true
    · obtain ⟨-, -, rfl⟩ := separates_iff.1 h
      rw [pieces_cons_of_separates h, hps, List.intercalate_cons_cons, hrest]
      rfl
    · rw [pieces_cons_of_not_separates (Bool.eq_false_iff.2 h), hps]
      cases ps with
      | nil => simpa using hrest
      | cons q ps =>
        rw [List.intercalate_cons_cons] at hrest
        rw [List.headD_cons, List.tail_cons, List.intercalate_cons_cons, ← hrest]
        simp

/-- The scan comes to each piece after the first outside every bracket and string, and the
separator does not stop it in a piece. -/
theorem pieces_spec (hs : s.Sound) (h : pieces sep s text = p :: ps) :
    (unstopped (separates sep) s p = true ∧ ∀ q ∈ ps, unstopped (separates sep) .start q = true) ∧
      (ps ≠ [] → s.run p = .start) ∧ LevelParts ps := by
  induction text generalizing s p ps with
  | nil =>
    obtain ⟨rfl, rfl⟩ := List.cons.inj h
    exact ⟨⟨rfl, List.forall_mem_nil _⟩, fun h => absurd rfl h, .nil⟩
  | cons c text ih =>
    obtain ⟨q, qs, hqs⟩ := List.exists_cons_of_ne_nil (pieces_ne_nil sep (s.step c) text)
    obtain ⟨⟨hq, hall⟩, hlast, hparts⟩ := ih (hs.step c) hqs
    by_cases hsep : separates sep s c = true
    · -- the scan is back at the start after a separator
      obtain ⟨htop, hpass, rfl⟩ := separates_iff.1 hsep
      obtain rfl := hs.eq_start htop
      rw [pieces_cons_of_separates hsep, hqs] at h
      obtain ⟨rfl, rfl⟩ := List.cons.inj h
      rw [Scan.step_start hpass] at hq hlast
      refine ⟨⟨rfl, List.forall_mem_cons.2 ⟨hq, hall⟩⟩, fun _ => rfl, ?_⟩
      refine List.pairwise_cons.2 ⟨fun r hr => ?_, hparts⟩
      exact hlast (List.ne_nil_of_mem hr)
    · rw [pieces_cons_of_not_separates (Bool.eq_false_iff.2 hsep), hqs] at h
      obtain ⟨rfl, rfl⟩ := List.cons.inj h
      exact ⟨⟨unstopped_cons.2 ⟨Bool.eq_false_iff.2 hsep, hq⟩, hall⟩, hlast, hparts⟩

/-- The separator does not stop the scan in a piece, -/
theorem unstopped_pieces (sep : Char) (text : List Char) :
    ∀ p ∈ pieces sep .start text, unstopped (separates sep) .start p = true := by
  obtain ⟨p, ps, hps⟩ := List.exists_cons_of_ne_nil (pieces_ne_nil sep .start text)
  rw [hps]
  exact List.forall_mem_cons.2 (pieces_spec Scan.sound_start hps).1

/-- and every piece but the last is level. -/
theorem levelParts_pieces (sep : Char) (text : List Char) :
    LevelParts (pieces sep .start text) := by
  obtain ⟨p, ps, hps⟩ := List.exists_cons_of_ne_nil (pieces_ne_nil sep .start text)
  obtain ⟨-, hlast, hparts⟩ := pieces_spec Scan.sound_start hps
  rw [hps]
  exact List.pairwise_cons.2 ⟨fun q hq => hlast (List.ne_nil_of_mem hq), hparts⟩

/-- A text in which nothing separates is one piece. -/
theorem pieces_of_unstopped (h : unstopped (separates sep) s text = true) :
    pieces sep s text = [text] := by
  induction text generalizing s with
  | nil => rfl
  | cons c text ih =>
    obtain ⟨hc, h⟩ := unstopped_cons.1 h
    rw [pieces_cons_of_not_separates hc, ih h]
    rfl

/-- A separator after a level text starts a new piece. -/
theorem pieces_append_sep (hsep : Scan.passes sep = true) (h : s.run a = .start)
    (b : List Char) : pieces sep s (a ++ sep :: b) = pieces sep s a ++ pieces sep .start b := by
  induction a generalizing s with
  | nil =>
    obtain rfl : s = .start := h
    have hstop : separates sep .start sep = true := separates_iff.2 ⟨rfl, hsep, rfl⟩
    rw [List.nil_append, pieces_cons_of_separates hstop, Scan.step_start hsep]
    rfl
  | cons c a ih =>
    obtain ⟨p, ps, hps⟩ := List.exists_cons_of_ne_nil (pieces_ne_nil sep (s.step c) a)
    have hrest := ih h
    by_cases hc : separates sep s c = true
    · rw [List.cons_append, pieces_cons_of_separates hc, hrest, pieces_cons_of_separates hc]
      rfl
    · have hc : separates sep s c = false := Bool.eq_false_iff.2 hc
      rw [List.cons_append, pieces_cons_of_not_separates hc, hrest,
        pieces_cons_of_not_separates hc, hps]
      rfl

/-! ### Blanks around a text -/

theorem not_separates_of_allBlank (hsep : isBlank sep = false) (h : allBlank b = true) (s : Scan) :
    unstopped (separates sep) s b = true := by
  rw [unstopped_iff]
  rintro x c y rfl
  rw [Bool.eq_false_iff]
  intro hc
  obtain ⟨-, -, rfl⟩ := separates_iff.1 hc
  have hblank := isBlank_of_allBlank h c (by simp)
  rw [hsep] at hblank
  cases hblank

/-- Blanks before a text stand before its first piece, -/
theorem pieces_blanks_append (hsep : isBlank sep = false) (hb : allBlank b = true)
    (h : pieces sep .start text = p :: ps) : pieces sep .start (b ++ text) = (b ++ p) :: ps := by
  have hlevel : Level b := level_of_passes (passes_of_allBlank hb)
  have hfree := not_separates_of_allBlank hsep hb .start
  clear hb
  suffices ∀ s, s.run b = .start → unstopped (separates sep) s b = true →
      pieces sep s (b ++ text) = (b ++ p) :: ps from this _ hlevel hfree
  clear hlevel hfree
  induction b with
  | nil =>
    rintro s rfl -
    exact h
  | cons c b ih =>
    intro s hrun hfree
    obtain ⟨hc, hfree⟩ := unstopped_cons.1 hfree
    rw [List.cons_append, pieces_cons_of_not_separates hc, ih _ hrun hfree]
    rfl

/-- and blanks after it stand after the last one. -/
theorem pieces_append_blanks (hsep : isBlank sep = false) (hb : allBlank b = true)
    (h : pieces sep s text = ps ++ [p]) : pieces sep s (text ++ b) = ps ++ [p ++ b] := by
  induction text generalizing s p ps with
  | nil =>
    obtain ⟨rfl, rfl⟩ : ps = [] ∧ p = [] := by
      cases ps <;> simp_all [pieces]
    exact pieces_of_unstopped (not_separates_of_allBlank hsep hb s)
  | cons c text ih =>
    obtain hnil | ⟨qs, q, hqs⟩ := List.eq_nil_or_concat (pieces sep (s.step c) text)
    · exact absurd hnil (pieces_ne_nil _ _ _)
    rw [List.concat_eq_append] at hqs
    have hrest := ih hqs
    by_cases hc : separates sep s c = true
    · rw [pieces_cons_of_separates hc, hqs, ← List.cons_append] at h
      obtain ⟨rfl, heq⟩ := List.append_inj' h rfl
      rw [List.cons_append, pieces_cons_of_separates hc, hrest, List.singleton_inj.1 heq]
      rfl
    · have hc : separates sep s c = false := Bool.eq_false_iff.2 hc
      rw [List.cons_append, pieces_cons_of_not_separates hc, hrest]
      rw [pieces_cons_of_not_separates hc, hqs] at h
      cases qs with
      | nil =>
        have hone : [] ++ [c :: q] = ps ++ [p] := h
        obtain ⟨rfl, heq⟩ := List.append_inj' hone rfl
        rw [← List.singleton_inj.1 heq]
        rfl
      | cons r qs =>
        have hmore : ((c :: r) :: qs) ++ [q] = ps ++ [p] := h
        obtain ⟨rfl, heq⟩ := List.append_inj' hmore rfl
        rw [← List.singleton_inj.1 heq]
        rfl

/-! ### Lists -/

theorem mem_splitRaw : p ∈ splitRaw sep text ↔ p ∈ pieces sep .start text ∧ allBlank p = false := by
  rw [splitRaw, List.mem_filter, Bool.not_eq_true']

theorem levelParts_splitRaw (sep : Char) (text : List Char) : LevelParts (splitRaw sep text) :=
  (levelParts_pieces sep text).filter _

/-- What a scan does not stop in has no piece in which it stops. -/
theorem unstopped_of_mem_splitRaw (hsep : Scan.passes sep = true) (hstop : stop .start sep = false)
    (h : unstopped stop .start text = true) (hp : p ∈ splitRaw sep text) :
    unstopped stop .start p = true := by
  have hlevel : Level [sep] := Scan.step_start hsep
  have hfree : unstopped stop .start [sep] = true := unstopped_cons.2 ⟨hstop, rfl⟩
  rw [← intercalate_pieces sep .start text,
    unstopped_intercalate hlevel hfree (levelParts_pieces sep text)] at h
  exact h p (mem_splitRaw.1 hp).1

theorem level_of_mem_splitRaw (hsep : Scan.passes sep = true) (h : Level text)
    (hp : p ∈ splitRaw sep text) : Level p := by
  have hlevel : Level [sep] := Scan.step_start hsep
  rw [← intercalate_pieces sep .start text,
    level_intercalate hlevel (levelParts_pieces sep text)] at h
  exact h p (mem_splitRaw.1 hp).1

theorem splitRaw_append_sep (hsep : Scan.passes sep = true) (h : Level a) (b : List Char) :
    splitRaw sep (a ++ sep :: b) = splitRaw sep a ++ splitRaw sep b := by
  rw [splitRaw, pieces_append_sep hsep h, List.filter_append]
  rfl

theorem splitRaw_of_unstopped (h : unstopped (separates sep) .start text = true)
    (hblank : allBlank text = false) : splitRaw sep text = [text] := by
  rw [splitRaw, pieces_of_unstopped h]
  simp [hblank]

/-- **Parts that are joined by separators are the pieces of what they make.** -/
theorem splitRaw_intercalate (hsep : Scan.passes sep = true) (h : LevelParts ps)
    (hps : ∀ p ∈ ps, unstopped (separates sep) .start p = true ∧ allBlank p = false) :
    splitRaw sep ([sep].intercalate ps) = ps := by
  have hnil : splitRaw sep [] = [] := rfl
  rw [flatMap_of_intercalate hnil (fun a b ha => splitRaw_append_sep hsep ha b) h]
  exact flatMap_eq_self fun p hp => splitRaw_of_unstopped (hps p hp).1 (hps p hp).2

/-- Blanks before a text are part of the first piece, if this is not blank, -/
theorem splitRaw_blanks_append (hsep : isBlank sep = false) (hb : allBlank b = true)
    (text : List Char) : splitRaw sep (b ++ text) = splitRaw sep text ∨
      ∃ p ps, splitRaw sep text = p :: ps ∧ splitRaw sep (b ++ text) = (b ++ p) :: ps := by
  obtain ⟨p, ps, hps⟩ := List.exists_cons_of_ne_nil (pieces_ne_nil sep .start text)
  rw [splitRaw, pieces_blanks_append hsep hb hps, splitRaw, hps]
  by_cases hp : allBlank p = true
  · left
    simp [allBlank_append, hb, hp]
  · right
    exact ⟨p, ps.filter fun piece => !allBlank piece, by simp [hp],
      by simp [allBlank_append, hp]⟩

/-- and blanks after it are part of the last one. -/
theorem splitRaw_append_blanks (hsep : isBlank sep = false) (hb : allBlank b = true)
    (text : List Char) : splitRaw sep (text ++ b) = splitRaw sep text ∨
      ∃ ps p, splitRaw sep text = ps ++ [p] ∧ splitRaw sep (text ++ b) = ps ++ [p ++ b] := by
  obtain hnil | ⟨ps, p, hps⟩ := List.eq_nil_or_concat (pieces sep .start text)
  · exact absurd hnil (pieces_ne_nil _ _ _)
  rw [List.concat_eq_append] at hps
  rw [splitRaw, pieces_append_blanks hsep hb hps, splitRaw, hps]
  by_cases hp : allBlank p = true
  · left
    simp [List.filter_append, allBlank_append, hb, hp]
  · right
    exact ⟨ps.filter fun piece => !allBlank piece, p, by simp [List.filter_append, hp],
      by simp [List.filter_append, allBlank_append, hp]⟩

/-- What does not depend on blanks before the first piece and after the last one does not depend on
blanks around the text. -/
theorem apply_splitRaw_trim {α : Type} {f : List (List Char) → α} (hsep : isBlank sep = false)
    (hhead : ∀ b p ps, allBlank b = true → f ((b ++ p) :: ps) = f (p :: ps))
    (hlast : ∀ b p ps, allBlank b = true → f (ps ++ [p ++ b]) = f (ps ++ [p]))
    (text : List Char) : f (splitRaw sep (trim text)) = f (splitRaw sep text) := by
  obtain ⟨b, b', hb, hb', htext⟩ := exists_trim text
  have hstart : f (splitRaw sep (b ++ (trim text ++ b'))) = f (splitRaw sep (trim text ++ b')) := by
    rcases splitRaw_blanks_append hsep hb (trim text ++ b') with h | ⟨p, ps, hold, h⟩
    · rw [h]
    · rw [h, hold, hhead b p ps hb]
  have hend : f (splitRaw sep (trim text ++ b')) = f (splitRaw sep (trim text)) := by
    rcases splitRaw_append_blanks hsep hb' (trim text) with h | ⟨ps, p, hold, h⟩
    · rw [h]
    · rw [h, hold, hlast b' p ps hb']
  rw [← hend, ← hstart, ← htext]

theorem mem_split {e : List Char} : e ∈ split sep text ↔ ∃ p ∈ splitRaw sep text, trim p = e :=
  List.mem_map

theorem levelParts_split (sep : Char) (text : List Char) : LevelParts (split sep text) := by
  refine List.pairwise_map.2 ((levelParts_splitRaw sep text).imp ?_)
  exact level_trim.2

theorem unstopped_split {e : List Char} (he : e ∈ split sep text) :
    unstopped (separates sep) .start e = true := by
  obtain ⟨p, hp, rfl⟩ := mem_split.1 he
  exact unstopped_trim (unstopped_pieces sep text p (mem_splitRaw.1 hp).1)

theorem unstopped_of_mem_split (hsep : Scan.passes sep = true) (hstop : stop .start sep = false)
    (h : unstopped stop .start text = true) {e : List Char} (he : e ∈ split sep text) :
    unstopped stop .start e = true := by
  obtain ⟨p, hp, rfl⟩ := mem_split.1 he
  exact unstopped_trim (unstopped_of_mem_splitRaw hsep hstop h hp)

theorem level_of_mem_split (hsep : Scan.passes sep = true) (h : Level text) {e : List Char}
    (he : e ∈ split sep text) : Level e := by
  obtain ⟨p, hp, rfl⟩ := mem_split.1 he
  exact level_trim.2 (level_of_mem_splitRaw hsep h hp)

theorem split_append_sep (hsep : Scan.passes sep = true) (h : Level a) (b : List Char) :
    split sep (a ++ sep :: b) = split sep a ++ split sep b := by
  rw [split, splitRaw_append_sep hsep h, List.map_append]
  rfl

theorem split_of_unstopped (h : unstopped (separates sep) .start text = true)
    (htrim : trim text = text) (hne : text ≠ []) : split sep text = [text] := by
  have hblank : allBlank text = false := by
    rw [Bool.eq_false_iff, ne_eq, ← trim_eq_nil_iff, htrim]
    exact hne
  rw [split, splitRaw_of_unstopped h hblank, List.map_singleton, htrim]

/-- Blanks around a list do not count. -/
theorem split_trim (hsep : isBlank sep = false) (text : List Char) :
    split sep (trim text) = split sep text := by
  refine apply_splitRaw_trim hsep (fun b p ps hb => ?_) (fun b p ps hb => ?_) text
  · rw [List.map_cons, List.map_cons, trim_append hb]
  · rw [List.map_append, List.map_append, List.map_singleton, List.map_singleton,
      trim_append_blanks hb]

/-- **Parts that are joined by separators and blanks are cut one by one.** -/
theorem split_intercalate (hsep : Scan.passes sep = true) (hblank : isBlank sep = false)
    (h : LevelParts ps) : split sep ([sep, ' '].intercalate ps) = ps.flatMap (split sep) := by
  refine flatMap_of_intercalate rfl (fun a b ha => ?_) h
  calc split sep (a ++ sep :: ([' '] ++ b))
    _ = split sep a ++ split sep ([' '] ++ b) := split_append_sep hsep ha _
    _ = split sep a ++ split sep b := by
        rw [← split_trim hblank ([' '] ++ b), trim_append rfl, split_trim hblank]

/-! ### What a cut takes away -/

theorem length_flatten_filter_trim_le (ps : List (List Char)) (w : List Char) :
    ((ps.filter fun p => !allBlank p).map trim).flatten.length ≤ (w.intercalate ps).length := by
  induction ps with
  | nil => simp
  | cons p ps ih =>
    have hfirst : (((p :: ps).filter fun p => !allBlank p).map trim).flatten.length ≤
        p.length + ((ps.filter fun p => !allBlank p).map trim).flatten.length := by
      have hp := length_trim_le p
      rw [List.filter_cons]
      split
      · rw [List.map_cons, List.flatten_cons, List.length_append]
        omega
      · omega
    cases ps with
    | nil => simpa using hfirst
    | cons q ps =>
      rw [List.intercalate_cons_cons, List.length_append, List.length_append]
      omega

/-- The elements of a list have no more characters than the list, -/
theorem length_flatten_split_le (sep : Char) (text : List Char) :
    (split sep text).flatten.length ≤ text.length := by
  have hlength := length_flatten_filter_trim_le (pieces sep .start text) [sep]
  rwa [intercalate_pieces] at hlength

theorem length_flatten_flatMap_split_le (sep : Char) (ts : List (List Char)) :
    (ts.flatMap (split sep)).flatten.length ≤ ts.flatten.length := by
  induction ts with
  | nil => simp
  | cons t ts ih =>
    have ht := length_flatten_split_le sep t
    rw [List.flatMap_cons, List.flatten_append, List.length_append, List.flatten_cons,
      List.length_append]
    omega

/-- and less if there is a separator. -/
theorem length_flatten_split_lt (hsep : Scan.passes sep = true)
    (h : unstopped (separates sep) .start text = false) :
    (split sep text).flatten.length < text.length := by
  have hstops : ¬ unstopped (separates sep) .start text = true := by
    rw [h]
    exact Bool.false_ne_true
  rw [← cut?_eq_none_iff] at hstops
  obtain ⟨⟨a, b⟩, hcut⟩ := Option.ne_none_iff_exists'.1 hstops
  obtain ⟨c, rfl, -, hstop⟩ := cut?_eq_some_iff.1 hcut
  obtain ⟨htop, -, rfl⟩ := separates_iff.1 hstop
  have ha := length_flatten_split_le c a
  have hb := length_flatten_split_le c b
  rw [split_append_sep hsep (level_iff_atTop.2 htop), List.flatten_append, List.length_append,
    List.length_append, List.length_cons]
  omega

/-- **Joined elements are found again exactly if none of them has a separator of its own.** -/
theorem split_intercalate_eq_iff {ts : List (List Char)} (hsep : Scan.passes sep = true)
    (hblank : isBlank sep = false) (h : ∀ t ∈ ts, Level t ∧ trim t = t ∧ t ≠ []) :
    split sep ([sep, ' '].intercalate ts) = ts ↔
      ∀ t ∈ ts, unstopped (separates sep) .start t = true := by
  rw [split_intercalate hsep hblank (levelParts_of_forall fun t ht => (h t ht).1)]
  constructor
  · intro heq t ht
    rw [← Bool.not_eq_false]
    intro hstops
    obtain ⟨l, r, rfl⟩ := List.append_of_mem ht
    have hlength := congrArg (fun es => es.flatten.length) heq
    have hl := length_flatten_flatMap_split_le sep l
    have hr := length_flatten_flatMap_split_le sep r
    have hlt := length_flatten_split_lt hsep hstops
    simp only [List.flatMap_append, List.flatMap_cons, List.flatten_append, List.flatten_cons,
      List.length_append] at hlength
    omega
  · intro hfree
    exact flatMap_eq_self fun t ht => split_of_unstopped (hfree t ht) (h t ht).2.1 (h t ht).2.2

end Bracket

end LuaDocs
