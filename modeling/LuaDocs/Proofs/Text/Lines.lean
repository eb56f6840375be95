import LuaDocs.Proofs.Text.Split
import LuaDocs.Proofs.Text.Trim
import LuaDocs.Text.Lines

/-!
# Texts and their lines

A text is its first line and what follows it. Removing the common indentation of a text takes the
same blanks from all lines that have a mark on them.
-/

namespace LuaDocs.Text

variable {l m r s : List Char} {ls : List (List Char)}

/-! ### Lines between line feeds -/

/-- What follows a line in a text whose other lines are given. -/
def following : List (List Char) → List Char
  | [] => []
  | l :: ls => '\n' :: unlines (l :: ls)

theorem unlines_nil : unlines [] = [] := rfl

/-- A text is its first line and what follows it. -/
theorem unlines_cons (l : List Char) (ls : List (List Char)) :
    unlines (l :: ls) = l ++ following ls := by
  cases ls with
  | nil => simp [unlines, joinWith, following, List.intercalate]
  | cons l' ls => exact joinWith_cons_of_ne_nil (List.cons_ne_nil l' ls)

theorem unlines_concat (ls : List (List Char)) (last : List Char) :
    unlines (ls ++ [last]) = if ls = [] then last else unlines ls ++ '\n' :: last := by
  induction ls with
  | nil => rw [List.nil_append, unlines_cons, following, List.append_nil, if_pos rfl]
  | cons l ls ih =>
    rw [List.cons_append, unlines_cons, unlines_cons, if_neg (List.cons_ne_nil l ls)]
    cases ls with
    | nil => simp [following, unlines_cons]
    | cons l' ls =>
      rw [if_neg (List.cons_ne_nil l' ls)] at ih
      rw [List.cons_append, following, ← List.cons_append, ih, following, List.append_assoc,
        List.cons_append]

/-- What is left of the last line of a text if the text loses its last character. -/
def shortened (last : List Char) : List (List Char) := if last = [] then [] else [last.dropLast]

/-- The lines of a text without its last character. -/
theorem dropLast_unlines (ls : List (List Char)) (last : List Char) :
    (unlines (ls ++ [last])).dropLast = unlines (ls ++ shortened last) := by
  by_cases hlast : last = []
  · rw [shortened, if_pos hlast, hlast, unlines_concat, List.append_nil]
    split
    · next hls =>
      rw [hls]
      rfl
    · rw [List.dropLast_concat]
  · rw [shortened, if_neg hlast, unlines_concat, unlines_concat]
    split
    · rfl
    · rw [List.dropLast_append_of_ne_nil (List.cons_ne_nil _ _), List.dropLast_cons_of_ne_nil hlast]

theorem unlines_eq_nil_iff : unlines ls = [] ↔ ls = [] ∨ ls = [[]] := by
  cases ls with
  | nil => exact iff_of_true rfl (.inl rfl)
  | cons l ls =>
    rw [unlines_cons, List.append_eq_nil_iff]
    cases ls with
    | nil => simp [following]
    | cons l' ls => simp [following]

theorem lines_append (h : '\n' ∉ l) (r : List Char) : lines (l ++ '\n' :: r) = l :: lines r := by
  rw [lines, splitAt_append_sep, splitAt_of_notMem h, List.singleton_append, lines]

theorem lines_of_notMem (h : '\n' ∉ l) : lines l = [l] := splitAt_of_notMem h

theorem lines_unlines (hne : ls ≠ []) (h : ∀ l ∈ ls, '\n' ∉ l) : lines (unlines ls) = ls :=
  splitAt_joinWith hne h

theorem notMem_of_mem_lines (h : l ∈ lines s) : '\n' ∉ l := notMem_of_mem_splitAt h

theorem lines_ne_nil (s : List Char) : lines s ≠ [] := splitAt_ne_nil '\n' s

/-- The lines that have a mark on them. -/
def marked (ls : List (List Char)) : List (List Char) := ls.filter fun l => !allBlank l

theorem marked_cons_of_allBlank (h : allBlank l = true) (ls : List (List Char)) :
    marked (l :: ls) = marked ls :=
  List.filter_cons_of_neg (by simp [h])

theorem marked_cons_of_not_allBlank (h : ¬ allBlank l = true) (ls : List (List Char)) :
    marked (l :: ls) = l :: marked ls :=
  List.filter_cons_of_pos (by simp [h])

/-! ### Blanks at the start of a text -/

theorem isBlank_lineFeed : isBlank '\n' = true := by decide

theorem trimStart_append_of_not_allBlank (h : ¬ allBlank l = true) (r : List Char) :
    trimStart (l ++ r) = trimStart l ++ r := by
  have hne : l.dropWhile isBlank ≠ [] := mt trimStart_eq_nil_iff.1 h
  rw [trimStart, List.dropWhile_append, if_neg (by simpa using hne), trimStart]

theorem trimStart_following (ls : List (List Char)) :
    trimStart (following ls) = trimStart (unlines ls) := by
  cases ls with
  | nil => rfl
  | cons l ls => rw [following, trimStart, List.dropWhile_cons_of_pos isBlank_lineFeed, trimStart]

/-- A blank line at the start of a text is skipped with the other blanks. -/
theorem trimStart_unlines_of_allBlank (h : allBlank l = true) (ls : List (List Char)) :
    trimStart (unlines (l :: ls)) = trimStart (unlines ls) := by
  rw [unlines_cons, trimStart_append_blanks h, trimStart_following]

/-- A line feed ends the characters that are none. -/
theorem takeWhile_append_following (h : '\n' ∉ l) (ls : List (List Char)) :
    (l ++ following ls).takeWhile (fun c => c != '\n') = l := by
  have hl : ∀ c ∈ l, (c != '\n') = true := fun c hc => by
    simpa using fun heq : c = '\n' => h (heq ▸ hc)
  rw [List.takeWhile_append_of_pos hl]
  cases ls with
  | nil => simp [following]
  | cons l' ls => simp [following]

theorem dropWhile_append_following (h : '\n' ∉ l) (ls : List (List Char)) :
    (l ++ following ls).dropWhile (fun c => c != '\n') = following ls := by
  have hl : ∀ c ∈ l, (c != '\n') = true := fun c hc => by
    simpa using fun heq : c = '\n' => h (heq ▸ hc)
  rw [List.dropWhile_append_of_pos hl]
  cases ls with
  | nil => rfl
  | cons l' ls => simp [following]

/-! ### Indentation -/

theorem isBlank_of_isIndent {c : Char} (h : isIndent c = true) : isBlank c = true := by
  rw [isIndent, Bool.or_eq_true, beq_iff_eq, beq_iff_eq] at h
  rcases h with rfl | rfl
  · decide
  · decide

theorem allBlank_of_isIndent (h : l.all isIndent = true) : allBlank l = true :=
  List.all_eq_true.2 fun c hc => isBlank_of_isIndent (List.all_eq_true.1 h c hc)

theorem commonStart_prefix_both (s t : List Char) :
    commonStart s t <+: s ∧ commonStart s t <+: t := by
  fun_induction commonStart s t with
  | case1 a s b t hab ih =>
    rw [beq_iff_eq] at hab
    subst hab
    exact ⟨List.cons_prefix_cons.2 ⟨rfl, ih.1⟩, List.cons_prefix_cons.2 ⟨rfl, ih.2⟩⟩
  | case2 a s b t hab => exact ⟨List.nil_prefix, List.nil_prefix⟩
  | case3 s t h => exact ⟨List.nil_prefix, List.nil_prefix⟩

theorem foldl_commonStart_prefix_of_mem (ms : List (List Char)) (m : List Char) :
    ∀ x ∈ m :: ms, ms.foldl commonStart m <+: x := by
  induction ms generalizing m with
  | nil => exact List.forall_mem_singleton.2 List.prefix_rfl
  | cons x ms ih =>
    have hstart := ih (commonStart m x) _ List.mem_cons_self
    refine List.forall_mem_cons.2 ⟨hstart.trans (commonStart_prefix_both m x).1,
      List.forall_mem_cons.2 ⟨hstart.trans (commonStart_prefix_both m x).2, fun y hy => ?_⟩⟩
    exact ih (commonStart m x) y (List.mem_cons_of_mem _ hy)

/-- The common indentation is found at the start of every line that is not indentation alone. -/
theorem margin_prefix_of_mem (hl : l ∈ ls) (hmark : ¬ l.all isIndent = true) :
    margin ls <+: l.takeWhile isIndent := by
  have hmem : l.takeWhile isIndent ∈
      (ls.filter fun l => !l.all isIndent).map (fun l => l.takeWhile isIndent) :=
    List.mem_map_of_mem (List.mem_filter.2 ⟨hl, by simpa using hmark⟩)
  rw [margin]
  split
  · next hnil =>
    rw [hnil] at hmem
    exact absurd hmem List.not_mem_nil
  · next m ms hcons =>
    rw [hcons] at hmem
    exact foldl_commonStart_prefix_of_mem ms m _ hmem

theorem isIndent_margin (ls : List (List Char)) : (margin ls).all isIndent = true := by
  by_cases hmarked : ∃ l ∈ ls, ¬ l.all isIndent = true
  · obtain ⟨l, hl, hmark⟩ := hmarked
    refine List.all_eq_true.2 fun c hc => ?_
    exact List.all_eq_true.1 List.all_takeWhile c ((margin_prefix_of_mem hl hmark).subset hc)
  · have hnil : (ls.filter fun l => !l.all isIndent) = [] :=
      List.filter_eq_nil_iff.2 fun l hl hmark => hmarked ⟨l, hl, by simpa using hmark⟩
    simp [margin, hnil]

/-- The line, or nothing for a line of nothing but indentation. -/
def emptied (l : List Char) : List Char := if l.all isIndent then [] else l

/-- The line without the indentation `m`; a line of nothing but indentation becomes empty. -/
def dedentLine (m l : List Char) : List Char := (emptied l).drop m.length

theorem emptied_of_not_isIndent (h : ¬ l.all isIndent = true) : emptied l = l := if_neg h

/-- The common indentation of a text is found at the start of its lines. -/
theorem margin_emptied_prefix_of_mem (hl : l ∈ ls) (hmark : ¬ l.all isIndent = true) :
    margin (ls.map emptied) <+: l := by
  have hmem : l ∈ ls.map emptied := List.mem_map.2 ⟨l, hl, emptied_of_not_isIndent hmark⟩
  exact (margin_prefix_of_mem hmem hmark).trans (List.takeWhile_prefix _)

/-- The indentation is removed line by line. -/
theorem lines_dedent (s : List Char) :
    lines (dedent s) = (lines s).map (dedentLine (margin ((lines s).map emptied))) := by
  generalize hm : margin ((lines s).map emptied) = m
  have hline : ∀ l ∈ lines s,
      (if m.isPrefixOf (emptied l) then (emptied l).drop m.length else emptied l) =
        dedentLine m l := by
    intro l hl
    by_cases hmark : l.all isIndent = true
    · simp only [dedentLine, emptied, if_pos hmark, List.drop_nil, ite_self]
    · rw [dedentLine, emptied_of_not_isIndent hmark]
      exact if_pos (List.isPrefixOf_iff_prefix.2 (hm ▸ margin_emptied_prefix_of_mem hl hmark))
  have htext : dedent s = unlines ((lines s).map (dedentLine m)) := calc
    dedent s = unlines (((lines s).map emptied).map fun l =>
        if m.isPrefixOf l then l.drop m.length else l) := hm ▸ rfl
    _ = unlines ((lines s).map (dedentLine m)) := by
      rw [List.map_map]
      exact congrArg unlines (List.map_congr_left hline)
  rw [htext, lines_unlines]
  · simpa using lines_ne_nil s
  · refine List.forall_mem_map.2 fun l hl hmem => ?_
    have hfeed := notMem_of_mem_lines hl
    rw [dedentLine, emptied] at hmem
    split at hmem
    · simp at hmem
    · exact hfeed (List.mem_of_mem_drop hmem)

/-- A line is its indentation and what is left without it. -/
theorem append_dedentLine (hm : m <+: l) (hmark : ¬ l.all isIndent = true) :
    m ++ dedentLine m l = l := by
  rw [dedentLine, emptied_of_not_isIndent hmark]
  exact (List.prefix_iff_eq_append.1 hm)

/-- Removing indentation removes blanks at the start of a line only. -/
theorem trimStart_dedentLine (hm : m.all isIndent = true)
    (hstarts : ¬ l.all isIndent = true → m <+: l) :
    trimStart (dedentLine m l) = trimStart l := by
  by_cases hmark : l.all isIndent = true
  · rw [dedentLine, emptied, if_pos hmark, List.drop_nil,
      trimStart_eq_nil_iff.2 (allBlank_of_isIndent hmark)]
    rfl
  · calc trimStart (dedentLine m l)
        = trimStart (m ++ dedentLine m l) :=
          (trimStart_append_blanks (allBlank_of_isIndent hm) _).symm
      _ = trimStart l := by rw [append_dedentLine (hstarts hmark) hmark]

/-- Removing indentation leaves a line blank, or with a mark on it. -/
theorem allBlank_dedentLine (hm : m.all isIndent = true)
    (hstarts : ¬ l.all isIndent = true → m <+: l) : allBlank (dedentLine m l) = allBlank l := by
  rw [Bool.eq_iff_iff, ← trimStart_eq_nil_iff, trimStart_dedentLine hm hstarts,
    trimStart_eq_nil_iff]

/-- **The lines that have a mark on them lose the same indentation.** -/
theorem exists_marked_dedent (s : List Char) :
    ∃ m, m.all isIndent = true ∧ marked (lines s) = (marked (lines (dedent s))).map (m ++ ·) := by
  refine ⟨margin ((lines s).map emptied), isIndent_margin _, ?_⟩
  have hstarts : ∀ l ∈ lines s, ¬ l.all isIndent = true → margin ((lines s).map emptied) <+: l :=
    fun l hl => margin_emptied_prefix_of_mem hl
  have hindent := isIndent_margin ((lines s).map emptied)
  rw [lines_dedent, marked, marked, List.filter_map, List.map_map]
  generalize margin ((lines s).map emptied) = m at hstarts hindent
  have hfilter : (lines s).filter ((fun l => !allBlank l) ∘ dedentLine m) =
      (lines s).filter fun l => !allBlank l :=
    List.filter_congr fun l hl => by
      rw [Function.comp_apply, allBlank_dedentLine hindent (hstarts l hl)]
  rw [hfilter]
  refine (List.map_id _).symm.trans (List.map_congr_left fun l hl => ?_)
  obtain ⟨hmem, hblank⟩ := List.mem_filter.1 hl
  have hmark : ¬ l.all isIndent = true := fun hall => by
    simp [allBlank_of_isIndent hall] at hblank
  exact (append_dedentLine (hstarts l hmem hmark) hmark).symm

/-! ### Lines between line boundaries of any kind -/

theorem splitLinesFrom_cons {c : Char} (h : c ≠ '\r') (line r : List Char) :
    splitLinesFrom line (c :: r) =
      if isLineEnd c then line.reverse :: splitLinesFrom [] r
      else splitLinesFrom (c :: line) r := by
  rw [splitLinesFrom.eq_def]
  split
  · next heq => cases heq
  · next heq =>
    cases heq
    exact absurd rfl h
  · next heq =>
    cases heq
    rfl

theorem splitLinesFrom_append (h : ∀ c ∈ l, isLineEnd c = false) (line r : List Char) :
    splitLinesFrom line (l ++ r) = splitLinesFrom (l.reverse ++ line) r := by
  induction l generalizing line with
  | nil => rfl
  | cons c l ih =>
    obtain ⟨hc, hl⟩ := List.forall_mem_cons.1 h
    have hreturn : c ≠ '\r' := by
      rintro rfl
      exact absurd hc (by decide)
    rw [List.cons_append, splitLinesFrom_cons hreturn, if_neg (by simp [hc]), ih hl,
      List.reverse_cons, List.append_assoc, List.singleton_append]

theorem splitLines_of_forall (h : ∀ c ∈ l, isLineEnd c = false) :
    splitLines l = if l = [] then [] else [l] := by
  have hline : splitLines l = splitLinesFrom l.reverse [] := by
    simpa [splitLines] using splitLinesFrom_append h [] []
  rw [hline]
  show (if l.reverse.isEmpty then [] else [l.reverse.reverse]) = _
  simp

theorem splitLines_append (h : ∀ c ∈ l, isLineEnd c = false) (r : List Char) :
    splitLines (l ++ '\n' :: r) = l :: splitLines r := by
  rw [splitLines, splitLinesFrom_append h, List.append_nil, splitLinesFrom_cons (by decide),
    if_pos (by decide), List.reverse_reverse, splitLines]

/-- Cutting undoes joining, but for an empty line at the end. -/
theorem splitLines_unlines (h : ∀ l ∈ ls, ∀ c ∈ l, isLineEnd c = false) :
    splitLines (unlines ls) = ls ∨ ls = splitLines (unlines ls) ++ [[]] := by
  induction ls with
  | nil => exact .inl rfl
  | cons l ls ih =>
    obtain ⟨hl, hls⟩ := List.forall_mem_cons.1 h
    cases ls with
    | nil =>
      rw [unlines_cons, following, List.append_nil, splitLines_of_forall hl]
      split
      · next hnil => exact .inr (by rw [hnil]; rfl)
      · exact .inl rfl
    | cons l' ls =>
      rw [unlines_cons, following, splitLines_append hl]
      rcases ih hls with heq | heq
      · exact .inl (by rw [heq])
      · exact .inr (by rw [List.cons_append, ← heq])

end LuaDocs.Text
