import LuaDocs.Proofs.Comment.Lines

/-!
# The text of a comment

The text of a comment is its lines without the settings. A line with nothing but a marker on it
waits for its value and takes the next line that is not blank, unless the line before it has taken
it. So two such lines make one setting, and the text is lost only where such a line is left over and
a line of text comes next.
-/

namespace LuaDocs.Comment

open Text

variable {l : List Char} {done ls : List (List Char)} {waiting : Option (List Char → Setting)}

/-- The line has no marker. -/
def isText (l : List Char) : Bool := (marker? l).isNone

/-- The lines that are neither blank nor a setting. -/
def textLines (ls : List (List Char)) : List (List Char) := (marked ls).filter isText

/-- The lines with a mark on them in the text that was read are the lines of text of the comment,
less an indentation that all of them have. -/
def KeepsText (s text : List Char) : Prop :=
  ∃ m, m.all isIndent = true ∧ textLines (lines s) = (marked (lines text)).map (m ++ ·)

/-- The number of bare lines that stand directly before a line, blank lines apart. -/
def bareRun (before : List (List Char)) : Nat := ((marked before).reverse.takeWhile isBare).length

/-- The line waits for its value: it is bare, and the bare lines before it make pairs, so that it is
not itself the value of the one before it. -/
def Waits (before : List (List Char)) (l : List Char) : Prop :=
  isBare l = true ∧ bareRun before % 2 = 0

/-- The next line that is not blank, if there is one, has a marker. -/
def NextMarked (after : List (List Char)) : Prop := ∀ v ∈ (marked after).head?, isText v = false

/-- A line that waits for its value finds a line with a marker, or at least a blank. -/
def Finds (l : List Char) (after : List (List Char)) : Prop :=
  NextMarked after ∧ ¬ (afterWord l = [] ∧ after = [])

/-- All lines that wait for their value after the lines `done` find one that is no text. -/
def AllFind (done ls : List (List Char)) : Prop :=
  ∀ before l after, ls = before ++ l :: after → Waits (done ++ before) l → Finds l after

/-- The lines that are left of a text. -/
def keptLines (waiting : Option (List Char → Setting)) (ls : List (List Char)) :
    List (List Char) := (sortLines waiting ls).filterMap Sum.getRight?

/-! ### Lines that are kept -/

theorem keptLines_of_allBlank (h : allBlank l = true) (ls : List (List Char)) :
    keptLines waiting (l :: ls) = keptLines waiting ls := by
  cases waiting with
  | none => rw [keptLines, sortLines, if_pos h, keptLines]
  | some kind => rw [keptLines, sortLines, if_pos h, keptLines]

/-- A setting that waits takes the next line. -/
theorem keptLines_some (h : ¬ allBlank l = true) (kind : List Char → Setting)
    (ls : List (List Char)) : keptLines (some kind) (l :: ls) = keptLines .none ls := by
  rw [keptLines, sortLines, if_neg h]
  rfl

theorem keptLines_none (h : ¬ allBlank l = true) (ls : List (List Char)) :
    keptLines .none (l :: ls) =
      if isText l then l :: keptLines .none ls
      else if afterWord l = [] ∧ ls = [] then [l]
      else keptLines (if isBare l then marker? l else .none) ls := by
  rw [keptLines, sortLines, if_neg h, isText, isBare]
  cases hmarker : marker? l with
  | none => rfl
  | some kind =>
    by_cases hlone : afterWord l = [] ∧ ls = []
    · simp [hlone]
    · have hlone' : ((afterWord l).isEmpty && ls.isEmpty) = false := by simpa using hlone
      cases hbare : allBlank (afterWord l) with
      | true => simp [hlone, hlone', keptLines]
      | false => simp [hlone, hlone', keptLines, List.filterMap_cons]

theorem textLines_cons_of_allBlank (h : allBlank l = true) (ls : List (List Char)) :
    textLines (l :: ls) = textLines ls := by
  rw [textLines, marked_cons_of_allBlank h, textLines]

theorem textLines_cons (h : ¬ allBlank l = true) (ls : List (List Char)) :
    textLines (l :: ls) = if isText l then l :: textLines ls else textLines ls := by
  rw [textLines, marked_cons_of_not_allBlank h, List.filter_cons]
  rfl

theorem bareRun_concat_of_allBlank (h : allBlank l = true) (before : List (List Char)) :
    bareRun (before ++ [l]) = bareRun before := by
  rw [bareRun, marked, List.filter_append, ← marked, ← marked, marked_cons_of_allBlank h]
  simp [marked, bareRun]

theorem bareRun_concat (h : ¬ allBlank l = true) (before : List (List Char)) :
    bareRun (before ++ [l]) = if isBare l then bareRun before + 1 else 0 := by
  have hmarked : marked (before ++ [l]) = marked before ++ [l] := by
    rw [marked, List.filter_append, ← marked, ← marked, marked_cons_of_not_allBlank h]
    rfl
  rw [bareRun, hmarked, List.reverse_append, List.reverse_singleton, List.singleton_append,
    List.takeWhile_cons]
  split
  · rw [List.length_cons, bareRun]
  · rfl

/-- No line of text is kept that the text does not have. -/
theorem filter_keptLines_sublist (ls : List (List Char)) (waiting : Option (List Char → Setting)) :
    ((keptLines waiting ls).filter isText).Sublist (textLines ls) := by
  induction ls generalizing waiting with
  | nil =>
    cases waiting with
    | none => exact List.nil_sublist _
    | some kind => exact List.nil_sublist _
  | cons l ls ih =>
    by_cases hblank : allBlank l = true
    · rw [keptLines_of_allBlank hblank, textLines_cons_of_allBlank hblank]
      exact ih waiting
    · rw [textLines_cons hblank]
      cases waiting with
      | some kind =>
        rw [keptLines_some hblank]
        split
        · exact (ih .none).cons l
        · exact ih .none
      | none =>
        rw [keptLines_none hblank]
        split
        · next htext =>
          rw [List.filter_cons_of_pos htext]
          exact (ih .none).cons_cons l
        · next htext =>
          split
          · rw [List.filter_cons_of_neg htext]
            exact List.nil_sublist _
          · exact ih _

theorem keptLines_ne_cons (htext : isText l = true) (ls : List (List Char)) :
    keptLines waiting ls ≠ l :: textLines ls := by
  intro heq
  have hall : (keptLines waiting ls).filter isText = keptLines waiting ls := by
    rw [heq, List.filter_cons_of_pos htext, textLines, List.filter_filter]
    simp
  have hlength := (filter_keptLines_sublist ls waiting).length_le
  rw [hall, heq, List.length_cons] at hlength
  omega

/-! ### Lines that wait -/

theorem isBare_of_isText (h : isText l = true) : isBare l = false := by
  rw [isBare, Option.isNone_iff_eq_none.1 h]
  rfl

theorem isSome_marker?_of_isBare (h : isBare l = true) : (marker? l).isSome = true :=
  (Bool.and_eq_true_iff.1 h).1

theorem allFind_cons :
    AllFind done (l :: ls) ↔ (Waits done l → Finds l ls) ∧ AllFind (done ++ [l]) ls := by
  constructor
  · intro h
    refine ⟨fun hwaits => h [] l ls rfl (by rwa [List.append_nil]), ?_⟩
    intro before v after hls hwaits
    refine h (l :: before) v after (by rw [hls, List.cons_append]) ?_
    rwa [List.append_assoc, List.singleton_append] at hwaits
  · rintro ⟨hl, hls⟩ before v after heq hwaits
    cases before with
    | nil =>
      obtain ⟨rfl, rfl⟩ := List.cons.inj heq
      exact hl (by rwa [List.append_nil] at hwaits)
    | cons l' before =>
      obtain ⟨rfl, htail⟩ := List.cons.inj heq
      exact hls before v after htail (by rwa [List.append_assoc])

/-- After the lines `done`, a setting waits for its value if it is left over by the pairs of bare
lines. -/
def Tracks (waiting : Option (List Char → Setting)) (done : List (List Char)) : Prop :=
  waiting.isSome = true ↔ bareRun done % 2 = 1

theorem Tracks.blank (h : Tracks waiting done) (hblank : allBlank l = true) :
    Tracks waiting (done ++ [l]) := by
  rw [Tracks, bareRun_concat_of_allBlank hblank]
  exact h

theorem tracks_none (h : bareRun done % 2 = 0) : Tracks .none done :=
  ⟨fun hsome => absurd hsome (by simp), fun hodd => by omega⟩

/-- A line that is taken for a value leaves no setting waiting. -/
theorem Tracks.taken {kind : List Char → Setting} (h : Tracks (some kind) done)
    (hblank : ¬ allBlank l = true) : Tracks .none (done ++ [l]) := by
  have hodd := h.1 rfl
  refine tracks_none ?_
  rw [bareRun_concat hblank]
  split
  · omega
  · rfl

theorem tracks_of_not_isBare (done : List (List Char)) (hblank : ¬ allBlank l = true)
    (hbare : isBare l = false) : Tracks .none (done ++ [l]) := by
  refine tracks_none ?_
  rw [bareRun_concat hblank, hbare]
  rfl

theorem Tracks.bare (h : Tracks .none done) (hblank : ¬ allBlank l = true)
    (hbare : isBare l = true) : Waits done l ∧ Tracks (marker? l) (done ++ [l]) := by
  have heven : bareRun done % 2 = 0 := by
    have := mt h.2 (by simp)
    omega
  refine ⟨⟨hbare, heven⟩, fun _ => ?_, fun _ => isSome_marker?_of_isBare hbare⟩
  rw [bareRun_concat hblank, if_pos hbare]
  omega

/-- **The lines of text are kept if no setting takes one of them for its value.** -/
theorem keptLines_eq_iff (h : Tracks waiting done) :
    keptLines waiting ls = textLines ls ↔
      (waiting.isSome = true → NextMarked ls) ∧ AllFind done ls := by
  induction ls generalizing waiting done with
  | nil =>
    have hkept : keptLines waiting [] = textLines [] := by
      cases waiting with
      | none => rfl
      | some kind => rfl
    refine iff_of_true hkept ⟨fun _ v hv => absurd hv (by simp [marked]), ?_⟩
    intro before l after heq
    exact absurd heq.symm (List.append_ne_nil_of_right_ne_nil _ (List.cons_ne_nil _ _))
  | cons l ls ih =>
    rw [allFind_cons]
    by_cases hblank : allBlank l = true
    · have hbare : isBare l = false := by
        rw [isBare, marker?_of_allBlank hblank]
        rfl
      rw [keptLines_of_allBlank hblank, textLines_cons_of_allBlank hblank, NextMarked,
        marked_cons_of_allBlank hblank, ih (h.blank hblank)]
      simp [Waits, hbare, NextMarked]
    · have hnext : NextMarked (l :: ls) ↔ isText l = false := by
        simp [NextMarked, marked_cons_of_not_allBlank hblank]
      rw [textLines_cons hblank, hnext]
      cases waiting with
      | some kind =>
        have hnot : ¬ Waits done l := fun hwaits => by
          have hodd := h.1 rfl
          have heven := hwaits.2
          omega
        rw [keptLines_some hblank]
        by_cases htext : isText l = true
        · simp [htext, keptLines_ne_cons htext]
        · simp [htext, hnot, ih (h.taken hblank)]
      | none =>
        rw [keptLines_none hblank]
        by_cases htext : isText l = true
        · have hbare := isBare_of_isText htext
          simp [htext, Waits, hbare, ih (tracks_of_not_isBare done hblank hbare)]
        · rw [if_neg htext, if_neg htext]
          by_cases hbare : isBare l = true
          · obtain ⟨hwaits, htracks⟩ := h.bare hblank hbare
            by_cases hlone : afterWord l = [] ∧ ls = []
            · rw [if_pos hlone, hlone.2]
              simp [hwaits, Finds, hlone.1, textLines, marked]
            · rw [if_neg hlone, if_pos hbare, ih htracks]
              simp only [hwaits, Finds, hlone, isSome_marker?_of_isBare hbare]
              simp
          · have hmark : ¬ (afterWord l = [] ∧ ls = []) := fun hlone => hbare (by
              simpa [isBare, hlone.1, allBlank, isText, Option.isSome_iff_ne_none] using htext)
            rw [Bool.not_eq_true] at hbare
            simp [hmark, Waits, hbare, ih (tracks_of_not_isBare done hblank hbare)]

/-! ### Reading -/

/-- The text that is read from a comment to which the analyzer has added nothing. -/
theorem getD_text_read (text : String) (options : Table String) (doctype : Option String) :
    ((read ⟨some text, false, options, doctype⟩).text.getD "").toList =
      dedent (dropSettings text.toList) := by
  by_cases hempty : text = ""
  · have hdrop : dropSettings [] = [] := by
      rw [dropSettings_eq_filterMap, cutSettings, List.filterMap_nil]
    subst hempty
    show [] = dedent (dropSettings [])
    rw [hdrop]
    rfl
  · have hfilter : ((some text).filter fun s => !s.isEmpty) = some text := by
      rw [Option.filter_some, if_pos (by simpa using hempty)]
    rw [read, hfilter]
    exact String.toList_ofList

theorem isText_append {m : List Char} (h : m.all isIndent = true) (l : List Char) :
    isText (m ++ l) = isText l := by
  rw [isText, marker?_congr (trimStart_append_blanks (allBlank_of_isIndent h) l), isText]

/-- The text is read as it stands if its lines of text are kept. -/
theorem keepsText_dedent_iff (s : List Char) :
    KeepsText s (dedent (dropSettings s)) ↔ keptLines .none (lines s) = textLines (lines s) := by
  obtain ⟨m, hm, hkept⟩ := exists_marked_dedent (dropSettings s)
  rw [marked_dropSettings, ← keptLines] at hkept
  constructor
  · rintro ⟨m', hm', htext⟩
    -- no line that is kept has a marker, whatever the indentation
    have hall : ∀ l ∈ keptLines .none (lines s), isText l = true := by
      rw [hkept]
      refine List.forall_mem_map.2 fun l hl => ?_
      have hmem : m' ++ l ∈ textLines (lines s) := htext ▸ List.mem_map_of_mem hl
      rw [isText_append hm, ← isText_append hm']
      exact (List.mem_filter.1 hmem).2
    have hsublist := filter_keptLines_sublist (lines s) .none
    rw [List.filter_eq_self.2 hall] at hsublist
    refine hsublist.eq_of_length ?_
    rw [htext, hkept, List.length_map, List.length_map]
  · intro heq
    exact ⟨m, hm, heq.symm.trans hkept⟩

/-- What was read makes no setting. -/
theorem settings_dedent (s : List Char) : settings (dedent (dropSettings s)) = [] := by
  refine settings_of_quiet ?_
  rw [lines_dedent]
  refine (quiet_dropSettings s).map fun l hl => ?_
  exact trimStart_dedentLine (isIndent_margin _) (margin_emptied_prefix_of_mem hl)

/-- **The text of a comment is read as it stands if no setting takes a line of text for its value,**
and reading it again finds no setting. -/
theorem keepsText_iff (text : String) (options : Table String) (doctype : Option String) :
    (KeepsText text.toList ((read ⟨some text, false, options, doctype⟩).text.getD "").toList ↔
      ∀ before l after, lines text.toList = before ++ l :: after →
        Waits before l → Finds l after) ∧
      settings ((read ⟨some text, false, options, doctype⟩).text.getD "").toList = [] := by
  rw [getD_text_read]
  refine ⟨?_, settings_dedent _⟩
  have htracks : Tracks .none [] := tracks_none rfl
  rw [keepsText_dedent_iff, keptLines_eq_iff htracks]
  exact and_iff_right fun h => absurd h (by simp)

end LuaDocs.Comment
