import LuaDocs.Comment
import LuaDocs.Proofs.Text.Lines

/-!
# The settings of a comment, line by line

A line makes a setting if its first word is a marker. What stands after the marker is the value. A
line that has nothing but a marker on it waits for its value: the next line that is not blank is the
value, whatever it says. Only if nothing at all stands after the marker the line is no setting.

## Main results

* `Comment.settings_eq`: the settings of a text are those of its lines
* `Comment.marked_dropSettings`: what is left of a text is its other lines
* `Comment.quiet_dropSettings`: what is left of a text makes no setting
-/

namespace LuaDocs.Comment

open Text

variable {l s : List Char} {ls : List (List Char)}

/-! ### Markers -/

/-- The first word of a text. -/
def firstWord (s : List Char) : List Char := (trimStart s).takeWhile fun c => !isBlank c

/-- What stands after the first word of a text. -/
def afterWord (s : List Char) : List Char := (trimStart s).dropWhile fun c => !isBlank c

/-- The word that sets an option. -/
def optionMark : List Char := "!doc".toList

/-- The word that sets the type. -/
def doctypeMark : List Char := "!doctype".toList

/-- The setting that a line makes, for a value of the setting. -/
def marker? (l : List Char) : Option (List Char → Setting) :=
  if firstWord l = optionMark then some .option
  else if firstWord l = doctypeMark then some .doctype
  else .none

/-- The line has nothing but a marker on it. -/
def isBare (l : List Char) : Bool := (marker? l).isSome && allBlank (afterWord l)

/-- The value that a setting takes from the text after its marker, and the rest of the text. -/
def value (s : List Char) : List Char × List Char :=
  ((trimStart s).takeWhile (fun c => c != '\n'), (trimStart s).dropWhile fun c => c != '\n')

theorem optionMark_eq : optionMark = ['!', 'd', 'o', 'c'] := by decide

theorem doctypeMark_eq : doctypeMark = ['!', 'd', 'o', 'c', 't', 'y', 'p', 'e'] := by decide

theorem firstWord_append_afterWord (s : List Char) : firstWord s ++ afterWord s = trimStart s :=
  List.takeWhile_append_dropWhile

theorem startsBlank_afterWord (s : List Char) :
    startsBlank (afterWord s) = !(afterWord s).isEmpty := by
  have hhead := List.head?_dropWhile_not (fun c => !isBlank c) (trimStart s)
  rw [← afterWord] at hhead
  cases h : afterWord s with
  | nil => rfl
  | cons c r =>
    rw [h] at hhead
    simpa [startsBlank] using hhead

theorem settingValue?_eq (u : List Char) :
    settingValue? u = if startsBlank u then some (value u) else .none := rfl

/-- A marker that is not a word of its own has no value after it. -/
theorem settingValue?_of_firstWord_ne {w u : List Char} (htext : trimStart s = w ++ u)
    (hw : w.all (fun c => !isBlank c) = true) (hne : firstWord s ≠ w) :
    settingValue? u = .none := by
  rw [firstWord, htext, List.takeWhile_append_of_pos (List.all_eq_true.1 hw)] at hne
  cases u with
  | nil => exact absurd (List.append_nil w) hne
  | cons c u =>
    have hc : ¬ isBlank c = true := fun hc => hne (by
      rw [List.takeWhile_cons_of_neg (by simp [hc]), List.append_nil])
    exact if_neg hc

theorem setting?_of_optionMark (h : firstWord s = optionMark) :
    setting? s = (settingValue? (afterWord s)).map fun p => (.option p.1, p.2) := by
  have htext := firstWord_append_afterWord s
  have hblank := startsBlank_afterWord s
  rw [h, optionMark_eq] at htext
  rw [setting?, ← htext]
  cases hrest : afterWord s with
  | nil => rfl
  | cons c u =>
    -- a blank ends the word, so it does not go on as the longer marker
    rw [hrest] at hblank
    have hc : c ≠ 't' := by
      rintro rfl
      exact absurd hblank (by simp [startsBlank]; decide)
    simp only [List.cons_append, List.nil_append]
    split
    · next heq => exact absurd (List.cons.inj heq).1 hc
    · rfl

theorem setting?_of_doctypeMark (h : firstWord s = doctypeMark) :
    setting? s = (settingValue? (afterWord s)).map fun p => (.doctype p.1, p.2) := by
  have htext := firstWord_append_afterWord s
  rw [h, doctypeMark_eq] at htext
  rw [setting?, ← htext]
  rfl

theorem setting?_of_firstWord_ne (hoption : firstWord s ≠ optionMark)
    (hdoctype : firstWord s ≠ doctypeMark) : setting? s = .none := by
  rw [setting?]
  split
  · next t ht =>
    split
    · next u =>
      rw [settingValue?_of_firstWord_ne (w := doctypeMark) ht (by decide) hdoctype]
      rfl
    · rw [settingValue?_of_firstWord_ne (w := optionMark) ht (by decide) hoption]
      rfl
  · rfl

/-- A setting is a marker and a value after it. -/
theorem setting?_eq (s : List Char) :
    setting? s = (marker? s).bind fun kind =>
      (settingValue? (afterWord s)).map fun p => (kind p.1, p.2) := by
  rw [marker?]
  split
  · next hoption => exact setting?_of_optionMark hoption
  · next hoption =>
    split
    · next hdoctype => exact setting?_of_doctypeMark hdoctype
    · next hdoctype => exact setting?_of_firstWord_ne hoption hdoctype

/-! ### The first line of a text -/

theorem isEmpty_append_following (a : List Char) (ls : List (List Char)) :
    (a ++ following ls).isEmpty = (a.isEmpty && ls.isEmpty) := by
  cases ls with
  | nil => simp [following]
  | cons l ls => simp [following]

/-- What follows the first word of a text starts with a blank. -/
theorem startsBlank_append_following (l : List Char) (ls : List (List Char)) :
    startsBlank (afterWord l ++ following ls) = !(afterWord l ++ following ls).isEmpty := by
  have hblank := startsBlank_afterWord l
  cases hrest : afterWord l with
  | nil =>
    cases ls with
    | nil => rfl
    | cons l' ls => exact isBlank_lineFeed
  | cons c r =>
    rw [hrest] at hblank
    exact hblank

theorem firstWord_unlines (h : ¬ allBlank l = true) (ls : List (List Char)) :
    firstWord (unlines (l :: ls)) = firstWord l ∧
      afterWord (unlines (l :: ls)) = afterWord l ++ following ls := by
  have hword : ∀ c ∈ firstWord l, (!isBlank c) = true := List.all_eq_true.1 List.all_takeWhile
  have hblank := startsBlank_append_following l ls
  rw [firstWord, afterWord, unlines_cons, trimStart_append_of_not_allBlank h,
    ← firstWord_append_afterWord, List.append_assoc, List.takeWhile_append_of_pos hword,
    List.dropWhile_append_of_pos hword]
  cases hrest : afterWord l ++ following ls with
  | nil => simp
  | cons c r =>
    rw [hrest] at hblank
    have hc : isBlank c = true := hblank
    simp [hc]

/-- The value of a setting ends with its line; a blank line is skipped. -/
theorem value_append_following (h : '\n' ∉ l) (ls : List (List Char)) :
    value (l ++ following ls) =
      if allBlank l then value (unlines ls) else (trimStart l, following ls) := by
  unfold value
  split
  · next hblank => rw [trimStart_append_blanks hblank, trimStart_following]
  · next hblank =>
    have hfeed : '\n' ∉ trimStart l := fun hmem => h ((List.dropWhile_sublist _).subset hmem)
    rw [trimStart_append_of_not_allBlank hblank, takeWhile_append_following hfeed,
      dropWhile_append_following hfeed]

/-- The setting at the start of a text whose first line is not blank. -/
theorem setting?_unlines (h : ¬ allBlank l = true) (hfeed : '\n' ∉ l) (ls : List (List Char)) :
    setting? (unlines (l :: ls)) = (marker? l).bind fun kind =>
      if (afterWord l).isEmpty && ls.isEmpty then .none
      else if allBlank (afterWord l) then some (kind (value (unlines ls)).1, (value (unlines ls)).2)
      else some (kind (trimStart (afterWord l)), following ls) := by
  have hafter : '\n' ∉ afterWord l := fun hmem =>
    hfeed ((List.dropWhile_sublist _).subset ((List.dropWhile_sublist _).subset hmem))
  obtain ⟨hfirst, hrest⟩ := firstWord_unlines h ls
  have hmarker : marker? (unlines (l :: ls)) = marker? l := by rw [marker?, hfirst, marker?]
  rw [setting?_eq, hmarker, hrest, settingValue?_eq, startsBlank_append_following,
    isEmpty_append_following, value_append_following hafter]
  refine congrArg (marker? l).bind (funext fun kind => ?_)
  cases (afterWord l).isEmpty && ls.isEmpty with
  | true => rfl
  | false =>
    cases allBlank (afterWord l) with
    | true => rfl
    | false => rfl

/-- Blanks before a marker do not matter, -/
theorem marker?_congr {t : List Char} (h : trimStart s = trimStart t) : marker? s = marker? t := by
  rw [marker?, firstWord, h, marker?, firstWord]

/-- nor do they before a setting. -/
theorem setting?_congr {t : List Char} (h : trimStart s = trimStart t) :
    setting? s = setting? t := by
  rw [setting?, h, setting?]

/-! ### Settings and other lines -/

/-- The settings of a text, each with its value, and its other lines. The first argument is a
setting that still waits for its value. -/
def sortLines : Option (List Char → Setting) → List (List Char) → List (Setting ⊕ List Char)
  | .none, [] => []
  | .none, l :: ls =>
    if allBlank l then sortLines .none ls
    else match marker? l with
      | .none => .inr l :: sortLines .none ls
      | some kind =>
        if (afterWord l).isEmpty && ls.isEmpty then [.inr l]
        else if allBlank (afterWord l) then sortLines (some kind) ls
        else .inl (kind (trimStart (afterWord l))) :: sortLines .none ls
  | some kind, [] => [.inl (kind [])]
  | some kind, l :: ls =>
    if allBlank l then sortLines (some kind) ls
    else .inl (kind (trimStart l)) :: sortLines .none ls

/-- The line makes no setting before the lines `ls`: it has no marker, or nothing stands after
it. -/
def Idle (l : List Char) (ls : List (List Char)) : Prop :=
  marker? l = .none ∨ ls = [] ∧ afterWord l = []

/-- No line makes a setting. -/
def Quiet : List (List Char) → Prop
  | [] => True
  | l :: ls => Idle l ls ∧ Quiet ls

/-- The characters that a text leaves, cut at its settings, are those of its lines. -/
structure Agrees (cut : List (Setting ⊕ Char)) (sorted : List (Setting ⊕ List Char)) : Prop where
  settings : cut.filterMap Sum.getLeft? = sorted.filterMap Sum.getLeft?
  text : marked (lines (cut.filterMap Sum.getRight?)) = sorted.filterMap Sum.getRight?
  quiet : Quiet (lines (cut.filterMap Sum.getRight?))

/-- Cuts a text at the start of a line, where the setting `waiting` still has no value. -/
def cutFrom (waiting : Option (List Char → Setting)) (s : List Char) : List (Setting ⊕ Char) :=
  match waiting with
  | some kind => .inl (kind (value s).1) :: cutSettings false (value s).2
  | .none => cutSettings true s

theorem settings_eq_filterMap (s : List Char) :
    settings s = (cutSettings true s).filterMap Sum.getLeft? :=
  congrArg (fun f => (cutSettings true s).filterMap f) (funext fun p => by cases p <;> rfl)

theorem dropSettings_eq_filterMap (s : List Char) :
    dropSettings s = (cutSettings true s).filterMap Sum.getRight? :=
  congrArg (fun f => (cutSettings true s).filterMap f) (funext fun p => by cases p <;> rfl)

theorem cutSettings_cons (c : Char) (r : List Char) :
    cutSettings false (c :: r) = .inr c :: cutSettings (c == '\n') r := by
  rw [cutSettings]
  rfl

theorem cutSettings_of_setting? {x : Setting} {r : List Char} (h : setting? s = some (x, r)) :
    cutSettings true s = .inl x :: cutSettings false r := by
  cases s with
  | nil => cases h
  | cons c s =>
    rw [cutSettings]
    split
    · next x' r' h' =>
      obtain ⟨rfl, rfl⟩ := Prod.mk.inj (Option.some.inj (h'.symm.trans h))
      rfl
    · next h' => cases h'.symm.trans h

theorem cutSettings_of_eq_none (h : setting? s = .none) :
    cutSettings true s = cutSettings false s := by
  cases s with
  | nil => rw [cutSettings, cutSettings]
  | cons c s =>
    rw [cutSettings_cons, cutSettings]
    split
    · next h' => cases h'.symm.trans h
    · rfl

/-- Within a line there are no settings. -/
theorem cutSettings_append (h : '\n' ∉ l) (r : List Char) :
    cutSettings false (l ++ r) = l.map .inr ++ cutSettings false r := by
  induction l with
  | nil => rfl
  | cons c l ih =>
    obtain ⟨hc, hl⟩ := not_or.1 (mt List.mem_cons.2 h)
    have hfeed : (c == '\n') = false := by simpa using Ne.symm hc
    rw [List.cons_append, cutSettings_cons, hfeed, ih hl]
    rfl

theorem Agrees.cons {cut : List (Setting ⊕ Char)} {sorted : List (Setting ⊕ List Char)}
    (h : Agrees cut sorted) (x : Setting) : Agrees (.inl x :: cut) (.inl x :: sorted) :=
  ⟨congrArg (x :: ·) h.settings, h.text, h.quiet⟩

theorem filterMap_getLeft?_map (l : List Char) (cut : List (Setting ⊕ Char)) :
    (l.map Sum.inr ++ cut).filterMap Sum.getLeft? = cut.filterMap Sum.getLeft? := by
  simp [List.filterMap_map, Function.comp_def]

theorem filterMap_getRight?_map (l : List Char) (cut : List (Setting ⊕ Char)) :
    (l.map Sum.inr ++ cut).filterMap Sum.getRight? = l ++ cut.filterMap Sum.getRight? := by
  simp [List.filterMap_map, Function.comp_def]

/-- A line before a text that agrees with its lines is one more line. -/
theorem Agrees.line {sorted : List (Setting ⊕ List Char)}
    (h : Agrees (cutSettings true (unlines ls)) sorted) (hfeed : '\n' ∉ l) (hidle : Idle l ls) :
    Agrees (cutSettings false (l ++ following ls))
      (if allBlank l then sorted else .inr l :: sorted) := by
  -- what is left of the text is the line, or the line and what is left of the other lines
  obtain ⟨rest, hlines, hmarked, hquiet⟩ : ∃ rest,
      lines ((cutSettings false (l ++ following ls)).filterMap Sum.getRight?) = l :: rest ∧
        marked rest = sorted.filterMap Sum.getRight? ∧ Quiet (l :: rest) := by
    rw [cutSettings_append hfeed, filterMap_getRight?_map]
    cases ls with
    | nil =>
      have htext := h.text
      rw [following, cutSettings, List.filterMap_nil, List.append_nil, lines_of_notMem hfeed]
      rw [unlines_nil, cutSettings] at htext
      exact ⟨[], rfl, htext, hidle, trivial⟩
    | cons l' ls =>
      have hmarker : marker? l = .none := hidle.resolve_right fun hnil => by cases hnil.1
      rw [following, cutSettings_cons]
      exact ⟨_, lines_append hfeed _, h.text, .inl hmarker, h.quiet⟩
  have hsettings : (cutSettings false (l ++ following ls)).filterMap Sum.getLeft? =
      sorted.filterMap Sum.getLeft? := by
    rw [cutSettings_append hfeed, filterMap_getLeft?_map, ← h.settings]
    cases ls with
    | nil => rw [following, unlines_nil, cutSettings, cutSettings]
    | cons l' ls =>
      rw [following, cutSettings_cons]
      rfl
  refine ⟨?_, ?_, hlines ▸ hquiet⟩
  · rw [hsettings]
    split
    · rfl
    · rfl
  · rw [hlines]
    split
    · next hblank => rw [marked_cons_of_allBlank hblank, hmarked]
    · next hblank =>
      rw [marked_cons_of_not_allBlank hblank, hmarked]
      rfl

theorem marker?_of_allBlank (h : allBlank l = true) : marker? l = .none := by
  have hword : firstWord l = [] := by rw [firstWord, trimStart_eq_nil_iff.2 h, List.takeWhile_nil]
  rw [marker?, hword, if_neg (by decide), if_neg (by decide)]

section

variable {sorted : List (Setting ⊕ List Char)}

/-- A setting at the end of a line is one more setting. -/
theorem Agrees.setting (h : Agrees (cutSettings true (unlines ls)) sorted) (x : Setting) :
    Agrees (.inl x :: cutSettings false (following ls)) (.inl x :: sorted) :=
  (h.line List.not_mem_nil (.inl (marker?_of_allBlank rfl))).cons x

/-- A line that makes no setting is one more line of text, -/
theorem Agrees.text_line (h : Agrees (cutSettings true (unlines ls)) sorted) (hfeed : '\n' ∉ l)
    (hblank : ¬ allBlank l = true) (hidle : Idle l ls)
    (hset : setting? (unlines (l :: ls)) = .none) :
    Agrees (cutSettings true (unlines (l :: ls))) (.inr l :: sorted) := by
  have hline := h.line hfeed hidle
  rwa [if_neg hblank, ← unlines_cons, ← cutSettings_of_eq_none hset] at hline

/-- and a blank line changes nothing: it belongs to the setting that follows, or is no text. -/
theorem Agrees.blank_line (h : Agrees (cutSettings true (unlines ls)) sorted) (hfeed : '\n' ∉ l)
    (hblank : allBlank l = true) : Agrees (cutSettings true (unlines (l :: ls))) sorted := by
  have hset : setting? (unlines (l :: ls)) = setting? (unlines ls) :=
    setting?_congr (trimStart_unlines_of_allBlank hblank ls)
  cases hcut : setting? (unlines ls) with
  | none =>
    have hline := h.line hfeed (.inl (marker?_of_allBlank hblank))
    rwa [if_pos hblank, ← unlines_cons, ← cutSettings_of_eq_none (hset.trans hcut)] at hline
  | some p =>
    rw [cutSettings_of_setting? (hset.trans hcut), ← cutSettings_of_setting? hcut]
    exact h

end

/-- **A text is cut at its settings as its lines are sorted.** -/
theorem agrees_sortLines (hfeed : ∀ l ∈ ls, '\n' ∉ l) (waiting : Option (List Char → Setting)) :
    Agrees (cutFrom waiting (unlines ls)) (sortLines waiting ls) := by
  -- a setting that waits for its value is part of the state, so that each line is looked at once
  induction ls generalizing waiting with
  | nil =>
    have hempty : ∀ atStart, Agrees (cutSettings atStart []) [] := fun atStart => by
      rw [cutSettings]
      exact ⟨rfl, rfl, .inl (marker?_of_allBlank rfl), trivial⟩
    cases waiting with
    | none => exact hempty true
    | some kind => exact (hempty false).cons _
  | cons l ls ih =>
    obtain ⟨hl, hls⟩ := List.forall_mem_cons.1 hfeed
    have hrest : Agrees (cutSettings true (unlines ls)) (sortLines .none ls) := ih hls .none
    cases waiting with
    | some kind =>
      show Agrees (.inl (kind (value (unlines (l :: ls))).1) ::
        cutSettings false (value (unlines (l :: ls))).2) _
      rw [sortLines, unlines_cons, value_append_following hl]
      split
      · exact ih hls (some kind)
      · exact hrest.setting _
    | none =>
      show Agrees (cutSettings true (unlines (l :: ls))) _
      rw [sortLines]
      split
      · next hblank => exact hrest.blank_line hl hblank
      · next hblank =>
        have hset := setting?_unlines hblank hl ls
        split
        · next hmarker =>
          rw [hmarker] at hset
          exact hrest.text_line hl hblank (.inl hmarker) hset
        · next kind hmarker =>
          rw [hmarker, Option.bind_some] at hset
          split
          · next hlone =>
            rw [if_pos hlone] at hset
            rw [Bool.and_eq_true, List.isEmpty_iff, List.isEmpty_iff] at hlone
            obtain ⟨hafter, rfl⟩ := hlone
            exact hrest.text_line hl hblank (.inr ⟨rfl, hafter⟩) hset
          · next hlone =>
            rw [if_neg hlone] at hset
            split
            · next hbare =>
              rw [if_pos hbare] at hset
              rw [cutSettings_of_setting? hset]
              exact ih hls (some kind)
            · next hbare =>
              rw [if_neg hbare] at hset
              rw [cutSettings_of_setting? hset]
              exact hrest.setting _

/-- The setting that a line with a value makes by itself. -/
def lineSetting? (l : List Char) : Option Setting :=
  (marker? l).map fun kind => kind (trimStart (afterWord l))

/-- Where no line is bare, every line makes its own setting. -/
theorem filterMap_sortLines (h : ∀ l ∈ ls, isBare l = false) :
    (sortLines .none ls).filterMap Sum.getLeft? = ls.filterMap lineSetting? := by
  induction ls with
  | nil => rfl
  | cons l ls ih =>
    obtain ⟨hl, hls⟩ := List.forall_mem_cons.1 h
    rw [sortLines, List.filterMap_cons, lineSetting?]
    split
    · next hblank => rw [marker?_of_allBlank hblank, ih hls, Option.map_none]
    · cases hmarker : marker? l with
      | none => exact ih hls
      | some kind =>
        have hmark : allBlank (afterWord l) = false := by
          rw [isBare, hmarker, Option.isSome_some, Bool.true_and] at hl
          exact hl
        have hne : (afterWord l).isEmpty = false := by
          cases hafter : afterWord l with
          | nil =>
            rw [hafter] at hmark
            cases hmark
          | cons c r => rfl
        simp only [hmark, hne, Bool.false_and, Bool.false_eq_true, if_false, Option.map_some]
        exact congrArg (_ :: ·) (ih hls)

theorem Quiet.map {f : List Char → List Char} (h : Quiet ls)
    (hf : ∀ l ∈ ls, trimStart (f l) = trimStart l) : Quiet (ls.map f) := by
  induction ls with
  | nil => trivial
  | cons l ls ih =>
    obtain ⟨hl, hls⟩ := List.forall_mem_cons.1 hf
    refine ⟨?_, ih h.2 hls⟩
    rcases h.1 with hmarker | ⟨rfl, hafter⟩
    · exact .inl ((marker?_congr hl).trans hmarker)
    · refine .inr ⟨rfl, ?_⟩
      rw [afterWord, hl, ← afterWord, hafter]

theorem Quiet.filterMap_sortLines (h : Quiet ls) :
    (sortLines .none ls).filterMap Sum.getLeft? = [] := by
  induction ls with
  | nil => rfl
  | cons l ls ih =>
    rw [sortLines]
    split
    · exact ih h.2
    · rcases h.1 with hmarker | ⟨rfl, hafter⟩
      · rw [hmarker]
        exact ih h.2
      · rw [hafter]
        split
        · rfl
        · rfl

/-! ### Texts -/

theorem agrees_lines (s : List Char) : Agrees (cutSettings true s) (sortLines .none (lines s)) := by
  have hfeed : ∀ l ∈ lines s, '\n' ∉ l := fun l hl => notMem_of_mem_lines hl
  have hlines := agrees_sortLines hfeed .none
  rw [unlines_lines] at hlines
  exact hlines

/-- The settings of a text are those of its lines. -/
theorem settings_eq (s : List Char) :
    settings s = (sortLines .none (lines s)).filterMap Sum.getLeft? := by
  rw [settings_eq_filterMap, (agrees_lines s).settings]

/-- What is left of a text is its other lines. -/
theorem marked_dropSettings (s : List Char) :
    marked (lines (dropSettings s)) = (sortLines .none (lines s)).filterMap Sum.getRight? := by
  rw [dropSettings_eq_filterMap, (agrees_lines s).text]

theorem settings_of_quiet (h : Quiet (lines s)) : settings s = [] := by
  rw [settings_eq, h.filterMap_sortLines]

/-- What is left of a text makes no setting. -/
theorem quiet_dropSettings (s : List Char) : Quiet (lines (dropSettings s)) := by
  rw [dropSettings_eq_filterMap]
  exact (agrees_lines s).quiet

end LuaDocs.Comment
