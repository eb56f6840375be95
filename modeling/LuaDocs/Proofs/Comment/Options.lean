import LuaDocs.Proofs.Comment.Lines
import LuaDocs.Proofs.Table

/-!
# The options of a comment

The options of a comment are those that its settings set and, for the other names, those that the
analyzer found. The last setting of an option counts. A comment without text has no options, not
even those that the analyzer found.
-/

namespace LuaDocs.Comment

open Text

variable {c : Comment} {s : String}

/-- The text in which settings are looked for: what is left after the lines that the analyzer added
have been removed. -/
def searched (c : Comment) : List Char :=
  if c.cleanup then dropCode true (dropTags (c.text.getD "").toList) else (c.text.getD "").toList

/-- Name and value of the option that a setting sets. -/
def assignment? : Setting → Option (String × String)
  | .option value => some (optionPair value)
  | .doctype _ => .none

/-- Names and values of the options that the lines of the comment set, in the order of the lines. -/
def assigned (c : Comment) : Table String :=
  ((sortLines .none (lines c.searched)).filterMap Sum.getLeft?).filterMap assignment?

/-- Name and value of the option that a line sets; a bare line sets none by itself. -/
def lineOption? (l : List Char) : Option (String × String) :=
  if firstWord l = optionMark ∧ isBare l = false then some (optionPair (trimStart (afterWord l)))
  else .none

/-- Names and values of the options that the lines of the comment set, each line by itself. -/
def lineOptions (c : Comment) : Table String := (lines c.searched).filterMap lineOption?

/-- The value that an option is to have: the value of the last line that sets it, or the one that
the analyzer found for an option that no line sets. -/
def expected? (c : Comment) (name : String) : Option String :=
  (Table.get? c.lineOptions.reverse name).or (Table.get? c.options name)

/-- Every option has the value that it is to have. -/
def Honours (c : Comment) : Prop :=
  ∀ name value, c.expected? name = some value → Table.get? c.read.options name = some value

/-- The comment has a text that is not empty. -/
def HasText (c : Comment) : Prop := ∃ s, c.text = some s ∧ s ≠ ""

theorem foldl_applyOption (found : List Setting) (options : Table String) :
    found.foldl applyOption options = Table.update options (found.filterMap assignment?) := by
  induction found generalizing options with
  | nil => rfl
  | cons x found ih =>
    cases x with
    | doctype value => exact ih options
    | option value => exact ih _

theorem options_read (h : c.HasText) : c.read.options = Table.update c.options c.assigned := by
  obtain ⟨s, htext, hne⟩ := h
  have hfilter : (c.text.filter fun s => !s.isEmpty) = some s := by
    rw [htext, Option.filter_some, if_pos (by simpa using hne)]
  have hread : c.read.options = (settings c.searched).foldl applyOption c.options := by
    rw [read, hfilter, searched, htext]
    rfl
  rw [hread, foldl_applyOption, settings_eq, assigned]

/-- **The options of a comment with text** are those of its settings, and those that the analyzer
found for other names. -/
theorem get?_options_read (h : c.HasText) (name : String) :
    Table.get? c.read.options name =
      (Table.get? c.assigned.reverse name).or (Table.get? c.options name) := by
  rw [options_read h, Table.get?_update_reverse]

theorem getD_text_of_not_hasText (h : ¬ c.HasText) : c.text.getD "" = "" := by
  cases htext : c.text with
  | none => rfl
  | some s => exact Classical.byContradiction fun hne => h ⟨s, htext, hne⟩

/-- A comment without text has no options, -/
theorem options_read_of_not_hasText (h : ¬ c.HasText) : c.read.options = [] := by
  have hfilter : (c.text.filter fun s => !s.isEmpty) = .none := by
    have hgetD := getD_text_of_not_hasText h
    cases htext : c.text with
    | none => rfl
    | some s =>
      rw [htext, Option.getD_some] at hgetD
      rw [hgetD]
      rfl
  rw [read, hfilter]

theorem lines_searched_of_not_hasText (h : ¬ c.HasText) : lines c.searched = [[]] := by
  have hnil : dropCode true (dropTags []) = [] := by
    rw [show dropTags [] = [] from rfl, dropCode]
  have hsearched : c.searched = [] := by
    rw [searched, getD_text_of_not_hasText h]
    split
    · exact hnil
    · rfl
  rw [hsearched]
  rfl

/-- and its lines set none. -/
theorem lineOptions_of_not_hasText (h : ¬ c.HasText) : c.lineOptions = [] := by
  rw [lineOptions, lines_searched_of_not_hasText h]
  rfl

/-- A line that is not bare sets the option of its setting. -/
theorem bind_lineSetting? {l : List Char} (h : isBare l = false) :
    (lineSetting? l).bind assignment? = lineOption? l := by
  rw [lineSetting?, lineOption?, h]
  by_cases hword : firstWord l = optionMark
  · rw [if_pos ⟨hword, rfl⟩, marker?, if_pos hword, Option.map_some, Option.bind_some, assignment?]
  · have hline : ¬ (firstWord l = optionMark ∧ false = false) := fun hline => hword hline.1
    rw [if_neg hline, marker?, if_neg hword]
    split
    · rfl
    · rfl

/-- Where no line is bare, the settings are those of the lines. -/
theorem assigned_of_not_isBare (h : ∀ l ∈ lines c.searched, isBare l = false) :
    c.assigned = c.lineOptions := by
  rw [assigned, filterMap_sortLines h, List.filterMap_filterMap, lineOptions]
  generalize lines c.searched = ls at h
  induction ls with
  | nil => rfl
  | cons l ls ih =>
    obtain ⟨hl, hls⟩ := List.forall_mem_cons.1 h
    rw [List.filterMap_cons, bind_lineSetting? hl, ih hls, List.filterMap_cons]

/-- **A comment with text has the options of its settings and those that the analyzer found,** and a
comment without text has none. So options are honoured, if no line is bare, exactly in a comment
that has a text or for which the analyzer found no option that could be lost. -/
theorem honours_iff (c : Comment) :
    (c.HasText → ∀ name, Table.get? c.read.options name =
      (Table.get? c.assigned.reverse name).or (Table.get? c.options name)) ∧
      (¬ c.HasText → c.read.options = []) ∧
      ((∀ l ∈ lines c.searched, isBare l = false) →
        (c.Honours ↔ c.HasText ∨ c.options = [])) := by
  refine ⟨get?_options_read, options_read_of_not_hasText, fun hbare => ⟨fun h => ?_, ?_⟩⟩
  · refine Classical.or_iff_not_imp_left.2 fun hnot => ?_
    cases hoptions : c.options with
    | nil => rfl
    | cons row options =>
      -- the first option that the analyzer found is lost
      have hfound : c.expected? row.1 = some row.2 := by
        rw [expected?, lineOptions_of_not_hasText hnot, hoptions, Table.get?_cons]
        simp
      have hread := h row.1 row.2 hfound
      rw [options_read_of_not_hasText hnot] at hread
      cases hread
  · intro h name value hvalue
    by_cases htext : c.HasText
    · rw [get?_options_read htext, assigned_of_not_isBare hbare]
      exact hvalue
    · rw [expected?, lineOptions_of_not_hasText htext, h.resolve_left htext] at hvalue
      cases hvalue

end LuaDocs.Comment
