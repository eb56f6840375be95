import LuaDocs.Comment
import LuaDocs.Proofs.Text.Lines

/-!
# The comment of an alias

The comment of an alias shows the definition of the alias as a block of code. The lines of
commentary in the block are the text of the comment. One character too many is cut off before the
end of the block: if the last line is commentary, the text lacks its last character.
-/

namespace LuaDocs.Comment

open Text

/-- A line of the code that shows a definition. -/
inductive CodeLine where
  /-- A line of commentary, which stands after two dashes. -/
  | commentary (l : List Char)
  /-- Any other line. -/
  | code (l : List Char)
  deriving DecidableEq, Repr

namespace CodeLine

/-- The line as it stands in the block. -/
def written : CodeLine → List Char
  | .commentary l => '-' :: '-' :: l
  | .code l => l

/-- The text of a line of commentary. -/
def commentary? : CodeLine → Option (List Char)
  | .commentary l => some l
  | .code _ => .none

/-- The line has no line end in it, and only commentary starts with two dashes. -/
def Proper : CodeLine → Prop
  | .commentary l => l.any isLineEnd = false
  | .code l => l.any isLineEnd = false ∧ ¬ ['-', '-'] <+: l

instance : DecidablePred Proper
  | .commentary l => inferInstanceAs (Decidable (l.any isLineEnd = false))
  | .code l => inferInstanceAs (Decidable (l.any isLineEnd = false ∧ ¬ ['-', '-'] <+: l))

end CodeLine

/-- The text of a line that starts with two dashes. -/
def afterDashes? (l : List Char) : Option (List Char) :=
  match l with
  | '-' :: '-' :: r => some r
  | _ => .none

/-- The lines of a definition as a block of code. -/
def fenced (ls : List CodeLine) : String :=
  String.ofList (fenceStart ++ unlines (ls.map CodeLine.written) ++ fenceEnd)

/-- The lines of commentary. -/
def commentary (ls : List CodeLine) : List (List Char) := ls.filterMap CodeLine.commentary?

theorem afterDashes?_of_not_prefix {l : List Char} (h : ¬ ['-', '-'] <+: l) :
    afterDashes? l = .none := by
  rw [afterDashes?.eq_def]
  split
  · next r => exact absurd (List.prefix_append ['-', '-'] r) h
  · rfl

theorem CodeLine.Proper.afterDashes?_written {x : CodeLine} (h : x.Proper) :
    afterDashes? x.written = x.commentary? := by
  cases x with
  | commentary l => rfl
  | code l => exact afterDashes?_of_not_prefix h.2

theorem CodeLine.Proper.oneLine {x : CodeLine} (h : x.Proper) :
    ∀ c ∈ x.written, isLineEnd c = false := by
  have hwritten : x.written.any isLineEnd = false := by
    cases x with
    | commentary l => exact h
    | code l => exact h.1
  exact fun c hc => Bool.not_eq_true _ ▸ List.any_eq_false.1 hwritten c hc

/-- A last line that loses a character is still commentary, if it was and anything is left. -/
theorem CodeLine.Proper.filterMap_shortened {x : CodeLine} (h : x.Proper) :
    (shortened x.written).filterMap afterDashes? = x.commentary?.elim [] shortened := by
  cases x with
  | commentary l =>
    cases l with
    | nil => rfl
    | cons c l => rfl
  | code l =>
    have hnone : afterDashes? l.dropLast = .none :=
      afterDashes?_of_not_prefix fun hstarts => h.2 (hstarts.trans (List.dropLast_prefix l))
    show (shortened l).filterMap afterDashes? = []
    rw [shortened]
    split
    · rfl
    · rw [List.filterMap_cons_none hnone, List.filterMap_nil]

/-! ### The block without its ends -/

/-- The block is cut one character before its end. -/
theorem drop_take_fence (body : List Char) :
    ((fenceStart ++ body ++ fenceEnd).take ((fenceStart ++ body ++ fenceEnd).length - 5)).drop
      fenceStart.length = body.dropLast := by
  have hstart : fenceStart.length = 7 := by decide
  have hend : fenceEnd.length = 4 := by decide
  rw [List.drop_take, List.append_assoc, List.drop_left, List.length_append, List.length_append,
    hstart, hend, show 7 + (body.length + 4) - 5 - 7 = body.length - 1 by omega,
    List.take_append_of_le_length (Nat.sub_le _ _), List.dropLast_eq_take]

theorem aliasText_of_fence (body : List Char) :
    aliasText (some (String.ofList (fenceStart ++ body ++ fenceEnd))) =
      some (String.ofList (unlines ((splitLines body.dropLast).filterMap afterDashes?))) := by
  have hstart : fenceStart.isPrefixOf (fenceStart ++ body ++ fenceEnd) = true := by
    rw [List.isPrefixOf_iff_prefix, List.append_assoc]
    exact List.prefix_append _ _
  have hend : fenceEnd.reverse.isPrefixOf (fenceStart ++ body ++ fenceEnd).reverse = true := by
    rw [List.isPrefixOf_iff_prefix, List.reverse_append]
    exact List.prefix_append _ _
  rw [aliasText, Option.map_some, String.toList_ofList, if_pos (by rw [hstart, hend]; rfl),
    drop_take_fence]
  rfl

/-- Commentary is found among the lines of a text. -/
theorem filterMap_splitLines {ls : List (List Char)} (h : ∀ l ∈ ls, ∀ c ∈ l, isLineEnd c = false) :
    (splitLines (unlines ls)).filterMap afterDashes? = ls.filterMap afterDashes? := by
  rcases splitLines_unlines h with heq | heq
  · rw [heq]
  · have hfilter := congrArg (List.filterMap afterDashes?) heq
    rw [List.filterMap_append] at hfilter
    exact (hfilter.trans (List.append_nil _)).symm

variable {init ls : List CodeLine} {x : CodeLine}

theorem filterMap_written (h : ∀ x ∈ ls, x.Proper) :
    (ls.map CodeLine.written).filterMap afterDashes? = commentary ls := by
  induction ls with
  | nil => rfl
  | cons x ls ih =>
    obtain ⟨hx, hls⟩ := List.forall_mem_cons.1 h
    have hcons : commentary (x :: ls) = _ := List.filterMap_cons
    rw [List.map_cons, List.filterMap_cons, hx.afterDashes?_written, ih hls, hcons]
    rfl

/-- The text that is read from a block of code, whose last line loses a character. -/
theorem aliasText_concat (hinit : ∀ x ∈ init, x.Proper) (hx : x.Proper) :
    aliasText (some (fenced (init ++ [x]))) =
      some (String.ofList (unlines (commentary init ++ x.commentary?.elim [] shortened))) := by
  have hlines : ∀ l ∈ init.map CodeLine.written ++ shortened x.written, ∀ c ∈ l,
      isLineEnd c = false := by
    refine List.forall_mem_append.2 ⟨List.forall_mem_map.2 fun y hy => (hinit y hy).oneLine, ?_⟩
    rw [shortened]
    split
    · exact List.forall_mem_nil _
    · exact List.forall_mem_singleton.2 fun c hc => hx.oneLine c (List.dropLast_subset _ hc)
  rw [fenced, aliasText_of_fence, List.map_append, List.map_singleton, dropLast_unlines,
    filterMap_splitLines hlines, List.filterMap_append, filterMap_written hinit,
    hx.filterMap_shortened]

/-- The last line of the block is commentary. -/
def endsInCommentary (ls : List CodeLine) : Bool := ls.getLast?.any fun x => x.commentary?.isSome

/-- **The text that is read from a block of code** is its commentary, less the last character if the
last line of the block is commentary. -/
theorem aliasText_fenced (h : ∀ x ∈ ls, x.Proper) :
    aliasText (some (fenced ls)) = some (String.ofList
      (if endsInCommentary ls then (unlines (commentary ls)).dropLast
        else unlines (commentary ls))) := by
  rcases List.eq_nil_or_concat ls with rfl | ⟨init, x, rfl⟩
  · exact aliasText_of_fence []
  · rw [List.concat_eq_append] at h ⊢
    obtain ⟨hinit, hx⟩ := List.forall_mem_append.1 h
    rw [aliasText_concat hinit (List.forall_mem_singleton.1 hx), endsInCommentary,
      List.getLast?_concat, commentary, commentary, List.filterMap_append]
    cases x with
    | commentary l => exact congrArg (fun s => some (String.ofList s)) (dropLast_unlines _ l).symm
    | code l => rfl

theorem commentary_ne_nil (h : endsInCommentary ls = true) : commentary ls ≠ [] := by
  obtain ⟨x, hlast, hx⟩ := Option.any_eq_true _ _ |>.1 h
  obtain ⟨l, hl⟩ := Option.isSome_iff_exists.1 hx
  exact List.ne_nil_of_mem (List.mem_filterMap.2 ⟨x, List.mem_of_getLast? hlast, hl⟩)

theorem dropLast_eq_self_iff {s : List Char} : s.dropLast = s ↔ s = [] := by
  refine ⟨fun h => ?_, fun h => h ▸ rfl⟩
  have hlength := congrArg List.length h
  rw [List.length_dropLast] at hlength
  exact List.length_eq_zero_iff.1 (by omega)

/-- **The commentary is read whole** if the last line of the block is no commentary, or if nothing
is there to be lost: the commentary is a single empty line. -/
theorem aliasText_whole_iff (ls : List CodeLine) (h : ∀ x ∈ ls, x.Proper) :
    aliasText (some (fenced ls)) = some (String.ofList (unlines (commentary ls))) ↔
      (endsInCommentary ls = true → commentary ls = [[]]) := by
  rw [aliasText_fenced h, Option.some_inj, String.ofList_inj]
  by_cases hends : endsInCommentary ls = true
  · have hne := commentary_ne_nil hends
    rw [if_pos hends, dropLast_eq_self_iff, unlines_eq_nil_iff]
    simp [hends, hne]
  · simp [hends]

/-- The definition of an alias between two lines of commentary. -/
def pairAlias : List CodeLine :=
  [.commentary "A pair".toList, .code "alias Pair = (A, B)".toList, .commentary "of two.".toList]

/-- The commentary of `pairAlias` is cut, and with a line of code after it is read whole. -/
theorem aliasText_pairAlias :
    (∀ x ∈ pairAlias ++ [.code []], x.Proper) ∧
      aliasText (some (fenced pairAlias)) ≠ some "A pair\nof two." ∧
      aliasText (some (fenced (pairAlias ++ [.code []]))) = some "A pair\nof two." := by
  have hproper : ∀ x ∈ pairAlias ++ [.code []], x.Proper := by decide
  have hpair : ∀ x ∈ pairAlias, x.Proper := (List.forall_mem_append.1 hproper).1
  have htext : String.ofList (unlines (commentary pairAlias)) = "A pair\nof two." := by
    decide +kernel
  have hsame : commentary (pairAlias ++ [.code []]) = commentary pairAlias :=
    List.filterMap_append.trans (List.append_nil _)
  have hcut : ¬ (endsInCommentary pairAlias = true → commentary pairAlias = [[]]) := by
    decide +kernel
  have hcode : ¬ endsInCommentary (pairAlias ++ [.code []]) = true := by decide +kernel
  rw [← htext]
  refine ⟨hproper, mt (aliasText_whole_iff pairAlias hpair).1 hcut, ?_⟩
  rw [← hsame, aliasText_whole_iff _ hproper]
  exact fun hends => absurd hends hcode

end LuaDocs.Comment
