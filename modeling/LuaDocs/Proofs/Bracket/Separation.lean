import LuaDocs.Proofs.Bracket.Pieces

/-!
# The elements of a list and its separators

A list is cut where a separator stands outside every bracket and string. The scan comes to each cut
as it started, so that what it makes of an element does not depend on what stands before. Only the
last element can leave a bracket or a string open, and it stays the last one when the elements are
joined again.

Nothing but these separators is lost, and blanks: those around the elements, if they are trimmed,
and those of pieces that hold nothing else.
-/

namespace LuaDocs

open Text

namespace Bracket

variable {strip : Bool} {sep : Char} {s : Scan} {a e text : List Char}

/-- The elements of a list: the pieces between separators that hold more than blanks, trimmed if
`strip` is set. -/
def elements (strip : Bool) (sep : Char) (text : List Char) : List (List Char) :=
  if strip then split sep text else splitRaw sep text

/-- The text without the separators that the scan meets outside every bracket and string. -/
def unseparated (sep : Char) : Scan → List Char → List Char
  | _, [] => []
  | s, c :: r =>
    if s.atTop && c == sep then unseparated sep (s.step c) r
    else c :: unseparated sep (s.step c) r

/-! ### Elements that are joined -/

/-- What is known of the elements of a list: all but the last leave nothing open, no separator is in
them, they are not blank, and they are trimmed if that was asked for. -/
structure AreElements (strip : Bool) (sep : Char) (es : List (List Char)) : Prop where
  parts : LevelParts es
  free : ∀ e ∈ es, unstopped (separates sep) .start e = true
  filled : ∀ e ∈ es, allBlank e = false
  trimmed : strip = true → ∀ e ∈ es, trim e = e

theorem areElements_elements (strip : Bool) (sep : Char) (text : List Char) :
    AreElements strip sep (elements strip sep text) := by
  cases strip with
  | false =>
    refine ⟨levelParts_splitRaw sep text, fun e he => ?_, fun e he => (mem_splitRaw.1 he).2,
      fun h => absurd h Bool.false_ne_true⟩
    exact unstopped_pieces sep text e (mem_splitRaw.1 he).1
  | true =>
    refine ⟨levelParts_split sep text, fun e => unstopped_split, fun e he => ?_, fun _ e he => ?_⟩
    · obtain ⟨p, hp, rfl⟩ := mem_split.1 he
      rw [allBlank_trim]
      exact (mem_splitRaw.1 hp).2
    · obtain ⟨p, -, rfl⟩ := mem_split.1 he
      exact trim_trim p

theorem AreElements.singleton {es : List (List Char)} (h : AreElements strip sep es) (he : e ∈ es) :
    AreElements strip sep [e] where
  parts := List.pairwise_singleton _ _
  free := List.forall_mem_singleton.2 (h.free e he)
  filled := List.forall_mem_singleton.2 (h.filled e he)
  trimmed hstrip := List.forall_mem_singleton.2 (h.trimmed hstrip e he)

/-- Elements that are joined by separators are found again. -/
theorem AreElements.elements_intercalate {es : List (List Char)} (h : AreElements strip sep es)
    (hsep : Scan.passes sep = true) : elements strip sep ([sep].intercalate es) = es := by
  have hraw : splitRaw sep ([sep].intercalate es) = es :=
    splitRaw_intercalate hsep h.parts fun e he => ⟨h.free e he, h.filled e he⟩
  cases strip with
  | false => exact hraw
  | true =>
    have htrim : es.map trim = es := by
      rw [List.map_congr_left (h.trimmed rfl), List.map_id']
    calc split sep ([sep].intercalate es)
      _ = es.map trim := by rw [split, hraw]
      _ = es := htrim

/-- Joined elements are cut where they were joined, -/
theorem elements_intercalate (strip : Bool) (hsep : Scan.passes sep = true) (text : List Char) :
    elements strip sep ([sep].intercalate (elements strip sep text)) = elements strip sep text :=
  (areElements_elements strip sep text).elements_intercalate hsep

/-- and an element is not cut again. -/
theorem elements_of_mem (hsep : Scan.passes sep = true) (he : e ∈ elements strip sep text) :
    elements strip sep e = [e] := by
  have hone := ((areElements_elements strip sep text).singleton he).elements_intercalate hsep
  rwa [List.intercalate_singleton] at hone

/-- After a level text, a separator starts a new list. -/
theorem elements_append_sep (strip : Bool) (hsep : Scan.passes sep = true) (h : Level a)
    (b : List Char) : elements strip sep (a ++ sep :: b) =
      elements strip sep a ++ elements strip sep b := by
  cases strip with
  | false => exact splitRaw_append_sep hsep h b
  | true => exact split_append_sep hsep h b

/-! ### What a list is without its separators -/

theorem separates_eq (hsep : Scan.passes sep = true) (s : Scan) (c : Char) :
    separates sep s c = (s.atTop && c == sep) := by
  rw [Bool.eq_iff_iff, separates_iff, Bool.and_eq_true, beq_iff_eq]
  constructor
  · rintro ⟨htop, -, rfl⟩
    exact ⟨htop, rfl⟩
  · rintro ⟨htop, rfl⟩
    exact ⟨htop, hsep, rfl⟩

/-- The pieces of a text hold all of it but its separators. -/
theorem flatten_pieces (hsep : Scan.passes sep = true) (s : Scan) (text : List Char) :
    (pieces sep s text).flatten = unseparated sep s text := by
  induction text generalizing s with
  | nil => rfl
  | cons c text ih =>
    rw [unseparated, ← separates_eq hsep]
    by_cases hc : separates sep s c = true
    · rw [pieces_cons_of_separates hc, if_pos hc, List.flatten_cons, List.nil_append, ih]
    · rw [pieces_cons_of_not_separates (Bool.eq_false_iff.2 hc), if_neg hc, List.flatten_cons,
        List.cons_append, ← List.flatten_cons, headD_cons_tail_pieces, ih]

theorem squeeze_flatten_filter (ps : List (List Char)) :
    squeeze (ps.filter fun p => !allBlank p).flatten = squeeze ps.flatten := by
  induction ps with
  | nil => rfl
  | cons p ps ih =>
    rw [List.flatten_cons, squeeze_append, List.filter_cons]
    split
    · rw [List.flatten_cons, squeeze_append, ih]
    · next hp =>
      have hblank : allBlank p = true := by simpa using hp
      rw [ih, squeeze_of_allBlank hblank, List.nil_append]

theorem squeeze_flatten_map_trim (ps : List (List Char)) :
    squeeze (ps.map trim).flatten = squeeze ps.flatten := by
  induction ps with
  | nil => rfl
  | cons p ps ih =>
    rw [List.map_cons, List.flatten_cons, List.flatten_cons, squeeze_append, squeeze_append,
      squeeze_trim, ih]

/-- The characters of the elements, in their order, are those of the text without its separators,
blanks apart. -/
theorem squeeze_flatten_elements (strip : Bool) (hsep : Scan.passes sep = true)
    (text : List Char) :
    squeeze (elements strip sep text).flatten = squeeze (unseparated sep .start text) := by
  have hraw : squeeze (splitRaw sep text).flatten = squeeze (unseparated sep .start text) := by
    rw [splitRaw, squeeze_flatten_filter, flatten_pieces hsep]
  cases strip with
  | false => exact hraw
  | true =>
    calc squeeze ((splitRaw sep text).map trim).flatten
      _ = squeeze (splitRaw sep text).flatten := squeeze_flatten_map_trim _
      _ = _ := hraw

/-- **A list is cut cleanly.** Whatever the text is, and whatever single character separates that is
neither a bracket nor a quote: the elements joined by the separator have the same elements, each
element is its own only element, and the elements hold, in order and blanks apart, all characters of
the text but the separators outside brackets and strings. -/
theorem elements_separate (strip : Bool) {sep : Char} (hsep : Scan.passes sep = true)
    (text : List Char) :
    elements strip sep ([sep].intercalate (elements strip sep text)) = elements strip sep text ∧
      (∀ e ∈ elements strip sep text, elements strip sep e = [e]) ∧
      squeeze (elements strip sep text).flatten = squeeze (unseparated sep .start text) :=
  ⟨elements_intercalate strip hsep text, fun _ => elements_of_mem hsep,
    squeeze_flatten_elements strip hsep text⟩

/-- A bracket too many, separators in brackets, blank pieces, and a string that is not closed. -/
def raggedList : List Char := "a), f(b, c) ,, [d , 'e\\', f".toList

/-- What comes after the first open bracket of the last element stays in that element. -/
theorem elements_raggedList : elements true ',' raggedList =
      ["a)".toList, "f(b, c)".toList, "[d , 'e\\', f".toList] ∧
    elements true ',' "a),f(b, c),[d , 'e\\', f".toList = elements true ',' raggedList ∧
    (∀ e ∈ elements true ',' raggedList, elements true ',' e = [e]) ∧
    squeeze (elements true ',' raggedList).flatten = "a)f(b,c)[d,'e\\',f".toList := by
  have helements : elements true ',' raggedList =
      ["a)".toList, "f(b, c)".toList, "[d , 'e\\', f".toList] := by decide +kernel
  have hjoined : [','].intercalate (elements true ',' raggedList) =
      "a),f(b, c),[d , 'e\\', f".toList := by decide +kernel
  have hkept : squeeze (unseparated ',' .start raggedList) = "a)f(b,c)[d,'e\\',f".toList := by
    decide +kernel
  have hcomma : Scan.passes ',' = true := by decide
  obtain ⟨hagain, hone, hchars⟩ := elements_separate true hcomma raggedList
  rw [hjoined] at hagain
  exact ⟨helements, hagain, hone, hchars.trans hkept⟩

end Bracket

end LuaDocs
