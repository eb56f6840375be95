import LuaDocs.Proofs.Bracket.Pieces
import LuaDocs.Proofs.Name.Plain

/-!
# Names and types, written and read again

A list of names and types is read in two steps: it is cut at its commas, and each element at its
colons. Pieces that are blank are dropped, and what is left is trimmed. Written again, an element
has the same pieces, with one blank after the colon that ends the name. So what has been read from
any text, however many blanks and separators there are in it, is read again from the text that is
written for it.
-/

namespace LuaDocs

open Text LuaDocs.Bracket

/-- The text of a name with its type, or of the one of them that is there. -/
def TypedName.text (t : TypedName) : String :=
  if t.name.isEmpty then t.type
  else if t.type.isEmpty then t.name
  else t.name ++ ": " ++ t.type

/-- The text of a list of names and types. -/
def TypedName.listText (ts : List TypedName) : String := ", ".intercalate (ts.map text)

theorem TypedName.toList_text (name type : List Char) :
    (TypedName.text ⟨String.ofList name, String.ofList type⟩).toList =
      if name = [] then type else if type = [] then name else name ++ [':', ' '] ++ type := by
  simp only [TypedName.text, String.isEmpty_iff, String.ofList_eq_empty_iff]
  split
  · simp
  · split
    · simp
    · simp

theorem TypedName.toList_listText (ts : List TypedName) : (listText ts).toList =
    [',', ' '].intercalate (ts.map fun t => t.text.toList) := by
  rw [listText, String.toList_intercalate, List.map_map]
  rfl

namespace Signature

variable {named : Bool} {b e p : List Char} {ps : List (List Char)} {t : TypedName}

/-! ### The pieces of an element -/

theorem isBlank_colon : isBlank ':' = false := by decide

theorem passes_colon : Scan.passes ':' = true := by decide

/-- The texts with colons between them. -/
def colons (ps : List (List Char)) : List Char := [':'].intercalate ps

theorem colons_append_head (b p : List Char) (ps : List (List Char)) :
    colons ((b ++ p) :: ps) = b ++ colons (p :: ps) := by
  cases ps with
  | nil => simp [colons]
  | cons q ps => simp [colons, List.intercalate_cons_cons]

theorem colons_append_last (b p : List Char) (ps : List (List Char)) :
    colons (ps ++ [p ++ b]) = colons (ps ++ [p]) ++ b := by
  induction ps with
  | nil => simp [colons]
  | cons q ps ih =>
    cases ps with
    | nil => simp [colons, List.intercalate_cons_cons]
    | cons r ps =>
      simp only [colons, List.cons_append, List.intercalate_cons_cons] at ih ⊢
      rw [ih]
      simp

/-- The name and type that the pieces of an element give. -/
def ofPieces (named : Bool) : List (List Char) → Option TypedName
  | [] => none
  | first :: rest =>
    if (rest.isEmpty && !named) || !isParameterName first then
      some ⟨"", String.ofList (trim (colons (first :: rest)))⟩
    else some ⟨String.ofList (trim first), String.ofList (trim (colons rest))⟩

theorem typedName?_eq (named : Bool) (e : List Char) :
    typedName? named e = ofPieces named (splitRaw ':' e) := by
  rw [typedName?]
  split
  · next h => rw [h]; rfl
  · next h => rw [h]; rfl

theorem isParameterName_eq (p : List Char) :
    isParameterName p = (!(trim p).isEmpty && (trim p).all isNameChar) := rfl

theorem isParameterName_trim (p : List Char) : isParameterName (trim p) = isParameterName p := by
  rw [isParameterName_eq, trim_trim, isParameterName_eq]

/-- Blanks around an element do not count. -/
theorem typedName?_trim (named : Bool) (e : List Char) :
    typedName? named (trim e) = typedName? named e := by
  rw [typedName?_eq, typedName?_eq]
  refine apply_splitRaw_trim isBlank_colon (fun b p ps hb => ?_) (fun b p ps hb => ?_) e
  · rw [ofPieces, ofPieces, isParameterName_eq, isParameterName_eq, trim_append hb,
      colons_append_head, trim_append hb]
  · cases ps with
    | nil =>
      rw [List.nil_append, List.nil_append, ofPieces, ofPieces, isParameterName_eq,
        isParameterName_eq, trim_append_blanks hb]
      simp [colons, trim_append_blanks hb]
    | cons q ps =>
      have hall := colons_append_last b p (q :: ps)
      rw [List.cons_append, List.cons_append] at hall
      rw [List.cons_append, List.cons_append, ofPieces, ofPieces, hall, trim_append_blanks hb,
        colons_append_last, trim_append_blanks hb]
      simp

/-- Blanks around pieces that are joined by colons do not count. -/
theorem trim_colons_trim (e : List Char) :
    trim (colons (splitRaw ':' (trim e))) = trim (colons (splitRaw ':' e)) := by
  refine apply_splitRaw_trim (f := fun ps => trim (colons ps)) isBlank_colon
    (fun b p ps hb => ?_) (fun b p ps hb => ?_) e
  · rw [colons_append_head, trim_append hb]
  · rw [colons_append_last, trim_append_blanks hb]

/-- The pieces of an element: no colon is in them, and they are not blank; all but the last are
level. -/
structure IsElement (ps : List (List Char)) : Prop where
  parts : LevelParts ps
  pieces : ∀ p ∈ ps, unstopped (separates ':') .start p = true ∧ allBlank p = false

theorem isElement_splitRaw (e : List Char) : IsElement (splitRaw ':' e) :=
  ⟨levelParts_splitRaw ':' e, fun p hp =>
    ⟨unstopped_pieces ':' e p (mem_splitRaw.1 hp).1, (mem_splitRaw.1 hp).2⟩⟩

theorem IsElement.tail (h : IsElement (p :: ps)) : IsElement ps :=
  ⟨(List.pairwise_cons.1 h.parts).2, fun q hq => h.pieces q (List.mem_cons_of_mem _ hq)⟩

theorem IsElement.splitRaw_colons (h : IsElement ps) : splitRaw ':' (colons ps) = ps :=
  splitRaw_intercalate passes_colon h.parts h.pieces

theorem IsElement.trim_colons_ne_nil (h : IsElement (p :: ps)) : trim (colons (p :: ps)) ≠ [] := by
  have hp := (h.pieces p List.mem_cons_self).2
  have hstart : colons (p :: ps) = p ++ colons ([] :: ps) := by
    rw [← colons_append_head, List.append_nil]
  rw [ne_eq, trim_eq_nil_iff, hstart, allBlank_append, hp]
  exact Bool.false_ne_true

/-- A piece that can be the name of a parameter is an identifier between blanks. -/
theorem isIdentifier_trim (h : isParameterName p = true) : Name.IsIdentifier (trim p) := by
  rw [isParameterName_eq, Bool.and_eq_true, Bool.not_eq_true', List.isEmpty_eq_false_iff,
    List.all_eq_true] at h
  exact h

/-! ### An element that is written again -/

/-- What is written for an element: its pieces with colons between them, or a name and the pieces of
its type. -/
theorem text_cases (h : typedName? named e = some t) :
    t.text.toList = trim (colons (splitRaw ':' e)) ∨
      ∃ p q ps, splitRaw ':' e = p :: q :: ps ∧ isParameterName p = true ∧
        t = ⟨String.ofList (trim p), String.ofList (trim (colons (q :: ps)))⟩ ∧
        t.text.toList = trim p ++ [':', ' '] ++ trim (colons (q :: ps)) := by
  have hpieces := isElement_splitRaw e
  rw [typedName?_eq] at h
  cases hps : splitRaw ':' e with
  | nil =>
    rw [hps] at h
    cases h
  | cons p ps =>
    rw [hps] at h hpieces
    rw [ofPieces] at h
    split at h
    · obtain rfl := Option.some.inj h
      exact .inl (TypedName.toList_text [] _)
    · next hnamed =>
      have hname : isParameterName p = true := by simp_all
      have hne := (isIdentifier_trim hname).1
      obtain rfl := Option.some.inj h
      rw [TypedName.toList_text, if_neg hne]
      cases ps with
      | nil => exact .inl (by simp [colons, trim, trimStart, trimEnd])
      | cons q ps =>
        rw [if_neg hpieces.tail.trim_colons_ne_nil]
        exact .inr ⟨p, q, ps, rfl, hname, rfl, rfl⟩

theorem level_identifier {c : List Char} (h : Name.IsIdentifier c) : Level c :=
  level_of_passes fun d hd => Scan.passes_of_class (by decide +kernel) (h.2 d hd)

/-- An element is read again from what is written for it. -/
theorem typedName?_text (h : typedName? named e = some t) :
    typedName? named t.text.toList = some t := by
  have hpieces := isElement_splitRaw e
  rcases text_cases h with htext | ⟨p, q, ps, hps, hname, ht, htext⟩
  · rw [htext, typedName?_trim, typedName?_eq, hpieces.splitRaw_colons, ← typedName?_eq, h]
  · rw [hps] at hpieces
    have hident := isIdentifier_trim hname
    have hfree : splitRaw ':' (trim p) = [trim p] := by
      refine splitRaw_of_unstopped (unstopped_trim (hpieces.pieces p List.mem_cons_self).1) ?_
      rw [allBlank_trim]
      exact (hpieces.pieces p List.mem_cons_self).2
    -- the blank after the colon is not part of the type
    have htype : trim (colons (splitRaw ':' ([' '] ++ trim (colons (q :: ps))))) =
        trim (colons (q :: ps)) := by
      rw [← trim_colons_trim, trim_append rfl, trim_trim, trim_colons_trim,
        hpieces.tail.splitRaw_colons]
    have hread : splitRaw ':' t.text.toList =
        trim p :: splitRaw ':' ([' '] ++ trim (colons (q :: ps))) := by
      rw [htext, List.append_assoc]
      exact (splitRaw_append_sep passes_colon (level_identifier hident) _).trans
        (congrArg (· ++ _) hfree)
    rw [typedName?_eq, hread, ofPieces, isParameterName_trim, hname, trim_trim, htype, ← ht]
    have hsome : (splitRaw ':' ([' '] ++ trim (colons (q :: ps)))).isEmpty = false := by
      rw [List.isEmpty_eq_false_iff]
      intro hnil
      rw [hnil] at htype
      exact hpieces.tail.trim_colons_ne_nil htype.symm
    rw [hsome]
    rfl

/-- What is written for an element has no blanks around it, and is not empty. -/
theorem trim_text (h : typedName? named e = some t) :
    trim t.text.toList = t.text.toList ∧ t.text.toList ≠ [] := by
  have hpieces := isElement_splitRaw e
  rcases text_cases h with htext | ⟨p, q, ps, hps, hname, -, htext⟩
  · rw [htext, trim_trim]
    refine ⟨rfl, ?_⟩
    cases hps : splitRaw ':' e with
    | nil =>
      rw [typedName?_eq, hps] at h
      cases h
    | cons p ps =>
      rw [hps] at hpieces
      exact hpieces.trim_colons_ne_nil
  · rw [hps] at hpieces
    have hne := (isIdentifier_trim hname).1
    rw [htext]
    have htype := hpieces.tail.trim_colons_ne_nil
    refine ⟨trim_append_append (trim_trim p) hne (trim_trim _) htype _, ?_⟩
    simp [hne]

/-- What holds of the pieces of an element, and of what is joined from such texts, holds of what is
written for the element. -/
theorem text_induction {P : List Char → Prop} (h : typedName? named e = some t)
    (hpiece : ∀ p ∈ splitRaw ':' e, P p)
    (hcolons : ∀ ps, LevelParts ps → (∀ p ∈ ps, P p) → P (colons ps))
    (htrim : ∀ x, P x → P (trim x))
    (happend : ∀ a x, Level a → P a → P x → P (a ++ ([':', ' '] ++ x))) : P t.text.toList := by
  have hparts := levelParts_splitRaw ':' e
  rcases text_cases h with htext | ⟨p, q, ps, hps, hname, -, htext⟩
  · rw [htext]
    exact htrim _ (hcolons _ hparts hpiece)
  · rw [hps] at hpiece hparts
    obtain ⟨hp, hrest⟩ := List.forall_mem_cons.1 hpiece
    rw [htext, List.append_assoc]
    exact happend _ _ (level_identifier (isIdentifier_trim hname)) (htrim _ hp)
      (htrim _ (hcolons _ (List.pairwise_cons.1 hparts).2 hrest))

variable {stop : Scan → Char → Bool}

theorem level_colon : Level [':'] := rfl

theorem level_colon_space : Level [':', ' '] := rfl

/-- What is written for an element stops no scan that the element does not stop, -/
theorem unstopped_text (hcolon : stop .start ':' = false) (hspace : stop .start ' ' = false)
    (he : unstopped stop .start e = true) (h : typedName? named e = some t) :
    unstopped stop .start t.text.toList = true := by
  have hsep : unstopped stop .start [':'] = true := unstopped_cons.2 ⟨hcolon, rfl⟩
  have hboth : unstopped stop .start [':', ' '] = true :=
    unstopped_cons.2 ⟨hcolon, unstopped_cons.2 ⟨hspace, rfl⟩⟩
  refine text_induction h (fun p hp => unstopped_of_mem_splitRaw passes_colon hcolon he hp)
    (fun ps hps hall => (unstopped_intercalate level_colon hsep hps).2 hall)
    (fun x => unstopped_trim) (fun a x ha hfree hx => ?_)
  rw [ha.unstopped_append, level_colon_space.unstopped_append]
  exact ⟨hfree, hboth, hx⟩

/-- and leaves nothing open that the element does not leave open. -/
theorem level_text (he : Level e) (h : typedName? named e = some t) : Level t.text.toList := by
  refine text_induction h (fun p hp => level_of_mem_splitRaw passes_colon he hp)
    (fun ps hps hall => (level_intercalate level_colon hps).2 hall)
    (fun x => level_trim.2) (fun a x ha _ hx => ?_)
  rwa [ha.append, level_colon_space.append]

/-! ### A list that is written again -/

theorem mem_typedNames {s : List Char} :
    t ∈ typedNames named s ↔ ∃ e ∈ split ',' s, typedName? named e = some t :=
  List.mem_filterMap

/-- The texts of a list are written one after the other. -/
theorem levelParts_texts (named : Bool) (s : List Char) :
    LevelParts ((typedNames named s).map fun t => t.text.toList) := by
  refine List.pairwise_map.2 ((levelParts_split ',' s).filterMap _ ?_)
  intro e e' he t ht t' _
  exact level_text he ht

theorem passes_comma : Scan.passes ',' = true := by decide

theorem typedNames_trim (named : Bool) (s : List Char) :
    typedNames named (trim s) = typedNames named s := by
  rw [typedNames, split_trim (by decide), typedNames]

theorem filterMap_texts {ts : List TypedName}
    (h : ∀ t ∈ ts, typedName? named t.text.toList = some t) :
    (ts.map fun t => t.text.toList).filterMap (typedName? named) = ts := by
  induction ts with
  | nil => rfl
  | cons t ts ih =>
    rw [List.forall_mem_cons] at h
    rw [List.map_cons, List.filterMap_cons, h.1, ih h.2]

/-- **A list that was read is read again from what is written for it.** -/
theorem typedNames_listText (named : Bool) (s : List Char) :
    typedNames named (TypedName.listText (typedNames named s)).toList = typedNames named s := by
  have hsplit : split ',' (TypedName.listText (typedNames named s)).toList =
      (typedNames named s).map fun t => t.text.toList := by
    rw [TypedName.toList_listText,
      split_intercalate passes_comma (by decide) (levelParts_texts named s)]
    refine flatMap_eq_self fun x hx => ?_
    obtain ⟨t, ht, rfl⟩ := List.mem_map.1 hx
    obtain ⟨e, he, ht⟩ := mem_typedNames.1 ht
    have hfree := unstopped_text (by decide) (by decide) (unstopped_split he) ht
    exact split_of_unstopped hfree (trim_text ht).1 (trim_text ht).2
  rw [typedNames, hsplit]
  refine filterMap_texts fun t ht => ?_
  obtain ⟨e, -, ht⟩ := mem_typedNames.1 ht
  exact typedName?_text ht

/-- What is written for a list stops no scan that the list does not stop, -/
theorem unstopped_listText (hcolon : stop .start ':' = false) (hcomma : stop .start ',' = false)
    (hspace : stop .start ' ' = false) {s : List Char} (hs : unstopped stop .start s = true) :
    unstopped stop .start (TypedName.listText (typedNames named s)).toList = true := by
  have hsep : unstopped stop .start [',', ' '] = true :=
    unstopped_cons.2 ⟨hcomma, unstopped_cons.2 ⟨hspace, rfl⟩⟩
  rw [TypedName.toList_listText,
    unstopped_intercalate level_comma_space hsep (levelParts_texts named s)]
  intro x hx
  obtain ⟨t, ht, rfl⟩ := List.mem_map.1 hx
  obtain ⟨e, he, ht⟩ := mem_typedNames.1 ht
  exact unstopped_text hcolon hspace (unstopped_of_mem_split passes_comma hcomma hs he) ht

/-- and leaves nothing open that the list does not leave open. -/
theorem level_listText {s : List Char} (hs : Level s) :
    Level (TypedName.listText (typedNames named s)).toList := by
  rw [TypedName.toList_listText, level_intercalate level_comma_space (levelParts_texts named s)]
  intro x hx
  obtain ⟨t, ht, rfl⟩ := List.mem_map.1 hx
  obtain ⟨e, he, ht⟩ := mem_typedNames.1 ht
  exact level_text (level_of_mem_split passes_comma hs he) ht

end Signature

end LuaDocs
