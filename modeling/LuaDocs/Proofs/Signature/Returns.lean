import LuaDocs.Proofs.Name.Called
import LuaDocs.Proofs.Signature.Constructors

/-!
# Parentheses around results

The results of a function may stand in parentheses. These are taken away if the text of the results
starts with a parenthesis and ends with one, whether the two match or not. If they do not, as in
`(A|B), (C|D)`, both are missing from the types that are read. This always shows: no parenthesis is
lost in reading a list, so that the text with the two parentheses and the text without them are read
as different lists.
-/

namespace LuaDocs

open Text LuaDocs.Bracket

namespace Signature

/-! ### The parts of a signature that is written -/

theorem functionReturns_colon {s : List Char} (hs : trim s = s) :
    functionReturns (trim (':' :: ' ' :: s)) = .ok s := by
  obtain ⟨hstart, hend⟩ := trim_eq_self_iff.1 hs
  have htrim : trim (':' :: ' ' :: s) = ':' :: trimEnd (' ' :: s) :=
    trim_append_cons (by decide) [] (' ' :: s)
  have hrest : trimStart (trimEnd (' ' :: s)) = s := by
    by_cases hne : s = []
    · subst hne
      rfl
    · have hkept : trimEnd (' ' :: s) = [' '] ++ s := trimEnd_append_of_ne_nil hend hne [' ']
      rw [hkept, trimStart_append_blanks (by decide), hstart]
  rw [htrim]
  exact congrArg Except.ok hrest

/-- What is read after the name from a signature with parameters and results. -/
theorem callOf_written {params results t : List Char} (hparams : Fills ')' params)
    (hresults : trim results = results)
    (ht : trimEnd t = trimEnd (params ++ ')' :: ':' :: ' ' :: results)) :
    functionReturns (afterParams ('(' :: t)) = .ok results ∧
      callOf ('(' :: t) results =
        ⟨[], typedNames true params, typedNames false (dropParens results)⟩ := by
  have hgenerics : unwrap '<' '>' ('(' :: t) =
      ([], '(' :: (params ++ ')' :: trimEnd (':' :: ' ' :: results))) := by
    have htrim : trim ('(' :: t) = '(' :: trimEnd t := trim_append_cons (by decide) [] t
    rw [← trimEnd_append_cons (by decide), ← ht, ← htrim]
    rfl
  have hgroup : unwrap '(' ')' ('(' :: (params ++ ')' :: trimEnd (':' :: ' ' :: results))) =
      (trim params, trim (':' :: ' ' :: results)) := by
    rw [hparams.unwrap_eq (by decide), trim_trimEnd]
  rw [afterParams, callOf, hgenerics, hgroup, typedNames_trim]
  exact ⟨functionReturns_colon hresults, rfl⟩

/-- **How a signature with parameters and results is read.** -/
theorem readFunction_written {name own params results : String}
    (hname : readName (name ++ "(") = .ok (own, "(")) (hparams : Fills ')' params.toList)
    (hresults : trim results.toList = results.toList) :
    readFunction (name ++ "(" ++ params ++ "): " ++ results) =
      .ok (own, ⟨[], typedNames true params.toList,
        typedNames false (dropParens results.toList)⟩) := by
  have htext : name ++ "(" ++ params ++ "): " ++ results = name ++
      String.ofList ('(' :: (params.toList ++ ')' :: ':' :: ' ' :: results.toList)) := by
    rw [← String.toList_inj]
    simp
  obtain ⟨t, ht, hread⟩ := readName_called hname
    (params.toList ++ ')' :: ':' :: ' ' :: results.toList)
  obtain ⟨hreturns, hcall⟩ := callOf_written hparams hresults ht
  rw [htext, readFunction_eq hread, String.toList_ofList, hreturns, Except.map, hcall]

/-! ### Parentheses that match -/

/-- Parentheses around a text are taken away, -/
theorem dropParens_enclosed (inner : List Char) : dropParens ('(' :: inner ++ [')']) = inner := by
  rw [List.cons_append, dropParens]
  simp

/-- and nothing else is. -/
theorem dropParens_of_not_enclosed {s : List Char} (h : ∀ inner, s ≠ '(' :: inner ++ [')']) :
    dropParens s = s := by
  refine Classical.byContradiction fun hne => ?_
  obtain ⟨inner, hs, -⟩ := exists_of_dropParens_ne hne
  exact h inner hs

/-- What stands in parentheses is not read as what stands there together with them. -/
theorem typedNames_enclosed_ne (inner : List Char) :
    typedNames false inner ≠ typedNames false ('(' :: inner ++ [')']) := by
  have hne : dropParens ('(' :: inner ++ [')']) ≠ '(' :: inner ++ [')'] := by
    intro heq
    rw [dropParens_enclosed] at heq
    have hlength := congrArg List.length heq
    rw [List.length_append, List.length_cons] at hlength
    omega
  have hread := typedNames_dropParens_ne hne false
  rwa [dropParens_enclosed] at hread

/-- The results `ts` are read from the text `s` as they should be: from what stands in its
parentheses if `s` is one group in parentheses, and from all of it otherwise. -/
structure ReadsMatched (s : List Char) (ts : List TypedName) : Prop where
  group : ∀ inner, s = '(' :: inner ++ [')'] → Fills ')' inner → ts = typedNames false inner
  other : (¬ ∃ inner, s = '(' :: inner ++ [')'] ∧ Fills ')' inner) → ts = typedNames false s

/-- Taking the parentheses away is right exactly if they match. -/
theorem readsMatched_dropParens_iff (s : List Char) :
    ReadsMatched s (typedNames false (dropParens s)) ↔
      ∀ inner, s = '(' :: inner ++ [')'] → Fills ')' inner := by
  constructor
  · rintro h inner rfl
    refine Classical.byContradiction fun hunmatched => ?_
    have hother := h.other <| by
      rintro ⟨inner', heq, hfills⟩
      have hsame : inner = inner' := by simpa using heq
      exact hunmatched (hsame ▸ hfills)
    rw [dropParens_enclosed] at hother
    exact typedNames_enclosed_ne inner hother
  · intro h
    refine ⟨fun inner hs _ => ?_, fun hnot => ?_⟩
    · rw [hs, dropParens_enclosed]
    · rw [dropParens_of_not_enclosed fun inner hs => hnot ⟨inner, hs, h inner hs⟩]

/-- **Which results are read as they should be.** A signature is written with a name, parameters
that fill their parentheses, a colon, and a text for the results that has no blanks around it. It
can be read. The results are read from what is left when a parenthesis is taken from each end of
their text, or from the whole text if there are not two; and that is as it should be exactly if two
parentheses at the ends always match. -/
theorem readsMatched_iff {name own params results : String}
    (hname : readName (name ++ "(") = .ok (own, "(")) (hparams : Fills ')' params.toList)
    (hresults : trim results.toList = results.toList) :
    ∃ call, readFunction (name ++ "(" ++ params ++ "): " ++ results) = .ok (own, call) ∧
      call.generics = [] ∧ call.params = typedNames true params.toList ∧
      (∀ inner, results.toList = '(' :: inner ++ [')'] → call.returns = typedNames false inner) ∧
      ((∀ inner, results.toList ≠ '(' :: inner ++ [')']) →
        call.returns = typedNames false results.toList) ∧
      (ReadsMatched results.toList call.returns ↔
        ∀ inner, results.toList = '(' :: inner ++ [')'] → Fills ')' inner) := by
  refine ⟨_, readFunction_written hname hparams hresults, rfl, rfl, fun inner hinner => ?_,
    fun hnot => ?_, readsMatched_dropParens_iff _⟩
  · rw [hinner, dropParens_enclosed]
  · rw [dropParens_of_not_enclosed hnot]

/-- The parentheses at the ends of the two unions do not match, and each of the types that are read
lacks one. -/
theorem readFunction_two_unions :
    (∃ call, readFunction "f(): (A|B), (C|D)" = .ok ("f", call) ∧
      call.returns = [⟨"", "A|B)"⟩, ⟨"", "(C|D"⟩] ∧
      ¬ ReadsMatched "(A|B), (C|D)".toList call.returns) ∧
    typedNames false "(A|B), (C|D)".toList = [⟨"", "(A|B)"⟩, ⟨"", "(C|D)"⟩] := by
  have hname : readName ("f" ++ "(") = .ok ("f", "(") :=
    Except.toOption_eq_some.1 (by decide +kernel)
  have hnone : Fills ')' "".toList := (fills_iff (by decide)).2 ⟨rfl, rfl⟩
  have htypes : typedNames false "A|B), (C|D".toList = [⟨"", "A|B)"⟩, ⟨"", "(C|D"⟩] := by
    decide +kernel
  have hintended : typedNames false "(A|B), (C|D)".toList = [⟨"", "(A|B)"⟩, ⟨"", "(C|D)"⟩] := by
    decide +kernel
  have hsig : "f" ++ "(" ++ "" ++ "): " ++ "(A|B), (C|D)" = "f(): (A|B), (C|D)" := by
    decide +kernel
  have htrim : trim "(A|B), (C|D)".toList = "(A|B), (C|D)".toList := by decide +kernel
  obtain ⟨call, hread, -, -, hinner, -, hmatched⟩ := readsMatched_iff hname hnone htrim
  rw [hsig] at hread
  refine ⟨⟨call, hread, (hinner _ rfl).trans htypes, ?_⟩, hintended⟩
  rw [hmatched]
  intro h
  -- the first union is closed before the end
  exact absurd ((h _ rfl).unmet "A|B".toList ", (C|D".toList rfl) (by decide)

end Signature

end LuaDocs
