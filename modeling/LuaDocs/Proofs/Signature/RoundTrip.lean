import LuaDocs.Proofs.Name.Components
import LuaDocs.Proofs.Signature.TypedNames

/-!
# Signatures of functions, written and read again

A signature is written with its name, its type parameters in angle brackets, its parameters in
parentheses, and its results in parentheses after a colon. What was read from a signature is read
again from what is written for it, if the name has no keys and the groups of the signature are
closed. The results need not be closed: the parentheses around them are taken away without a look at
what stands between.
-/

namespace LuaDocs

open Text LuaDocs.Bracket

/-! ### Names without keys -/

namespace Name

variable {c r : List Char} {cs : List (List Char)}

/-- What follows a component of a name without keys. -/
theorem component?_continuation_append (hc : IsIdentifier c) (hr : Ended r)
    (cs : List (List Char)) :
    component? (c ++ (continuation cs ++ r)) = some (c, continuation cs ++ r) := by
  have hhead : ∀ d ∈ (continuation cs ++ r).head?, isNameChar d = false ∧ isBlank d = false := by
    intro d hd
    cases cs with
    | nil =>
      obtain ⟨hblank, hname, -⟩ := ended_iff.1 hr d hd
      exact ⟨hname, hblank⟩
    | cons =>
      obtain rfl : '.' = d := Option.some.inj hd
      exact ⟨isNameChar_dot, by decide⟩
  have htrim : trimStart (continuation cs ++ r) = continuation cs ++ r := by
    cases hall : continuation cs ++ r with
    | nil => rfl
    | cons d t =>
      rw [hall] at hhead
      exact trimStart_of_head (hhead d rfl).2
  rw [component?_append hc.1 hc.2 fun d hd => (hhead d hd).1, htrim]

theorem components?_continuation_append (hcs : ∀ c ∈ cs, IsIdentifier c) (hr : Ended r) :
    components? (continuation cs ++ r) = some (cs, r) := by
  induction cs with
  | nil => exact hr.components
  | cons c cs ih =>
    obtain ⟨hc, hcs⟩ := List.forall_mem_cons.1 hcs
    have hdot : continuation (c :: cs) ++ r = '.' :: (c ++ (continuation cs ++ r)) := by
      simp [continuation]
    rw [hdot, components?_dot (component?_continuation_append hc hr cs), ih hcs]
    rfl

/-- A name without keys is read up to what cannot continue it. -/
theorem readComponents?_join_append (hne : cs ≠ []) (hcs : ∀ c ∈ cs, IsIdentifier c)
    (hr : Ended r) : readComponents? (join cs ++ r) = some (cs, r) := by
  obtain ⟨c, cs, rfl⟩ := List.exists_cons_of_ne_nil hne
  obtain ⟨hc, hcs⟩ := List.forall_mem_cons.1 hcs
  have hstart : trimStart (c ++ (continuation cs ++ r)) = c ++ (continuation cs ++ r) :=
    IsComponent.trimStart_append (.inl hc) _
  rw [readComponents?, join_cons, List.append_assoc, hstart,
    component?_continuation_append hc hr cs]
  simp only [components?_continuation_append hcs hr, Option.map_some]

theorem subset_join (hc : c ∈ cs) : c ⊆ join cs := by
  induction cs with
  | nil => cases hc
  | cons d cs ih =>
    rw [join_cons]
    rcases List.mem_cons.1 hc with rfl | hc
    · exact List.subset_append_left _ _
    · refine List.Subset.trans ?_ (List.subset_append_right _ _)
      intro x hx
      exact List.mem_flatMap.2 ⟨c, hc, List.mem_cons_of_mem _ hx⟩

/-- A name without brackets that was read is made of identifiers. -/
theorem exists_identifiers {sig name after : String}
    (h : Signature.readName sig = .ok (name, after)) (hkeys : '[' ∉ name.toList) :
    ∃ cs, cs ≠ [] ∧ (∀ c ∈ cs, IsIdentifier c) ∧ name.toList = join cs := by
  have hclear : StartsClear sig := by
    unfold Signature.readName read? at h
    split at h
    · next q hq =>
      obtain rfl : q = (name, after) := Except.ok.inj h
      obtain ⟨⟨cs, r⟩, hcs, heq⟩ := Option.map_eq_some_iff.1 hq
      obtain ⟨rfl, -⟩ := Prod.mk.inj heq
      unfold StartsClear
      rw [hcs]
      intro c hc hkey
      rw [String.toList_ofList] at hkeys
      exact absurd (subset_join hc (List.mem_of_mem_head? hkey)) hkeys
    · cases h
  obtain ⟨cs, hne, hcs, hname⟩ := isNormal_of_readName hclear h
  refine ⟨cs, hne, fun c hc => (hcs c hc).resolve_right ?_, hname⟩
  rintro ⟨type, rfl, -⟩
  exact hkeys (hname ▸ subset_join hc List.mem_cons_self)

end Name

namespace Signature

open Name

theorem readName_append_of_ended {sig name after rest : String}
    (h : readName sig = .ok (name, after)) (hkeys : '[' ∉ name.toList) (hrest : Ended rest.toList) :
    readName (name ++ rest) = .ok (name, rest) := by
  obtain ⟨cs, hne, hcs, hname⟩ := exists_identifiers h hkeys
  rw [readName, read?, String.toList_append, hname, readComponents?_join_append hne hcs hrest,
    Option.map_some, ← hname, String.ofList_toList, String.ofList_toList]

/-! ### The parts of a signature -/

/-- What stands after the parameters, if `rest` stands after the name. -/
def afterParams (rest : List Char) : List Char :=
  (unwrap '(' ')' (unwrap '<' '>' rest).2).2

/-- The type parameters and parameters in `rest`, with the results in `returns`. -/
def callOf (rest returns : List Char) : Call :=
  ⟨typedNames true (unwrap '<' '>' rest).1,
    typedNames true (unwrap '(' ')' (unwrap '<' '>' rest).2).1,
    typedNames false (dropParens returns)⟩

/-- How the signature of a function is read after its name. -/
theorem readFunction_eq {sig name rest : String} (h : readName sig = .ok (name, rest)) :
    readFunction sig = (functionReturns (afterParams rest.toList)).map fun returns =>
      (name, callOf rest.toList returns) := by
  refine (Except.bind_of_ok h _).trans ?_
  show (functionReturns (afterParams rest.toList) >>= fun returns =>
    pure (name, callOf rest.toList returns)) = _
  cases functionReturns (afterParams rest.toList) <;> rfl

/-! ### Signatures that are written -/

/-- The type parameters of a signature as they are written; nothing is written for none. -/
def genericsText (generics : List TypedName) : String :=
  if generics.isEmpty then "" else "<" ++ TypedName.listText generics ++ ">"

/-- The results of a signature as they are written; nothing is written for none. -/
def returnsText (returns : List TypedName) : String :=
  if returns.isEmpty then "" else ": (" ++ TypedName.listText returns ++ ")"

/-- The parameters and results of a signature as they are written. -/
def paramsText (params returns : List TypedName) : String :=
  "(" ++ TypedName.listText params ++ ")" ++ returnsText returns

/-- The signature of a function as it is written. -/
def Call.text (name : String) (call : Call) : String :=
  name ++ (genericsText call.generics ++ paramsText call.params call.returns)

theorem trim_listText (named : Bool) (s : List Char) :
    trim (TypedName.listText (typedNames named s)).toList =
      (TypedName.listText (typedNames named s)).toList := by
  rw [TypedName.toList_listText]
  refine trim_intercalate fun x hx => ?_
  obtain ⟨t, ht, rfl⟩ := List.mem_map.1 hx
  obtain ⟨e, -, ht⟩ := mem_typedNames.1 ht
  exact trim_text ht

/-- A group that was read is found again between its brackets. -/
theorem unwrap_listText {opening closing : Char} (hopener : Scan.isOpener closing = false)
    (hmarks : closing ≠ ':' ∧ closing ≠ ',' ∧ closing ≠ ' ') {s : List Char} (hlevel : Level s)
    (hfree : unstopped (ends closing) .start s = true) (named : Bool) (rest : List Char) :
    unwrap opening closing (opening :: (TypedName.listText (typedNames named s)).toList ++
        closing :: rest) =
      ((TypedName.listText (typedNames named s)).toList, trim rest) := by
  have hstop : ∀ c, closing ≠ c → ends closing .start c = false := by
    intro c hc
    simp [ends, hc.symm]
  rw [unwrap_eq_iff hopener (level_listText hlevel) (trim_listText named s)]
  exact unstopped_listText (hstop _ hmarks.1) (hstop _ hmarks.2.1) (hstop _ hmarks.2.2) hfree

/-- The results are read again from what is written for them. -/
theorem functionReturns_returnsText (s : List Char) :
    ∃ returns, functionReturns (trim (returnsText (typedNames false s)).toList) = .ok returns ∧
      typedNames false (dropParens returns) = typedNames false s := by
  unfold returnsText
  split
  · next hnil =>
    rw [List.isEmpty_iff] at hnil
    refine ⟨[], rfl, ?_⟩
    rw [hnil]
    rfl
  · have htext : (": (" ++ TypedName.listText (typedNames false s) ++ ")").toList =
        [':'] ++ (' ' :: '(' :: (TypedName.listText (typedNames false s)).toList) ++ [')'] := by
      simp
    rw [htext, trim_append_append (by decide) (by decide) (by decide) (by decide)]
    refine ⟨'(' :: ((TypedName.listText (typedNames false s)).toList ++ [')']), ?_, ?_⟩
    · rfl
    · rw [dropParens]
      simp [typedNames_listText]

theorem toList_paramsText (params returns : List TypedName) : (paramsText params returns).toList =
    '(' :: (TypedName.listText params).toList ++ ')' :: (returnsText returns).toList := by
  simp [paramsText]

/-- Parameters and results are written without blanks around them. -/
theorem trim_paramsText (params returns : List TypedName) :
    trim (paramsText params returns).toList = (paramsText params returns).toList := by
  have hends : ∃ inner, (paramsText params returns).toList = ['('] ++ inner ++ [')'] := by
    unfold paramsText returnsText
    split
    · exact ⟨(TypedName.listText params).toList, by simp⟩
    · exact ⟨(TypedName.listText params ++ "): (" ++ TypedName.listText returns).toList, by simp⟩
  obtain ⟨inner, hinner⟩ := hends
  rw [hinner]
  exact trim_append_append rfl (by decide) rfl (by decide) inner

/-- The type parameters are read again from what is written for them. -/
theorem unwrap_genericsText {s : List Char} (hlevel : Level s)
    (hfree : unstopped (ends '>') .start s = true) (params returns : List TypedName) :
    ∃ inner, typedNames true inner = typedNames true s ∧
      unwrap '<' '>' (genericsText (typedNames true s) ++ paramsText params returns).toList =
        (inner, (paramsText params returns).toList) := by
  have htrim := trim_paramsText params returns
  rw [String.toList_append]
  unfold genericsText
  split
  · next hnil =>
    rw [List.isEmpty_iff] at hnil
    refine ⟨[], hnil.symm, ?_⟩
    rw [toList_paramsText] at htrim ⊢
    simpa [unwrap] using htrim
  · refine ⟨_, typedNames_listText true s, ?_⟩
    have htext : ("<" ++ TypedName.listText (typedNames true s) ++ ">").toList ++
        (paramsText params returns).toList =
        '<' :: (TypedName.listText (typedNames true s)).toList ++
          '>' :: (paramsText params returns).toList := by
      simp
    rw [htext, unwrap_listText (by decide) (by decide) hlevel hfree, htrim]

/-- Nothing that starts with the bracket of a group continues a name. -/
theorem ended_genericsText (generics params returns : List TypedName) :
    Ended (genericsText generics ++ paramsText params returns).toList := by
  rw [ended_iff, String.toList_append, toList_paramsText]
  unfold genericsText
  split
  · intro c hc
    obtain rfl : '(' = c := Option.some.inj hc
    decide +kernel
  · intro c hc
    obtain rfl : '<' = c := by simpa using hc
    decide +kernel

/-- The groups of a signature after its name. -/
def Call.groups (call : Call) : List Char :=
  (genericsText call.generics ++ paramsText call.params call.returns).toList

/-- Type parameters, parameters and results that were read, each from a text of its own, are read
again from what is written for them. -/
theorem exists_callOf_groups {g p : List Char} (hg : Level g)
    (hgfree : unstopped (ends '>') .start g = true) (hp : Level p)
    (hpfree : unstopped (ends ')') .start p = true) (r : List Char) {call : Call}
    (hcall : call = ⟨typedNames true g, typedNames true p, typedNames false r⟩) :
    ∃ returns, functionReturns (afterParams call.groups) = .ok returns ∧
      callOf call.groups returns = call := by
  subst hcall
  obtain ⟨inner, hinner, hfirst⟩ :=
    unwrap_genericsText hg hgfree (typedNames true p) (typedNames false r)
  have hsecond : unwrap '(' ')' (paramsText (typedNames true p) (typedNames false r)).toList =
      ((TypedName.listText (typedNames true p)).toList,
        trim (returnsText (typedNames false r)).toList) := by
    rw [toList_paramsText]
    exact unwrap_listText (by decide) (by decide) hp hpfree true _
  obtain ⟨returns, hthird, hreturns⟩ := functionReturns_returnsText r
  refine ⟨returns, ?_, ?_⟩
  · rw [afterParams, Call.groups, hfirst, hsecond]
    exact hthird
  · rw [callOf, Call.groups, hfirst, hsecond, hinner, hreturns, typedNames_listText]

/-- **A signature is read again from what is written for it**, if its name has no keys and its
groups are closed. -/
theorem readFunction_text {sig name rest : String} {call : Call}
    (hname : readName sig = .ok (name, rest)) (hread : readFunction sig = .ok (name, call))
    (hkeys : '[' ∉ name.toList) (hgenerics : GroupClosed '<' '>' rest.toList)
    (hparams : GroupClosed '(' ')' (unwrap '<' '>' rest.toList).2) :
    readFunction (call.text name) = .ok (name, call) := by
  rw [readFunction_eq hname] at hread
  obtain ⟨returns, -, heq⟩ := Except.ok_of_map hread
  have hcall : callOf rest.toList returns = call := (Prod.mk.inj heq).2
  obtain ⟨hg, hgfree⟩ := hgenerics.unwrap_fst (by decide)
  obtain ⟨hp, hpfree⟩ := hparams.unwrap_fst (by decide)
  obtain ⟨returns', hreturns, hgroups⟩ := exists_callOf_groups hg hgfree hp hpfree _ hcall.symm
  have hended := ended_genericsText call.generics call.params call.returns
  rw [Call.text, readFunction_eq (readName_append_of_ended hname hkeys hended), ← Call.groups,
    hreturns, Except.map, hgroups]

/-- A signature with blanks and commas that are not needed, and with results that leave a bracket
open. -/
def untidySignature : String :=
  "m . f< T: A,, U >( a : fun(x, y): T ,, ...: string )-> b, c: d | (e"

/-- What is read from it. -/
def untidyCall : Call :=
  ⟨[⟨"T", "A"⟩, ⟨"U", ""⟩], [⟨"a", "fun(x, y): T"⟩, ⟨"", "...: string"⟩],
    [⟨"", "b"⟩, ⟨"c", "d | (e"⟩]⟩

theorem readFunction_tidied : readFunction untidySignature = .ok ("m.f", untidyCall) ∧
    readFunction "m.f<T: A, U>(a: fun(x, y): T, ...: string): (b, c: d | (e)" =
      .ok ("m.f", untidyCall) := by
  have hname : readName untidySignature =
      .ok ("m.f", "< T: A,, U >( a : fun(x, y): T ,, ...: string )-> b, c: d | (e") :=
    Except.toOption_eq_some.1 (by decide +kernel)
  have hread : readFunction untidySignature = .ok ("m.f", untidyCall) :=
    Except.toOption_eq_some.1 (by decide +kernel)
  have htext : untidyCall.text "m.f" =
      "m.f<T: A, U>(a: fun(x, y): T, ...: string): (b, c: d | (e)" := by decide +kernel
  rw [← htext]
  refine ⟨hread, readFunction_text hname hread (by decide) ?_ ?_⟩
  · intro r hr
    refine ⟨" T: A,, U ".toList, "( a : fun(x, y): T ,, ...: string )-> b, c: d | (e".toList, ?_,
      by decide⟩
    exact (List.cons.inj hr).2.symm
  · intro r hr
    refine ⟨" a : fun(x, y): T ,, ...: string ".toList, "-> b, c: d | (e".toList, ?_, by decide⟩
    exact (List.cons.inj hr).2.symm

end Signature

end LuaDocs
