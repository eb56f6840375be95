import LuaDocs.Proofs.Signature.RoundTrip

/-!
# Signatures of constructors and of functions

The signature of a class with a parameter list is read like the signature of a function, up to the
results. A function has its results after an arrow or after a colon. A constructor has them after a
colon only; an arrow may stand before the colon, or at the end. So the two readings differ in two
cases. After an arrow alone a constructor has no results and is refused. After an arrow and a colon
the function has the colon as part of its results. The piece before the colon is blank and does not
count, but the parentheses around the results are not at their start, and stay.
-/

namespace LuaDocs

open Text LuaDocs.Bracket

/-- The characters of a name with its type. -/
def TypedName.chars (t : TypedName) : List Char := t.name.toList ++ t.type.toList

namespace Signature

variable {named : Bool} {b s y : List Char}

/-! ### Results after an arrow or a colon -/

/-- Results that stand after an arrow and no colon. -/
def ArrowAlone (s : List Char) : Prop :=
  ∃ r, s = '-' :: '>' :: r ∧ trimStart r ≠ [] ∧ (trimStart r).head? ≠ some ':'

/-- Results in parentheses that stand after an arrow and a colon. -/
def ArrowAndParens (s : List Char) : Prop :=
  ∃ r x, s = '-' :: '>' :: r ∧ trimStart r = ':' :: x ∧ dropParens (trimStart x) ≠ trimStart x

theorem arrowAlone_arrow {r : List Char} : ArrowAlone ('-' :: '>' :: r) ↔
    trimStart r ≠ [] ∧ (trimStart r).head? ≠ some ':' := by
  constructor
  · rintro ⟨r', heq, h⟩
    obtain rfl : r = r' := by simpa using heq
    exact h
  · intro h
    exact ⟨r, rfl, h⟩

theorem arrowAndParens_arrow {r : List Char} : ArrowAndParens ('-' :: '>' :: r) ↔
    ∃ x, trimStart r = ':' :: x ∧ dropParens (trimStart x) ≠ trimStart x := by
  constructor
  · rintro ⟨r', x, heq, h⟩
    obtain rfl : r = r' := by simpa using heq
    exact ⟨x, h⟩
  · rintro ⟨x, h⟩
    exact ⟨r, x, rfl, h⟩

theorem constructorReturns_of_not_arrow (h : ∀ r, s ≠ '-' :: '>' :: r) :
    constructorReturns s = functionReturns s := by
  unfold constructorReturns functionReturns
  split
  · next r => exact absurd rfl (h r)
  · next => split <;> simp_all

/-- What a constructor and a function make of what stands after the parameters. -/
theorem returns_cases (s : List Char) :
    (constructorReturns s = functionReturns s ∧ ¬ ArrowAlone s ∧ ¬ ArrowAndParens s) ∨
      (constructorReturns s = .error .returns ∧ (∃ r, functionReturns s = .ok r) ∧ ArrowAlone s) ∨
      ∃ r x, s = '-' :: '>' :: r ∧ trimStart r = ':' :: x ∧
        constructorReturns s = .ok (trimStart x) ∧ functionReturns s = .ok (':' :: x) := by
  by_cases harrow : ∃ r, s = '-' :: '>' :: r
  · obtain ⟨r, rfl⟩ := harrow
    have hfunction : functionReturns ('-' :: '>' :: r) = .ok (trimStart r) := rfl
    rw [hfunction, arrowAlone_arrow, arrowAndParens_arrow]
    unfold constructorReturns
    cases htrim : trimStart r with
    | nil => exact .inl (by simp [htrim])
    | cons d x =>
      by_cases hd : d = ':'
      · subst hd
        exact .inr (.inr ⟨r, x, rfl, htrim, by simp [htrim], rfl⟩)
      · exact .inr (.inl (by simp [htrim, hd]))
  · have hne : ∀ r, s ≠ '-' :: '>' :: r := fun r h => harrow ⟨r, h⟩
    refine .inl ⟨constructorReturns_of_not_arrow hne, ?_, ?_⟩
    · rintro ⟨r, h, -⟩
      exact hne r h
    · rintro ⟨r, x, h, -⟩
      exact hne r h

/-! ### Lists that start with a colon -/

theorem typedName?_of_allBlank (hb : allBlank b = true) : typedName? named b = none := by
  have hpieces : pieces ':' .start b = [b] :=
    pieces_of_unstopped (not_separates_of_allBlank isBlank_colon hb .start)
  rw [typedName?_eq, splitRaw, hpieces]
  simp [hb, ofPieces]

/-- A list is read piece by piece; nothing is read from a blank piece. -/
theorem typedNames_eq (named : Bool) (s : List Char) :
    typedNames named s = (pieces ',' .start s).filterMap (typedName? named) := by
  rw [typedNames, split, splitRaw, List.filterMap_map, List.filterMap_filter]
  congr 1
  funext p
  cases hp : allBlank p with
  | true => simp [typedName?_of_allBlank hp]
  | false => simp [typedName?_trim]

/-- A colon at the start of an element does not count, -/
theorem typedName?_colon (named : Bool) (s : List Char) :
    typedName? named (':' :: s) = typedName? named s := by
  have hsplit : splitRaw ':' (':' :: s) = splitRaw ':' s :=
    splitRaw_append_sep passes_colon level_nil s
  rw [typedName?_eq, hsplit, typedName?_eq]

/-- nor at the start of a list. -/
theorem typedNames_colon (named : Bool) (s : List Char) :
    typedNames named (':' :: s) = typedNames named s := by
  obtain ⟨p, ps, hps⟩ := List.exists_cons_of_ne_nil (pieces_ne_nil ',' .start s)
  have hpieces : pieces ',' .start (':' :: s) = (':' :: p) :: ps := by
    rw [pieces_cons_of_not_separates (by decide), Scan.step_start passes_colon, hps]
    rfl
  rw [typedNames_eq, hpieces, typedNames_eq, hps, List.filterMap_cons, List.filterMap_cons,
    typedName?_colon]

theorem typedNames_trimStart (named : Bool) (s : List Char) :
    typedNames named (trimStart s) = typedNames named s := by
  obtain ⟨b, hb, hs⟩ := exists_blanks_trimStart s
  have htrim : trim s = trim (trimStart s) := by
    rw [hs, trim_append hb, ← hs]
  rw [← typedNames_trim, ← htrim, typedNames_trim]

/-! ### What reading a list drops -/

/-- The characters of a text without blanks, commas and colons. -/
def kept (s : List Char) : List Char := s.filter fun c => !isBlank c && c != ':' && c != ','

@[simp] theorem kept_nil : kept [] = [] := rfl

@[simp] theorem kept_append (a b : List Char) : kept (a ++ b) = kept a ++ kept b :=
  List.filter_append ..

theorem kept_of_allBlank (hb : allBlank b = true) : kept b = [] := by
  rw [kept, List.filter_eq_nil_iff]
  intro c hc
  simp [isBlank_of_allBlank hb c hc]

@[simp] theorem kept_trim (s : List Char) : kept (trim s) = kept s := by
  obtain ⟨b, b', hb, hb', hs⟩ := exists_trim s
  calc kept (trim s)
    _ = kept (b ++ (trim s ++ b')) := by simp [kept_of_allBlank hb, kept_of_allBlank hb']
    _ = kept s := by rw [← hs]

theorem kept_intercalate {w : List Char} (hw : kept w = []) (ps : List (List Char)) :
    kept (w.intercalate ps) = ps.flatMap kept := by
  induction ps with
  | nil => rfl
  | cons p ps ih =>
    cases ps with
    | nil => simp
    | cons q ps =>
      rw [List.intercalate_cons_cons, kept_append, kept_append, ih, hw]
      simp

theorem kept_colons (ps : List (List Char)) : kept (colons ps) = ps.flatMap kept :=
  kept_intercalate rfl ps

/-- The pieces that are dropped are blank. -/
theorem flatMap_kept_splitRaw {sep : Char} (hsep : kept [sep] = []) (s : List Char) :
    (splitRaw sep s).flatMap kept = kept s := by
  have hfilter : ∀ ps : List (List Char),
      (ps.filter fun p => !allBlank p).flatMap kept = ps.flatMap kept := by
    intro ps
    induction ps with
    | nil => rfl
    | cons p ps ih =>
      cases hp : allBlank p with
      | true => simp [hp, ih, kept_of_allBlank hp]
      | false => simp [hp, ih]
  rw [splitRaw, hfilter, ← kept_intercalate hsep, intercalate_pieces]

theorem kept_typedName? (named : Bool) (e : List Char) :
    ((typedName? named e).map fun t => kept t.chars).getD [] = kept e := by
  rw [typedName?_eq, ← flatMap_kept_splitRaw (by decide : kept [':'] = []) e]
  cases splitRaw ':' e with
  | nil => rfl
  | cons p ps =>
    rw [ofPieces]
    split
    · simp [TypedName.chars, kept_colons]
    · simp [TypedName.chars, kept_colons]

/-- **Nothing but separators and blanks is dropped when a list is read.** -/
theorem kept_typedNames (named : Bool) (s : List Char) :
    kept ((typedNames named s).flatMap TypedName.chars) = kept s := by
  have helements : ∀ es : List (List Char),
      kept ((es.filterMap (typedName? named)).flatMap TypedName.chars) = es.flatMap kept := by
    intro es
    induction es with
    | nil => rfl
    | cons e es ih =>
      rw [List.filterMap_cons, List.flatMap_cons, ← ih, ← kept_typedName? named e]
      cases typedName? named e with
      | none => simp
      | some t => simp
  rw [typedNames_eq, helements, ← kept_intercalate (by decide : kept [','] = []),
    intercalate_pieces]

/-- Parentheses are dropped from both ends. -/
theorem exists_of_dropParens_ne (h : dropParens y ≠ y) :
    ∃ inner, y = '(' :: (inner ++ [')']) ∧ dropParens y = inner := by
  unfold dropParens at h ⊢
  split at h
  · next r =>
    split at h
    · next hlast =>
      rw [if_pos hlast]
      rw [beq_iff_eq, List.getLast?_eq_some_iff] at hlast
      obtain ⟨inner, rfl⟩ := hlast
      exact ⟨inner, rfl, List.dropLast_concat⟩
    · exact absurd rfl h
  · exact absurd rfl h

/-- Parentheses around a list are read as part of it. -/
theorem typedNames_dropParens_ne (h : dropParens y ≠ y) (named : Bool) :
    typedNames named (dropParens y) ≠ typedNames named y := by
  obtain ⟨inner, hy, hinner⟩ := exists_of_dropParens_ne h
  intro heq
  -- the lists keep all characters of the texts, and one text has two more
  have hkept := congrArg (fun ts => (kept (ts.flatMap TypedName.chars)).length) heq
  have hparens : kept y = '(' :: (kept inner ++ [')']) := by
    rw [hy]
    show kept (['('] ++ (inner ++ [')'])) = _
    rw [kept_append, kept_append]
    rfl
  simp only [kept_typedNames, hinner, hparens, List.length_cons, List.length_append] at hkept
  omega

/-! ### Constructors and functions -/

/-- How the signature of a class with a parameter list is read after its name. -/
theorem readClass_eq {sig name rest : String} (h : readName sig = .ok (name, rest))
    (hopen : (unwrap '<' '>' rest.toList).2.head? = some '(') :
    readClass sig = (constructorReturns (afterParams rest.toList)).map fun returns =>
      (name, .constructor (callOf rest.toList returns)) := by
  refine (Except.bind_of_ok h _).trans ?_
  obtain ⟨body, hbody⟩ := List.head?_eq_some_iff.1 hopen
  simp only [afterParams, callOf, hbody]
  cases constructorReturns (unwrap '(' ')' ('(' :: body)).2 <;> rfl

/-- Results after a colon, and after an arrow and a colon. -/
theorem callOf_colon_iff (rest x : List Char) :
    callOf rest (trimStart x) = callOf rest (':' :: x) ↔
      dropParens (trimStart x) = trimStart x := by
  have hcolon : typedNames false (dropParens (':' :: x)) = typedNames false (trimStart x) := by
    rw [typedNames_trimStart]
    exact typedNames_colon false x
  simp only [callOf, Call.mk.injEq, true_and, hcolon]
  constructor
  · intro heq
    refine Decidable.byContradiction fun hne => ?_
    exact typedNames_dropParens_ne hne false heq
  · intro h
    rw [h]

/-- **Constructors and functions are read alike up to an arrow without a colon**, which a
constructor cannot have before its results, and up to parentheses after an arrow and a colon, which
a function keeps. -/
theorem readClass_eq_readFunction_iff {sig name rest : String}
    (hname : readName sig = .ok (name, rest))
    (hopen : (unwrap '<' '>' rest.toList).2.head? = some '(') :
    ((readClass sig).isOk = true ↔
        (readFunction sig).isOk = true ∧ ¬ ArrowAlone (afterParams rest.toList)) ∧
      (readClass sig = (readFunction sig).map (fun p => (p.1, .constructor p.2)) ↔
        ¬ ArrowAlone (afterParams rest.toList) ∧ ¬ ArrowAndParens (afterParams rest.toList)) := by
  rw [readClass_eq hname hopen, readFunction_eq hname]
  rcases returns_cases (afterParams rest.toList) with
    ⟨heq, halone, hboth⟩ | ⟨herror, ⟨r, hok⟩, halone⟩ | ⟨r, x, hafter, hr, hclass, hfunction⟩
  · rw [heq]
    cases functionReturns (afterParams rest.toList) <;>
      simp [Except.map, Except.isOk, Except.toBool, halone, hboth]
  · rw [herror, hok]
    simp [Except.map, Except.isOk, Except.toBool, halone]
  · have halone : ¬ ArrowAlone (afterParams rest.toList) := by
      rw [hafter, arrowAlone_arrow, hr]
      simp
    have hboth : ArrowAndParens (afterParams rest.toList) ↔
        dropParens (trimStart x) ≠ trimStart x := by
      rw [hafter, arrowAndParens_arrow, hr]
      simp
    rw [hclass, hfunction, hboth, Decidable.not_not, ← callOf_colon_iff rest.toList]
    simp [Except.map, Except.isOk, Except.toBool, halone]

theorem readClass_arrow_and_colon :
    ((readFunction "A<T>(x: T) -> B").isOk = true ∧ (readClass "A<T>(x: T) -> B").isOk = false) ∧
      readClass "A<T>(x: T) -> : B" =
        (readFunction "A<T>(x: T) -> : B").map (fun p => (p.1, .constructor p.2)) := by
  have hbare : readName "A<T>(x: T) -> B" = .ok ("A", "<T>(x: T) -> B") :=
    Except.toOption_eq_some.1 (by decide +kernel)
  have hcolon : readName "A<T>(x: T) -> : B" = .ok ("A", "<T>(x: T) -> : B") :=
    Except.toOption_eq_some.1 (by decide +kernel)
  have hafter : afterParams "<T>(x: T) -> B".toList = '-' :: '>' :: " B".toList := by decide +kernel
  have hafter' : afterParams "<T>(x: T) -> : B".toList = '-' :: '>' :: " : B".toList := by
    decide +kernel
  refine ⟨⟨by decide +kernel, ?_⟩, ?_⟩
  · rw [Bool.eq_false_iff, ne_eq, (readClass_eq_readFunction_iff hbare (by decide)).1, hafter,
      arrowAlone_arrow]
    intro h
    exact h.2 (by decide)
  · rw [(readClass_eq_readFunction_iff hcolon (by decide)).2, hafter', arrowAlone_arrow,
      arrowAndParens_arrow]
    refine ⟨by decide, ?_⟩
    rintro ⟨x, hx, hparens⟩
    obtain rfl : " B".toList = x := (List.cons.inj hx).2
    exact hparens (by decide)

end Signature

end LuaDocs
