import LuaDocs.Proofs.Bracket.Groups
import LuaDocs.Proofs.Name.Components

/-!
# Names that are called

The signature of a function is a name and, after a parenthesis, its parameters. A name ends there: a
parenthesis continues no identifier, and it opens a group of its own only inside a key, which has to
be closed before. So how a name is read does not depend on what stands after the parenthesis. Only
blanks at the very end are lost, if the name has keys.
-/

namespace LuaDocs

open Text LuaDocs.Bracket

namespace Text

variable {p : Char → Bool} {d : Char}

theorem dropWhile_append_cons_of_neg (hd : p d = false) (s t : List Char) :
    (s ++ d :: t).dropWhile p = s.dropWhile p ++ d :: t := by
  induction s with
  | nil => simp [hd]
  | cons c s ih =>
    by_cases hc : p c = true
    · rw [List.cons_append, List.dropWhile_cons_of_pos hc, List.dropWhile_cons_of_pos hc, ih]
    · rw [List.cons_append, List.dropWhile_cons_of_neg hc, List.dropWhile_cons_of_neg hc,
        List.cons_append]

theorem takeWhile_append_cons_of_neg (hd : p d = false) (s t : List Char) :
    (s ++ d :: t).takeWhile p = s.takeWhile p := by
  induction s with
  | nil => simp [hd]
  | cons c s ih =>
    by_cases hc : p c = true
    · rw [List.cons_append, List.takeWhile_cons_of_pos hc, List.takeWhile_cons_of_pos hc, ih]
    · rw [List.cons_append, List.takeWhile_cons_of_neg hc, List.takeWhile_cons_of_neg hc]

theorem trimEnd_append_cons (hd : isBlank d = false) (s t : List Char) :
    trimEnd (s ++ d :: t) = s ++ d :: trimEnd t := by
  rw [trimEnd, List.reverse_append, List.reverse_cons, List.append_assoc, List.singleton_append,
    dropWhile_append_cons_of_neg hd, List.reverse_append, List.reverse_cons, List.reverse_reverse,
    List.append_assoc, List.singleton_append, ← trimEnd]

/-- Blanks are trimmed on each side of a character that is none. -/
theorem trim_append_cons (hd : isBlank d = false) (s t : List Char) :
    trim (s ++ d :: t) = trimStart s ++ d :: trimEnd t := by
  rw [trim, trimStart, dropWhile_append_cons_of_neg hd, trimEnd_append_cons hd, ← trimStart]

theorem trim_trimEnd (s : List Char) : trim (trimEnd s) = trim s := by
  obtain ⟨b, hb, hs⟩ := exists_blanks_trimEnd s
  calc trim (trimEnd s)
    _ = trim (trimEnd s ++ b) := (trim_append_blanks hb _).symm
    _ = trim s := by rw [← hs]

end Text

namespace Name

variable {s c r : List Char} {cs : List (List Char)}

theorem isBlank_paren : isBlank '(' = false := by decide

theorem isNameChar_paren : isNameChar '(' = false := by decide +kernel

theorem ended_paren (t : List Char) : Ended ('(' :: t) := by
  rw [ended_iff]
  intro c hc
  obtain rfl : '(' = c := Option.some.inj hc
  exact ⟨isBlank_paren, isNameChar_paren, by decide, by decide⟩

theorem trimStart_append_paren (s t : List Char) :
    trimStart (s ++ '(' :: t) = trimStart s ++ '(' :: t :=
  dropWhile_append_cons_of_neg isBlank_paren s t

/-! ### One component -/

theorem component?_bracket (s : List Char) : component? ('[' :: s) =
    some (key (unwrap '[' ']' ('[' :: s)).1, (unwrap '[' ']' ('[' :: s)).2) := rfl

/-- An identifier ends at a parenthesis. -/
theorem identifier?_append_paren (s t : List Char) :
    identifier? (s ++ '(' :: t) = (identifier? s).map fun p => (p.1, p.2 ++ '(' :: t) := by
  simp only [identifier?, trimStart_append_paren, takeWhile_append_cons_of_neg isNameChar_paren,
    dropWhile_append_cons_of_neg isNameChar_paren]
  split <;> rfl

/-- A key that ends before a parenthesis ends at its own bracket. -/
theorem exists_key (h : component? ('[' :: s ++ ['(']) = some (c, r)) (hr : r ≠ []) :
    ∃ type rest, s = type ++ ']' :: rest ∧ Fills ']' type ∧ c = key (trim type) ∧
      r = trimStart rest ++ ['('] := by
  rw [List.cons_append, component?_bracket, Option.some.injEq, Prod.mk.injEq] at h
  obtain ⟨hc, hrest⟩ := h
  have hclosing : Scan.isOpener ']' = false := by decide
  by_cases hends : ∃ u v, s ++ ['('] = u ++ ']' :: v ∧ Fills ']' u
  · obtain ⟨u, v, heq, hu⟩ := hends
    rw [heq, hu.unwrap_eq hclosing] at hc hrest
    -- the parenthesis comes after the bracket
    obtain rfl | ⟨rest, last, rfl⟩ := List.eq_nil_or_concat v
    · exact absurd (List.append_inj' heq rfl).2 (by decide)
    · rw [List.concat_eq_append, ← List.cons_append, ← List.append_assoc] at heq
      obtain ⟨rfl, hlast⟩ := List.append_inj' heq rfl
      refine ⟨u, rest, rfl, hu, hc.symm, ?_⟩
      rw [← hrest, List.concat_eq_append, ← hlast, trim_append_cons isBlank_paren]
      rfl
  · rw [unwrap_of_unclosed hclosing hends] at hrest
    exact absurd hrest.symm hr

/-- A component that ends before a parenthesis is read before whatever is in parentheses. -/
theorem component?_called (h : component? (s ++ ['(']) = some (c, r)) (hr : r ≠ []) :
    ∃ rest, r = rest ++ ['('] ∧ ∀ t, ∃ t', trimEnd t' = trimEnd t ∧
      component? (s ++ '(' :: t) = some (c, rest ++ '(' :: t') := by
  by_cases hkey : s.head? = some '['
  · obtain ⟨s, rfl⟩ := List.head?_eq_some_iff.1 hkey
    obtain ⟨type, rest, rfl, htype, rfl, rfl⟩ := exists_key h hr
    refine ⟨trimStart rest, rfl, fun t => ⟨trimEnd t, trimEnd_trimEnd t, ?_⟩⟩
    have hunwrap := htype.unwrap_eq (by decide) '[' (rest ++ '(' :: t)
    rw [trim_append_cons isBlank_paren] at hunwrap
    rw [List.cons_append, List.append_assoc, List.cons_append, component?_bracket, hunwrap]
  · have hread : ∀ t, component? (s ++ '(' :: t) =
        (identifier? s).map fun p => (p.1, p.2 ++ '(' :: t) := by
      intro t
      rw [← identifier?_append_paren]
      unfold component?
      split
      · next heq =>
        -- only a key starts with a bracket
        cases s with
        | nil => cases heq
        | cons d s =>
          obtain ⟨rfl, -⟩ := List.cons.inj heq
          exact absurd rfl hkey
      · rfl
    rw [hread] at h
    obtain ⟨q, hq, heq⟩ := Option.map_eq_some_iff.1 h
    obtain ⟨rfl, rfl⟩ := Prod.mk.inj heq
    exact ⟨q.2, rfl, fun t => ⟨t, rfl, by rw [hread, hq, Option.map_some]⟩⟩

/-! ### All components -/

theorem components?_of_component? {x rest : List Char} (hdot : x.head? ≠ some '.')
    (h : component? x = some (c, rest)) :
    components? x = (components? rest).map fun p => (c :: p.1, p.2) := by
  rw [components?]
  · split <;> simp_all
  · rintro r rfl
    exact hdot rfl

/-- What components are read from: none is, or the first one, after a dot or without one. -/
theorem components?_cases {x : List Char} (h : components? x = some (cs, r)) :
    cs = [] ∧ r = x ∨ ∃ c rest cs', cs = c :: cs' ∧ components? rest = some (cs', r) ∧
      ((∃ y, x = '.' :: y ∧ component? y = some (c, rest)) ∨
        x.head? ≠ some '.' ∧ component? x = some (c, rest)) := by
  have hstep : ∀ c rest, (components? rest).map (fun p => (c :: p.1, p.2)) = some (cs, r) →
      ∃ cs', cs = c :: cs' ∧ components? rest = some (cs', r) := by
    intro c rest hrest
    obtain ⟨q, hq, heq⟩ := Option.map_eq_some_iff.1 hrest
    obtain ⟨rfl, rfl⟩ := Prod.mk.inj heq
    exact ⟨q.1, rfl, hq⟩
  rw [components?.eq_def] at h
  split at h
  · next y =>
    split at h
    · next c rest hread =>
      obtain ⟨cs', hcs, hrest⟩ := hstep c rest h
      exact .inr ⟨c, rest, cs', hcs, hrest, .inl ⟨y, rfl, hread⟩⟩
    · cases h
  · next hdot =>
    split at h
    · next c rest hread =>
      obtain ⟨cs', hcs, hrest⟩ := hstep c rest h
      refine .inr ⟨c, rest, cs', hcs, hrest, .inr ⟨fun hhead => ?_, hread⟩⟩
      obtain ⟨y, rfl⟩ := List.head?_eq_some_iff.1 hhead
      exact hdot y rfl
    · obtain ⟨rfl, rfl⟩ := Prod.mk.inj (Option.some.inj h)
      exact .inl ⟨rfl, rfl⟩

/-- Components that end before a parenthesis are read before whatever is in parentheses. -/
theorem components?_called (h : components? (s ++ ['(']) = some (cs, ['('])) (t : List Char) :
    ∃ t', trimEnd t' = trimEnd t ∧ components? (s ++ '(' :: t) = some (cs, '(' :: t') := by
  induction cs generalizing s t with
  | nil =>
    rcases components?_cases h with ⟨-, hs⟩ | ⟨c, rest, cs', hcs, -⟩
    · obtain rfl : s = [] := by simpa using hs
      exact ⟨t, rfl, (ended_paren t).components⟩
    · cases hcs
  | cons c cs ih =>
    obtain ⟨hcs, -⟩ | ⟨d, rest, cs', hcs, hrest, hread⟩ := components?_cases h
    · cases hcs
    obtain ⟨rfl, rfl⟩ := List.cons.inj hcs
    have hne : rest ≠ [] := by
      rintro rfl
      rw [components?_nil] at hrest
      cases hrest
    -- the other components are read from what the first one leaves
    have hothers : ∀ rest', rest = rest' ++ ['('] → ∀ t t', trimEnd t' = trimEnd t →
        ∃ t'', trimEnd t'' = trimEnd t ∧
          (components? (rest' ++ '(' :: t')).map (fun p => (c :: p.1, p.2)) =
            some (c :: cs, '(' :: t'') := by
      rintro rest' rfl t t' ht
      obtain ⟨t'', ht', hcs'⟩ := ih hrest t'
      exact ⟨t'', ht'.trans ht, by rw [hcs', Option.map_some]⟩
    rcases hread with ⟨y, hy, hread⟩ | ⟨hdot, hread⟩
    · cases s with
      | nil => cases hy
      | cons d s =>
        obtain ⟨rfl, rfl⟩ := List.cons.inj hy
        obtain ⟨rest', hrest', hcalled⟩ := component?_called hread hne
        obtain ⟨t', ht, hnext⟩ := hcalled t
        rw [List.cons_append, components?_dot hnext]
        exact hothers rest' hrest' t t' ht
    · obtain ⟨rest', hrest', hcalled⟩ := component?_called hread hne
      obtain ⟨t', ht, hnext⟩ := hcalled t
      have hhead : (s ++ '(' :: t).head? ≠ some '.' := by
        cases s with
        | nil => exact hdot
        | cons d s => exact hdot
      rw [components?_of_component? hhead hnext]
      exact hothers rest' hrest' t t' ht

/-- A name that ends before a parenthesis is read before whatever is in parentheses. -/
theorem readComponents?_called (h : readComponents? (s ++ ['(']) = some (cs, ['(']))
    (t : List Char) :
    ∃ t', trimEnd t' = trimEnd t ∧ readComponents? (s ++ '(' :: t) = some (cs, '(' :: t') := by
  unfold readComponents? at h
  rw [trimStart_append_paren] at h
  split at h
  · next c rest hread =>
    obtain ⟨q, hq, heq⟩ := Option.map_eq_some_iff.1 h
    obtain ⟨rfl, hr⟩ := Prod.mk.inj heq
    obtain ⟨cs, r⟩ := q
    obtain rfl : r = ['('] := hr
    have hne : rest ≠ [] := by
      rintro rfl
      rw [components?_nil] at hq
      cases hq
    obtain ⟨rest', rfl, hcalled⟩ := component?_called hread hne
    obtain ⟨t', ht, hnext⟩ := hcalled t
    obtain ⟨t'', ht', hcs⟩ := components?_called hq t'
    refine ⟨t'', ht'.trans ht, ?_⟩
    rw [readComponents?, trimStart_append_paren, hnext]
    simp only [hcs, Option.map_some]
  · cases h

end Name

namespace Signature

/-- **A name is read before any parameters** as it is read before a parenthesis. -/
theorem readName_called {name own : String} (h : readName (name ++ "(") = .ok (own, "("))
    (t : List Char) : ∃ t', trimEnd t' = trimEnd t ∧
      readName (name ++ String.ofList ('(' :: t)) = .ok (own, String.ofList ('(' :: t')) := by
  unfold readName Name.read? at h
  split at h
  · next q hq =>
    obtain rfl : q = (own, "(") := Except.ok.inj h
    obtain ⟨⟨cs, r⟩, hcs, heq⟩ := Option.map_eq_some_iff.1 hq
    obtain ⟨rfl, hr⟩ := Prod.mk.inj heq
    have hr : r = ['('] := by
      have hlist := congrArg String.toList hr
      rwa [String.toList_ofList] at hlist
    rw [String.toList_append, hr] at hcs
    obtain ⟨t', ht, hread⟩ := Name.readComponents?_called hcs t
    refine ⟨t', ht, ?_⟩
    rw [readName, Name.read?, String.toList_append, String.toList_ofList, hread]
    rfl
  · cases h

end Signature

end LuaDocs
