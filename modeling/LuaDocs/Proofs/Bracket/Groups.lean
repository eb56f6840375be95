import LuaDocs.Proofs.Bracket.Separation

/-!
# The bracket that ends a group

A group ends at the first bracket of its own kind that the scan meets outside every bracket and
string. Brackets of all kinds count for one depth, and one that closes nothing leaves the depth at
zero; so a text can fill a group whose brackets do not match one another. There is at most one place
where a group ends. The scan that cuts lists comes out of what fills a group as it went in, so a
list may go on after it.
-/

namespace LuaDocs

open Text

namespace Bracket

variable {opening closing : Char} {u v r : List Char}

/-- The brackets that open groups, with those that close them. -/
def pairs : List (Char × Char) := [('(', ')'), ('[', ']'), ('{', '}'), ('<', '>')]

theorem not_isOpener_of_mem_pairs (h : (opening, closing) ∈ pairs) :
    Scan.isOpener closing = false := by
  have hall : (pairs.all fun p => !Scan.isOpener p.2) = true := by decide
  simpa using List.all_eq_true.1 hall _ h

/-- The text can stand in a group before the bracket `closing` that ends it: the scan does not meet
this bracket outside every bracket and string before the end of the text, and there it would. -/
structure Fills (closing : Char) (u : List Char) : Prop where
  unmet : ∀ a b, u = a ++ closing :: b → (Scan.start.run a).atTop = false
  ended : (Scan.start.run u).atTop = true

theorem Fills.level (h : Fills closing u) : Level u := level_iff_atTop.2 h.ended

theorem ends_iff (hclosing : Scan.isOpener closing = false) {s : Scan} {c : Char} :
    ends closing s c = true ↔ s.atTop = true ∧ c = closing := by
  simp only [ends, Bool.and_eq_true, Bool.not_eq_true', beq_iff_eq]
  constructor
  · rintro ⟨⟨htop, -⟩, hc⟩
    exact ⟨htop, hc⟩
  · rintro ⟨htop, rfl⟩
    exact ⟨⟨htop, hclosing⟩, rfl⟩

/-- A text fills a group if it is level and does not end the group before. -/
theorem fills_iff (hclosing : Scan.isOpener closing = false) :
    Fills closing u ↔ unstopped (ends closing) .start u = true ∧ Level u := by
  rw [unstopped_iff]
  constructor
  · intro h
    refine ⟨fun a c b hu => ?_, h.level⟩
    rw [Bool.eq_false_iff, ne_eq, ends_iff hclosing]
    rintro ⟨htop, rfl⟩
    rw [h.unmet a b hu] at htop
    cases htop
  · rintro ⟨hfree, hlevel⟩
    refine ⟨fun a b hu => ?_, level_iff_atTop.1 hlevel⟩
    rw [Bool.eq_false_iff]
    intro htop
    have hends := (ends_iff hclosing).2 ⟨htop, rfl⟩
    rw [hfree a closing b hu] at hends
    cases hends

/-- Where the scan ends a group. -/
theorem cut?_ends_eq_some_iff (hclosing : Scan.isOpener closing = false) :
    cut? (ends closing) .start r = some (u, v) ↔ r = u ++ closing :: v ∧ Fills closing u := by
  rw [cut?_eq_some_iff, fills_iff hclosing]
  constructor
  · rintro ⟨c, hr, hfree, hends⟩
    obtain ⟨htop, rfl⟩ := (ends_iff hclosing).1 hends
    exact ⟨hr, hfree, level_iff_atTop.2 htop⟩
  · rintro ⟨hr, hfree, hlevel⟩
    exact ⟨closing, hr, hfree, (ends_iff hclosing).2 ⟨level_iff_atTop.1 hlevel, rfl⟩⟩

/-- A group that ends is taken out, with blanks trimmed around it and around what follows. -/
theorem Fills.unwrap_eq (h : Fills closing u) (hclosing : Scan.isOpener closing = false)
    (opening : Char) (v : List Char) :
    unwrap opening closing (opening :: (u ++ closing :: v)) = (trim u, trim v) := by
  have hcut : cut? (ends closing) .start (u ++ closing :: v) = some (u, v) :=
    (cut?_ends_eq_some_iff hclosing).2 ⟨rfl, h⟩
  rw [unwrap]
  simp only [beq_self_eq_true, if_true, hcut]

/-- A group that does not end takes the whole text. -/
theorem unwrap_of_unclosed (hclosing : Scan.isOpener closing = false)
    (h : ¬ ∃ u v, r = u ++ closing :: v ∧ Fills closing u) :
    unwrap opening closing (opening :: r) = (trim r, []) := by
  have hcut : cut? (ends closing) .start r = none := by
    rw [← Option.not_isSome_iff_eq_none]
    intro hsome
    obtain ⟨⟨u, v⟩, huv⟩ := Option.isSome_iff_exists.1 hsome
    exact h ⟨u, v, (cut?_ends_eq_some_iff hclosing).1 huv⟩
  rw [unwrap]
  simp only [beq_self_eq_true, if_true, hcut]

/-- A group ends in one place. -/
theorem Fills.unique {u' v' : List Char} (h : Fills closing u) (h' : Fills closing u')
    (hclosing : Scan.isOpener closing = false) (heq : u ++ closing :: v = u' ++ closing :: v') :
    u = u' ∧ v = v' := by
  have hcut : cut? (ends closing) .start (u ++ closing :: v) = some (u, v) :=
    (cut?_ends_eq_some_iff hclosing).2 ⟨rfl, h⟩
  have hcut' : cut? (ends closing) .start (u ++ closing :: v) = some (u', v') :=
    (cut?_ends_eq_some_iff hclosing).2 ⟨heq, h'⟩
  exact Prod.mk.inj (Option.some.inj (hcut.symm.trans hcut'))

/-- **A group is cut at the bracket that ends it.** For every pair of brackets and every text `r`
after the opening one: where `r` is a text that fills the group, the closing bracket and a rest,
these two are what is taken out, trimmed. There is at most one such place; if there is none, the
group takes all of `r`. And the scan comes out of what fills the group at its start, so that a list
that goes on after it with any separator has the elements of both parts. -/
theorem unwrap_matching {opening closing : Char} (hpair : (opening, closing) ∈ pairs)
    (r : List Char) :
    (∀ u v, r = u ++ closing :: v → Fills closing u →
      unwrap opening closing (opening :: r) = (trim u, trim v)) ∧
    ((¬ ∃ u v, r = u ++ closing :: v ∧ Fills closing u) →
      unwrap opening closing (opening :: r) = (trim r, [])) ∧
    (∀ u v u' v', r = u ++ closing :: v → Fills closing u → r = u' ++ closing :: v' →
      Fills closing u' → u = u' ∧ v = v') ∧
    ∀ u, Fills closing u → Scan.start.run u = .start ∧
      ∀ strip sep rest, Scan.passes sep = true → elements strip sep (u ++ sep :: rest) =
        elements strip sep u ++ elements strip sep rest := by
  have hclosing := not_isOpener_of_mem_pairs hpair
  refine ⟨?_, unwrap_of_unclosed hclosing, ?_, fun u hu => ⟨hu.level, ?_⟩⟩
  · rintro u v rfl hu
    exact hu.unwrap_eq hclosing opening v
  · rintro u v u' v' rfl hu heq hu'
    exact hu.unique hu' hclosing heq
  · intro strip sep rest hsep
    exact elements_append_sep strip hsep hu.level rest

/-- What fills the parentheses of a signature: a bracket that nothing has opened, a parenthesis in a
string, and a group of its own. -/
def wildParameters : List Char := " x> , ')', f(y) ".toList

/-- The parentheses end at their own bracket, and the results stay outside. -/
theorem unwrap_wildParameters : Fills ')' wildParameters ∧
    unwrap '(' ')' "( x> , ')', f(y) ) : (T) ".toList =
      ("x> , ')', f(y)".toList, ": (T)".toList) ∧
    elements true ',' " x> , ')', f(y) , z".toList =
      elements true ',' wildParameters ++ ["z".toList] := by
  have hfills : Fills ')' wildParameters :=
    (fills_iff (by decide)).2 ⟨by decide, level_iff_atTop.2 (by decide)⟩
  have hpair : ('(', ')') ∈ pairs := by decide
  have htrim : (trim wildParameters, trim " : (T) ".toList) =
      ("x> , ')', f(y)".toList, ": (T)".toList) := by decide +kernel
  obtain ⟨hcut, -, -, hlist⟩ := unwrap_matching hpair " x> , ')', f(y) ) : (T) ".toList
  refine ⟨hfills, (hcut wildParameters " : (T) ".toList rfl hfills).trans htrim, ?_⟩
  have hrest : elements true ',' " z".toList = ["z".toList] := by decide +kernel
  rw [← hrest]
  exact (hlist wildParameters hfills).2 true ',' " z".toList (by decide)

end Bracket

end LuaDocs
