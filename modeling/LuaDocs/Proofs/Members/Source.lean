import LuaDocs.Proofs.Members
import Mathlib

/-!
# Members by source

Listed by source, members come in the order of their files, of their lines and of their names.
A line that is not known counts as one after all others. Lines are counted from zero, and the first
line of a file is taken for one that is not known: a member that is defined there comes after
all others of its file.
-/

namespace LuaDocs.Members

variable {root o : Object} {ignoreFiles withGlobals : Bool} {path : List String}
  {parent : Option (List String)} {options : Options} {ms : List Member} {a b : Member}

/-- The place of a line, where one that is not known comes last. -/
def linePlace : Option Int → WithTop Int
  | some n => n
  | none => ⊤

theorem lineLe_iff {m n : Option Int} : lineLe m n = true ↔ linePlace m ≤ linePlace n := by
  cases m <;> cases n <;> simp [lineLe, linePlace]

theorem linePlace_injective : Function.Injective linePlace := by
  rintro (_ | m) (_ | n) h <;> simp_all [linePlace]

/-- The first line counts as one that is not known. -/
theorem lineKey_of_line {m : Member} {n : Int} (h : m.object.details.line = some n) :
    lineKey m = if n = 0 then none else some n := by
  rw [lineKey, h, Option.filter_some]
  by_cases hn : n = 0 <;> simp [hn]

/-- What decides on the place of a member: its file, its line and its name. -/
def sourceKey (ignoreFiles : Bool) (m : Member) : String ×ₗ WithTop Int ×ₗ String :=
  toLex (fileKey ignoreFiles m, toLex (linePlace (lineKey m), m.name))

/-- The order by source is that of the keys. -/
theorem le_bySource_iff :
    Order.bySource.le ignoreFiles a b = true ↔
      sourceKey ignoreFiles a ≤ sourceKey ignoreFiles b := by
  rw [sourceKey, sourceKey, Prod.Lex.toLex_le_toLex, Prod.Lex.toLex_le_toLex, Order.le]
  by_cases hfile : fileKey ignoreFiles a = fileKey ignoreFiles b
  · by_cases hline : lineKey a = lineKey b
    · simp [hfile, hline]
    · have hplace : linePlace (lineKey a) ≠ linePlace (lineKey b) :=
        fun heq => hline (linePlace_injective heq)
      simp [hfile, hline, hplace, lineLe_iff, le_iff_lt_or_eq]
  · simp [hfile]

/-- Members that are listed by source stand in the order of their keys. -/
theorem pairwise_bySource
    (h : list root ignoreFiles path o parent options withGlobals = .ok ms)
    (horder : Order.ofName? (orderName o options) = some .bySource) :
    ms.Pairwise fun a b => sourceKey ignoreFiles a ≤ sourceKey ignoreFiles b := by
  obtain ⟨order, hname, -, rfl⟩ := list_eq_ok_iff.1 h
  obtain rfl : order = .bySource := Option.some.inj (hname.symm.trans horder)
  have htrans : ∀ a b c : Member, Order.bySource.le ignoreFiles a b = true →
      Order.bySource.le ignoreFiles b c = true → Order.bySource.le ignoreFiles a c = true := by
    intro a b c hab hbc
    exact le_bySource_iff.2 ((le_bySource_iff.1 hab).trans (le_bySource_iff.1 hbc))
  have htotal : ∀ a b : Member,
      (Order.bySource.le ignoreFiles a b || Order.bySource.le ignoreFiles b a) = true := by
    intro a b
    rw [Bool.or_eq_true, le_bySource_iff, le_bySource_iff]
    exact le_total _ _
  exact ((List.pairwise_mergeSort htrans htotal _).imp le_bySource_iff.1).filter _

/-- In a list in the order of a key, the member with the smaller key comes before the other one, and
never after it. -/
theorem precedes_of_key_lt {κ : Type} [LinearOrder κ] {key : Member → κ}
    (h : ms.Pairwise fun a b => key a ≤ key b) (ha : a ∈ ms) (hb : b ∈ ms) (hlt : key a < key b) :
    [a, b].Sublist ms ∧ ¬ [b, a].Sublist ms := by
  have hnot : ¬ [b, a].Sublist ms := fun hsub =>
    not_le_of_gt hlt (List.rel_of_pairwise_cons (h.sublist hsub) List.mem_cons_self)
  refine ⟨?_, hnot⟩
  obtain ⟨before, after, rfl⟩ := List.append_of_mem ha
  rcases List.mem_append.1 hb with hb | hb
  · refine absurd ?_ hnot
    exact (List.singleton_sublist.2 hb).append (List.singleton_sublist.2 List.mem_cons_self)
  · rcases List.mem_cons.1 hb with rfl | hb
    · exact absurd hlt (lt_irrefl _)
    · exact ((List.singleton_sublist.2 hb).cons_cons a).trans (List.sublist_append_right _ _)

/-- **Which of two members of a file is listed first**: that of the earlier line, unless this is the
first line of the file. A member on the first line is listed after the other one. -/
theorem precedes_iff_line_ne_zero {m n : Int}
    (h : list root ignoreFiles path o parent options withGlobals = .ok ms)
    (horder : Order.ofName? (orderName o options) = some .bySource) (ha : a ∈ ms) (hb : b ∈ ms)
    (hfile : a.object.details.commentFile = b.object.details.commentFile)
    (hm : a.object.details.line = some m) (hn : b.object.details.line = some n) (hlt : m < n) :
    ([a, b].Sublist ms ↔ m ≠ 0) ∧ ([b, a].Sublist ms ↔ m = 0) := by
  have hsorted := pairwise_bySource h horder
  have hkey : fileKey ignoreFiles a = fileKey ignoreFiles b := by rw [fileKey, fileKey, hfile]
  have hplace : ∀ {x y : Member}, fileKey ignoreFiles x = fileKey ignoreFiles y →
      linePlace (lineKey x) < linePlace (lineKey y) →
      sourceKey ignoreFiles x < sourceKey ignoreFiles y := by
    intro x y hxy hlines
    rw [sourceKey, sourceKey, Prod.Lex.toLex_lt_toLex, Prod.Lex.toLex_lt_toLex]
    exact .inr ⟨hxy, .inl hlines⟩
  have hplaceA := lineKey_of_line hm
  have hplaceB := lineKey_of_line hn
  by_cases hzero : m = 0
  · have hlines : linePlace (lineKey b) < linePlace (lineKey a) := by
      rw [hplaceA, hplaceB, if_pos hzero, if_neg (by omega)]
      exact WithTop.coe_lt_top n
    have hba := precedes_of_key_lt hsorted hb ha (hplace hkey.symm hlines)
    simp [hzero, hba]
  · have hlines : linePlace (lineKey a) < linePlace (lineKey b) := by
      rw [hplaceA, hplaceB, if_neg hzero]
      split
      · exact WithTop.coe_lt_top m
      · exact WithTop.coe_lt_coe.2 hlt
    have hab := precedes_of_key_lt hsorted ha hb (hplace hkey hlines)
    simp [hzero, hab]

/-- A variable that is defined in a line of a file. -/
def variableAt (line : Int) : Object :=
  ⟨{ Object.Details.unknown false with
      commentFile := some (.ofString "/proj/m.lua"), line := some line }, .data none none, []⟩

/-- A module with two variables on its first two lines. -/
def twoLines : Object := ⟨.unknown false, .bare, [("a", variableAt 0), ("b", variableAt 1)]⟩

/-- The project of the module. -/
def twoLinesProject : Object := ⟨.unknown false, .bare, [("m", twoLines)]⟩

/-- The options that list both variables by source. -/
def bothBySource : Options := [("members", .names ["a", "b"]), ("member-order", .text "bysource")]

theorem twoLines_backwards : ∃ ms,
    list twoLinesProject false ["m"] twoLines none bothBySource true = .ok ms ∧
      [⟨"b", ["m", "b"], variableAt 1⟩, ⟨"a", ["m", "a"], variableAt 0⟩].Sublist ms ∧
      ¬ [⟨"a", ["m", "a"], variableAt 0⟩, ⟨"b", ["m", "b"], variableAt 1⟩].Sublist ms := by
  have horder : Order.ofName? (orderName twoLines bothBySource) = some .bySource := by
    decide +kernel
  obtain ⟨ms, hlist⟩ : ∃ ms, list twoLinesProject false ["m"] twoLines none bothBySource true =
    .ok ms := exists_list_of_order horder rfl
  have ha : ⟨"a", ["m", "a"], variableAt 0⟩ ∈ ms := (mem_list_iff hlist).2
    ⟨.inl (mem_children_iff.2 ⟨("a", variableAt 0), List.mem_cons_self, rfl⟩), by decide +kernel⟩
  have hb : ⟨"b", ["m", "b"], variableAt 1⟩ ∈ ms := (mem_list_iff hlist).2
    ⟨.inl (mem_children_iff.2
      ⟨("b", variableAt 1), List.mem_cons_of_mem _ List.mem_cons_self, rfl⟩), by decide +kernel⟩
  have hiff := precedes_iff_line_ne_zero hlist horder ha hb rfl rfl rfl (by decide)
  exact ⟨ms, hlist, hiff.2.2 rfl, fun hab => hiff.1.1 hab rfl⟩

end LuaDocs.Members
