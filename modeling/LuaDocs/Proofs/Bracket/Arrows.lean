import LuaDocs.Proofs.Bracket.Pieces

/-!
# Arrows in type expressions

The arrow of a function type ends with a character that also closes brackets. A type expression is
well nested if its brackets match when an arrow is read as one sign. The scanner does not know
arrows: it takes the end of an arrow for a bracket and counts one open bracket less, if there is
one.

So the scanner counts as many brackets as are left when the arrows are set off against the brackets
inside which they stand. It counts none, although some are open, if every open bracket has had as
many arrows since it was opened as brackets are open from it on. What stands at such a place is
*bared*: a comma there is taken for one between two types, and a parenthesis for the one that ends
the list. Nothing else goes wrong.
-/

namespace LuaDocs

open Text

/-- A bracket that is open: the bracket that closes it, and how many arrows stand after it. -/
structure Opened where
  /-- The bracket that closes it. -/
  closing : Char
  /-- The number of arrows since it was opened. -/
  arrows : Nat
  deriving DecidableEq, Repr

/-- What is open at a place of a type expression. -/
structure Nest where
  /-- The open brackets, the innermost first. -/
  opened : List Opened
  quote : Option Char
  /-- The next character of the string is taken as it is. -/
  escaped : Bool
  /-- A hyphen stands right before, with which an arrow may start. -/
  hyphen : Bool
  deriving DecidableEq, Repr

/-- The bracket that closes a bracket. -/
def closerOf? : Char → Option Char
  | '(' => some ')'
  | '[' => some ']'
  | '{' => some '}'
  | '<' => some '>'
  | _ => none

/-- One more arrow stands after the bracket. -/
def Opened.pass (o : Opened) : Opened := { o with arrows := o.arrows + 1 }

namespace Nest

/-- Nothing is open. -/
def start : Nest := ⟨[], none, false, false⟩

/-- Reads one character; fails at a bracket that does not match. -/
def step? (n : Nest) (c : Char) : Option Nest :=
  match n.quote with
  | some q =>
    if n.escaped then some { n with escaped := false }
    else if c == q then some { n with quote := none }
    else if c == '\\' then some { n with escaped := true }
    else some n
  | none =>
    if n.hyphen && c == '>' then some { n with opened := n.opened.map Opened.pass, hyphen := false }
    else match closerOf? c with
    | some d => some { n with opened := ⟨d, 0⟩ :: n.opened, hyphen := false }
    | none =>
      if Scan.isCloser c then
        match n.opened with
        | o :: outer =>
          if o.closing == c then some { n with opened := outer, hyphen := false } else none
        | [] => none
      else if Scan.isQuote c then some { n with quote := some c, hyphen := false }
      else some { n with hyphen := c == '-' }

/-- Reads a text; fails if its brackets do not match. -/
def read (text : List Char) : Option Nest := text.foldlM step? start

/-- Brackets are open, and the arrows make up for all of them: the bracket with `i` others inside
it has had more than `i` arrows. -/
def Bared (n : Nest) : Prop :=
  n.opened ≠ [] ∧ ∀ i, (h : i < n.opened.length) → i < n.opened[i].arrows

instance (n : Nest) : Decidable n.Bared := inferInstanceAs (Decidable (_ ∧ _))

/-- The character stands in the text, outside strings, where what is open satisfies `P`. -/
def Stands (P : Nest → Prop) (c : Char) (text : List Char) : Prop :=
  ∃ before after n, text = before ++ c :: after ∧ read before = some n ∧ n.quote = none ∧ P n

theorem stands_iff {P : Nest → Prop} [DecidablePred P] {c : Char} {text : List Char} :
    Stands P c text ↔ ((List.range text.length).any fun i => text[i]? == some c &&
      (read (text.take i)).any fun n => n.quote.isNone && decide (P n)) = true := by
  simp only [List.any_eq_true, List.mem_range, Bool.and_eq_true, beq_iff_eq, Option.any_eq_true,
    Option.isNone_iff_eq_none, decide_eq_true_eq]
  constructor
  · rintro ⟨before, after, n, rfl, hn, hquote, hP⟩
    refine ⟨before.length, by simp, by simp, n, ?_, hquote, hP⟩
    rwa [List.take_left]
  · rintro ⟨i, hi, hc, n, hn, hquote, hP⟩
    obtain ⟨_, rfl⟩ := List.getElem?_eq_some_iff.1 hc
    refine ⟨text.take i, text.drop (i + 1), n, ?_, hn, hquote, hP⟩
    rw [← List.drop_eq_getElem_cons hi, List.take_append_drop]

instance (P : Nest → Prop) [DecidablePred P] (c : Char) (text : List Char) :
    Decidable (Stands P c text) :=
  decidable_of_iff _ stands_iff.symm

/-! ### What the scanner counts -/

/-- How many of the open brackets are left when the arrows are set off against them, if `k` others
are open inside. -/
def left : Nat → List Opened → Nat
  | _, [] => 0
  | k, o :: outer => max (k + 1 - o.arrows) (left (k + 1) outer)

theorem left_succ (k : Nat) (opened : List Opened) :
    max 1 (left (k + 1) opened) = left k opened + 1 := by
  induction opened generalizing k with
  | nil => rfl
  | cons o outer ih =>
    have hrest := ih (k + 1)
    simp only [left]
    omega

/-- A bracket that is opened is counted, -/
theorem left_open (d : Char) (opened : List Opened) :
    left 0 (⟨d, 0⟩ :: opened) = left 0 opened + 1 := by
  have hrest := left_succ 0 opened
  simp only [left]
  omega

/-- one that is closed is not counted any more, -/
theorem left_close (o : Opened) (outer : List Opened) : left 0 outer = left 0 (o :: outer) - 1 := by
  have hrest := left_succ 0 outer
  simp only [left]
  omega

/-- and an arrow counts as one that is closed. -/
theorem left_pass (k : Nat) (opened : List Opened) :
    left k (opened.map Opened.pass) = left k opened - 1 := by
  induction opened generalizing k with
  | nil => rfl
  | cons o outer ih =>
    simp only [List.map_cons, left, Opened.pass, ih]
    omega

theorem left_eq_zero_iff (k : Nat) (opened : List Opened) :
    left k opened = 0 ↔ ∀ i, (h : i < opened.length) → k + i < opened[i].arrows := by
  induction opened generalizing k with
  | nil => simp [left]
  | cons o outer ih =>
    simp only [left, Nat.max_eq_zero_iff, ih]
    constructor
    · rintro ⟨ho, houter⟩ i hi
      cases i with
      | zero =>
        show k + 0 < o.arrows
        omega
      | succ i =>
        have := houter i (by simpa using hi)
        rw [List.getElem_cons_succ]
        omega
    · intro h
      refine ⟨?_, fun i hi => ?_⟩
      · have : k + 0 < o.arrows := h 0 (by simp)
        omega
      · have := h (i + 1) (by simpa using hi)
        rw [List.getElem_cons_succ] at this
        omega

/-- What the scanner makes of a place: it is in the same string, and counts the brackets that are
left. -/
def counted (n : Nest) : Scan := ⟨left 0 n.opened, n.quote, n.escaped⟩

variable {n n' : Nest} {c : Char} {text : List Char}

theorem isOpener_of_closerOf? {d : Char} (h : closerOf? c = some d) : Scan.isOpener c = true := by
  unfold closerOf? at h
  split at h
  all_goals first | rfl | cases h

theorem isOpener_of_closerOf?_eq_none (h : closerOf? c = none) : Scan.isOpener c = false := by
  rw [Bool.eq_false_iff]
  intro hopener
  simp only [Scan.isOpener, Bool.or_eq_true, beq_iff_eq, or_assoc] at hopener
  rcases hopener with rfl | rfl | rfl | rfl <;> cases h

/-- Inside a string the scanner reads every character alike. -/
theorem step_counted_of_quote {q : Char} (hq : n.quote = some q) (h : n.step? c = some n') :
    n.counted.step c = n'.counted := by
  obtain ⟨opened, _, escaped, hyphen⟩ := n
  obtain rfl := hq
  cases escaped with
  | true =>
    obtain rfl := Option.some.inj h
    rfl
  | false =>
    by_cases hend : (c == q) = true
    · obtain rfl : _ = n' := by simpa [step?, hend] using h
      simp [counted, Scan.step, hend]
    · by_cases hslash : (c == '\\') = true
      · obtain rfl : _ = n' := by simpa [step?, hend, hslash] using h
        simp [counted, Scan.step, hend, hslash]
      · obtain rfl : _ = n' := by simpa [step?, hend, hslash] using h
        simp [counted, Scan.step, hend, hslash]

/-- **What the scanner counts after one more character.** -/
theorem step_counted (h : n.step? c = some n') : n.counted.step c = n'.counted := by
  obtain ⟨opened, quote, escaped, hyphen⟩ := n
  cases quote with
  | some q => exact step_counted_of_quote rfl h
  | none =>
    simp only [step?] at h
    simp only [counted, Scan.step]
    split at h
    · -- the end of an arrow
      next harrow =>
      obtain ⟨-, rfl⟩ : hyphen = true ∧ c = '>' := by simpa using harrow
      obtain rfl := Option.some.inj h
      simp [Scan.isOpener, Scan.isCloser, left_pass]
    · split at h
      · next d hd =>
        obtain rfl := Option.some.inj h
        simp [isOpener_of_closerOf? hd, left_open]
      · next hnone =>
        have hopener := isOpener_of_closerOf?_eq_none hnone
        split at h
        · next hcloser =>
          split at h
          · next o outer =>
            split at h
            · obtain rfl := Option.some.inj h
              simp [hopener, hcloser, ← left_close]
            · cases h
          · cases h
        · next hcloser =>
          split at h
          · next hquote =>
            obtain rfl := Option.some.inj h
            simp [hopener, hcloser, hquote]
          · next hquote =>
            obtain rfl := Option.some.inj h
            simp [hopener, hcloser, hquote]

theorem run_counted (h : text.foldlM step? n = some n') : n.counted.run text = n'.counted := by
  induction text generalizing n with
  | nil =>
    obtain rfl := Option.some.inj h
    rfl
  | cons c text ih =>
    rw [List.foldlM_cons] at h
    obtain ⟨m, hm, h⟩ := Option.bind_eq_some_iff.1 h
    rw [Scan.run_cons, step_counted hm, ih h]

/-- **What the scanner counts at a place of a text.** -/
theorem run_of_read (h : read text = some n) : Scan.start.run text = n.counted :=
  run_counted h

theorem atTop_counted : n.counted.atTop = true ↔
    n.quote = none ∧ (n.opened = [] ∨ n.Bared) := by
  simp only [counted, Scan.atTop, Bool.and_eq_true, beq_iff_eq, Option.isNone_iff_eq_none,
    left_eq_zero_iff, Nat.zero_add, Bared]
  by_cases hopened : n.opened = []
  · simp [hopened]
  · simp [hopened, and_comm]

/-- A text can be read up to each of its places. -/
theorem exists_read_of_append {before after : List Char} (h : read (before ++ after) = some n) :
    ∃ m, read before = some m ∧ after.foldlM step? m = some n := by
  rw [read, List.foldlM_append] at h
  exact Option.bind_eq_some_iff.1 h

end Nest

namespace Bracket

open Nest

variable {c : Char} {t : List Char} {ts : List (List Char)}

/-- The type expression can stand in a list: its brackets match, nothing is left open, there are no
blanks around it, and no comma stands outside of brackets and strings. -/
structure IsListed (t : List Char) : Prop where
  nested : ∃ n, Nest.read t = some n ∧ n.opened = [] ∧ n.quote = none
  trimmed : trim t = t
  ne_nil : t ≠ []
  inner_commas : ¬ Stands (fun n => n.opened = []) ',' t

theorem isListed_iff : IsListed t ↔
    ((Nest.read t).any fun n => n.opened.isEmpty && n.quote.isNone) = true ∧ trim t = t ∧ t ≠ [] ∧
      ¬ Stands (fun n => n.opened = []) ',' t := by
  simp only [Option.any_eq_true, Bool.and_eq_true, List.isEmpty_iff, Option.isNone_iff_eq_none]
  exact ⟨fun h => ⟨h.nested, h.trimmed, h.ne_nil, h.inner_commas⟩,
    fun h => ⟨h.1, h.2.1, h.2.2.1, h.2.2.2⟩⟩

instance (t : List Char) : Decidable (IsListed t) := decidable_of_iff _ isListed_iff.symm

theorem IsListed.level (h : IsListed t) : Level t := by
  obtain ⟨n, hn, hopened, hquote⟩ := h.nested
  rw [level_iff_atTop, run_of_read hn]
  exact atTop_counted.2 ⟨hquote, .inl hopened⟩

/-- A scan that stops at the character `c` outside every bracket does not stop in the type
expression exactly if `c` stands neither there nor where it is bared. -/
theorem IsListed.unstopped_iff {stop : Scan → Char → Bool}
    (hstop : ∀ s d, stop s d = true ↔ s.atTop = true ∧ d = c) (h : IsListed t) :
    unstopped stop .start t = true ↔
      ¬ Stands (fun n => n.opened = []) c t ∧ ¬ Stands Bared c t := by
  obtain ⟨n, hn, -⟩ := h.nested
  rw [Bracket.unstopped_iff, ← not_or]
  constructor
  · -- a place where nothing is left to count stops the scan
    rintro hfree (⟨a, b, m, rfl, hm, hquote, hopened⟩ | ⟨a, b, m, rfl, hm, hquote, hbared⟩)
    all_goals
      have hstops : stop (Scan.start.run a) c = true := by
        rw [hstop, run_of_read hm, atTop_counted]
        simp [*]
      rw [hfree a c b rfl] at hstops
      cases hstops
  · rintro hnone a d b rfl
    rw [Bool.eq_false_iff]
    intro hstops
    obtain ⟨htop, rfl⟩ := (hstop _ _).1 hstops
    obtain ⟨m, hm, -⟩ := exists_read_of_append hn
    rw [run_of_read hm] at htop
    obtain ⟨hquote, hopened | hbared⟩ := atTop_counted.1 htop
    · exact hnone (.inl ⟨a, b, m, rfl, hm, hquote, hopened⟩)
    · exact hnone (.inr ⟨a, b, m, rfl, hm, hquote, hbared⟩)

/-- A comma in a type expression is taken for a separator exactly if it is bared. -/
theorem IsListed.unstopped_separates_iff (h : IsListed t) :
    unstopped (separates ',') .start t = true ↔ ¬ Stands Bared ',' t := by
  have hstop : ∀ s d, separates ',' s d = true ↔ s.atTop = true ∧ d = ',' := by
    intro s d
    rw [separates_iff]
    constructor
    · exact fun hd => ⟨hd.1, hd.2.2⟩
    · rintro ⟨htop, rfl⟩
      exact ⟨htop, by decide, rfl⟩
  rw [h.unstopped_iff hstop]
  exact and_iff_right h.inner_commas

/-- A parenthesis in a type expression is taken for the end of the list exactly if it is bared. -/
theorem IsListed.unstopped_ends_iff (h : IsListed t) :
    unstopped (ends ')') .start t = true ↔ ¬ Stands Bared ')' t := by
  have hstop : ∀ s d, ends ')' s d = true ↔ s.atTop = true ∧ d = ')' := by
    intro s d
    simp only [ends, Bool.and_eq_true, beq_iff_eq]
    constructor
    · exact fun hd => ⟨hd.1.1, hd.2⟩
    · rintro ⟨htop, rfl⟩
      exact ⟨⟨htop, by decide⟩, rfl⟩
  rw [h.unstopped_iff hstop]
  refine and_iff_right ?_
  -- a parenthesis that matches nothing cannot be read
  rintro ⟨a, b, m, rfl, hm, hquote, hopened⟩
  obtain ⟨n, hn, -⟩ := h.nested
  obtain ⟨m', hm', hrest⟩ := exists_read_of_append hn
  obtain rfl : m = m' := Option.some.inj (hm.symm.trans hm')
  rw [List.foldlM_cons] at hrest
  obtain ⟨k, hk, -⟩ := Option.bind_eq_some_iff.1 hrest
  simp [step?, hquote, hopened, closerOf?, Scan.isCloser] at hk

/-- **Which lists of type expressions are read as they were written.** A list is cut where its
elements were joined exactly if no comma in it is bared by arrows, and the list between parentheses
is found whole exactly if no parenthesis in it is. -/
theorem split_join_iff_not_bared (h : ∀ t ∈ ts, IsListed t) :
    (split ',' ([',', ' '].intercalate ts) = ts ↔ ∀ t ∈ ts, ¬ Stands Bared ',' t) ∧
    ∀ rest, unwrap '(' ')' ('(' :: [',', ' '].intercalate ts ++ ')' :: rest) =
        ([',', ' '].intercalate ts, trim rest) ↔ ∀ t ∈ ts, ¬ Stands Bared ')' t := by
  constructor
  · rw [split_intercalate_eq_iff (by decide) (by decide) fun t ht =>
      ⟨(h t ht).level, (h t ht).trimmed, (h t ht).ne_nil⟩]
    exact forall₂_congr fun t ht => (h t ht).unstopped_separates_iff
  · intro rest
    have hparts : LevelParts ts := levelParts_of_forall fun t ht => (h t ht).level
    have hlevel : Level ([',', ' '].intercalate ts) :=
      (level_intercalate level_comma_space hparts).2 fun t ht => (h t ht).level
    have htrim : trim ([',', ' '].intercalate ts) = [',', ' '].intercalate ts :=
      trim_intercalate fun t ht => ⟨(h t ht).trimmed, (h t ht).ne_nil⟩
    rw [unwrap_eq_iff (by decide) hlevel htrim,
      unstopped_intercalate level_comma_space (by decide) hparts]
    exact forall₂_congr fun t ht => (h t ht).unstopped_ends_iff

/-- The comma of a table type from functions is bared, and so is the parenthesis after a parameter
that is a function. -/
theorem bared_in_table_and_parameter :
    let table := ["table<fun() -> T, U>".toList, "string".toList]
    let parameter := ["fun(f: fun() -> T)".toList, "x".toList]
    ((∀ t ∈ table, IsListed t) ∧ split ',' ([',', ' '].intercalate table) ≠ table) ∧
      (∀ t ∈ parameter, IsListed t) ∧
        unwrap '(' ')' ('(' :: [',', ' '].intercalate parameter ++ [')']) ≠
          ([',', ' '].intercalate parameter, []) := by
  intro table parameter
  have htable : ∀ t ∈ table, IsListed t := by decide
  have hparameter : ∀ t ∈ parameter, IsListed t := by decide
  refine ⟨⟨htable, ?_⟩, hparameter, ?_⟩
  · rw [ne_eq, (split_join_iff_not_bared htable).1]
    decide
  · refine mt ((split_join_iff_not_bared hparameter).2 []).1 ?_
    decide

end Bracket

end LuaDocs
