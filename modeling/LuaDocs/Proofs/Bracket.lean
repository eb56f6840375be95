import LuaDocs.Bracket

/-!
# Closed texts

A text is closed if it closes no bracket that it has not opened and leaves no bracket and no string
open. The scanner comes out of a closed text as it went in. So a group whose inner text is closed
ends at its own bracket, and a separator inside the group separates nothing.
-/

namespace LuaDocs

open Text

namespace Scan

/-- The scan inside one more bracket. -/
def deeper (s : Scan) : Scan := { s with depth := s.depth + 1 }

/-- A closing bracket that is inside another one, or in a string, is read alike one bracket
deeper. -/
theorem step_deeper {s : Scan} {c : Char} (h : (s.atTop && isCloser c) = false) :
    s.deeper.step c = (s.step c).deeper := by
  obtain ⟨depth, quote, escaped⟩ := s
  cases quote with
  | some q =>
    cases escaped with
    | true => rfl
    | false =>
      by_cases hq : c = q
      · simp [step, deeper, hq]
      · by_cases hslash : (c == '\\') = true <;> simp [step, deeper, hq, hslash]
  | none =>
    by_cases hopener : isOpener c = true
    · simp [step, deeper, hopener]
    by_cases hcloser : isCloser c = true
    · -- the bracket closes one that is inside the outer one
      have hinside : depth ≠ 0 := by
        rintro rfl
        simp [atTop, hcloser] at h
      have hback : depth + 1 - 1 = depth - 1 + 1 := by omega
      simp [step, deeper, hopener, hcloser, hback]
    · by_cases hquote : isQuote c = true <;> simp [step, deeper, hopener, hcloser, hquote]

/-- A character that is neither a bracket nor a quote. -/
def passes (c : Char) : Bool := !isOpener c && !isCloser c && !isQuote c

/-- The brackets and the quotes. -/
def signs : List Char := ['(', '[', '{', '<', ')', ']', '}', '>', '\'', '"', '\x60']

/-- The characters of a class pass if no bracket and no quote belongs to it. -/
theorem passes_of_class {p : Char → Bool} (hp : (signs.all fun d => !p d) = true) {c : Char}
    (hc : p c = true) : passes c = true := by
  rw [← Bool.not_eq_false]
  intro hnot
  rw [passes, ← Bool.not_or, ← Bool.not_or, Bool.not_eq_false'] at hnot
  simp only [isOpener, isCloser, isQuote, Bool.or_eq_true, beq_iff_eq, or_assoc] at hnot
  have hmem : c ∈ signs := by simpa [signs] using hnot
  have hother := List.all_eq_true.1 hp c hmem
  rw [hc] at hother
  cases hother

theorem step_of_passes {c : Char} (h : passes c = true) (depth : Nat) :
    step ⟨depth, none, false⟩ c = ⟨depth, none, false⟩ := by
  simp only [passes, Bool.and_eq_true, Bool.not_eq_true'] at h
  simp [step, h]

end Scan

namespace Bracket

variable {s : Scan} {text rest : List Char}

/-- From the state `s` of the scan on, the text closes no bracket that was not opened, and it ends
outside every bracket and string. -/
def closed : Scan → List Char → Bool
  | s, [] => s == .start
  | s, c :: r => !(s.atTop && Scan.isCloser c) && closed (s.step c) r

theorem closed_cons {c : Char} :
    closed s (c :: text) = true ↔
      (s.atTop && Scan.isCloser c) = false ∧ closed (s.step c) text = true := by
  rw [closed, Bool.and_eq_true, Bool.not_eq_true']

/-- The first bracket that a closed text does not open comes after it. -/
theorem cut?_of_closed {closing : Char} (hclosing : Scan.isCloser closing = true)
    (hopening : Scan.isOpener closing = false) (h : closed s text = true) :
    cut? (ends closing) s (text ++ closing :: rest) = some (text, rest) := by
  induction text generalizing s with
  | nil =>
    obtain rfl : s = .start := by simpa [closed] using h
    simp [cut?, ends, Scan.atTop, Scan.start, hopening]
  | cons c text ih =>
    obtain ⟨htop, h⟩ := closed_cons.1 h
    have hinside : ends closing s c = false := by
      rw [Bool.eq_false_iff]
      intro hends
      simp only [ends, Bool.and_eq_true, beq_iff_eq] at hends
      obtain ⟨⟨hs, -⟩, rfl⟩ := hends
      rw [hs, hclosing] at htop
      cases htop
    rw [List.cons_append, cut?, hinside]
    simp [ih h]

/-- A group with a closed inner text ends at its bracket. -/
theorem unwrap_of_closed {opening closing : Char} (hclosing : Scan.isCloser closing = true)
    (hopening : Scan.isOpener closing = false) (h : closed .start text = true) :
    unwrap opening closing (opening :: text ++ closing :: rest) = (trim text, trim rest) := by
  rw [List.cons_append, unwrap]
  simp [cut?_of_closed hclosing hopening h]

/-! ### Pieces -/

/-- No separator cuts the text, and what follows it is cut as if it stood alone. -/
def Whole (sep : Char) (text : List Char) : Prop :=
  ∀ rest, pieces sep .start (text ++ rest) =
    (text ++ (pieces sep .start rest).headD []) :: (pieces sep .start rest).tail

variable {sep : Char}

theorem pieces_ne_nil (sep : Char) (s : Scan) (text : List Char) : pieces sep s text ≠ [] := by
  cases text with
  | nil => simp [pieces]
  | cons c r =>
    rw [pieces]
    split <;> simp

theorem headD_cons_tail_pieces (sep : Char) (s : Scan) (text : List Char) :
    (pieces sep s text).headD [] :: (pieces sep s text).tail = pieces sep s text := by
  obtain ⟨piece, more, h⟩ := List.exists_cons_of_ne_nil (pieces_ne_nil sep s text)
  rw [h]
  rfl

theorem whole_nil (sep : Char) : Whole sep [] := fun rest => by
  rw [List.nil_append, List.nil_append, headD_cons_tail_pieces]

/-- A character that neither separates nor opens anything can stand before a whole text. -/
theorem Whole.cons {c : Char} (hc : Scan.passes c = true) (hsep : c ≠ sep)
    (h : Whole sep text) : Whole sep (c :: text) := by
  intro rest
  have hseparates : separates sep .start c = false := by simp [separates, hsep]
  rw [List.cons_append, pieces, Scan.start, Scan.step_of_passes hc, ← Scan.start, hseparates,
    h rest]
  rfl

theorem whole_of_passes (h : ∀ c ∈ text, Scan.passes c = true ∧ c ≠ sep) : Whole sep text := by
  induction text with
  | nil => exact whole_nil sep
  | cons c text ih =>
    rw [List.forall_mem_cons] at h
    exact (ih h.2).cons h.1.1 h.1.2

/-- Inside a bracket nothing separates. -/
theorem pieces_deeper (h : closed s text = true) (rest : List Char) :
    pieces sep s.deeper (text ++ rest) =
      (text ++ (pieces sep Scan.start.deeper rest).headD []) ::
        (pieces sep Scan.start.deeper rest).tail := by
  induction text generalizing s with
  | nil =>
    obtain rfl : s = .start := by simpa [closed] using h
    rw [List.nil_append, List.nil_append, headD_cons_tail_pieces]
  | cons c text ih =>
    obtain ⟨htop, h⟩ := closed_cons.1 h
    have hseparates : separates sep s.deeper c = false := by
      simp [separates, Scan.atTop, Scan.deeper]
    rw [List.cons_append, pieces, Scan.step_deeper htop, hseparates, ih h]
    rfl

/-- A group with a closed inner text is whole. -/
theorem whole_group {opening closing : Char} (hopening : Scan.isOpener opening = true)
    (hclosing : Scan.isCloser closing = true) (hother : Scan.isOpener closing = false)
    (h : closed .start text = true) : Whole sep (opening :: text ++ [closing]) := by
  intro rest
  have hin : Scan.start.step opening = Scan.start.deeper := by
    simp [Scan.step, Scan.start, hopening, Scan.deeper]
  have hout : Scan.start.deeper.step closing = .start := by
    simp [Scan.step, Scan.start, hclosing, hother, Scan.deeper]
  have hfirst : separates sep .start opening = false := by simp [separates, hopening]
  have hlast : separates sep Scan.start.deeper closing = false := by simp [separates, hclosing]
  have hinner : pieces sep Scan.start.deeper (text ++ closing :: rest) = _ :: _ :=
    pieces_deeper h (closing :: rest)
  rw [pieces, hout, hlast] at hinner
  rw [List.append_assoc, List.singleton_append, List.cons_append, pieces, hin, hfirst, hinner]
  simp

/-- A separator after a whole text cuts the text off. -/
theorem Whole.pieces_sep (h : Whole sep text) (hsep : Scan.passes sep = true) (rest : List Char) :
    pieces sep .start (text ++ sep :: rest) = text :: pieces sep .start rest := by
  have hseparates : separates sep .start sep = true := by
    simp only [Scan.passes, Bool.and_eq_true] at hsep
    simp [separates, Scan.atTop, Scan.start, hsep]
  have hnew : pieces sep .start (sep :: rest) = [] :: pieces sep .start rest := by
    rw [pieces, hseparates, Scan.start, Scan.step_of_passes hsep]
    rfl
  rw [h, hnew]
  simp

theorem Whole.pieces_eq (h : Whole sep text) : pieces sep .start text = [text] := by
  have hall := h []
  simpa [pieces] using hall

end Bracket

end LuaDocs
