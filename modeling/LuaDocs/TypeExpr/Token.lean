import LuaDocs.Text.Blank
import LuaDocs.Text.Digit
import LuaDocs.Text.Word

/-!
# Tokens of type expressions

Type expressions are written freely, so they are read as a flat sequence of tokens and never
rejected: every character belongs to a token or is a blank between tokens.

A dotted name is a *reference* to a type unless what follows shows that it names a parameter or a
field: a colon, an opening parenthesis, or more of the name. Question marks after a reference mark
it as optional. A name that is not a reference is a *label*.

## Main definitions

* `Token`: the tokens.
* `Token.lex`: the tokens of a text.

## Main statements

* `Token.length_next_snd_le`: reading a token uses up at least one character, so `lex` ends.
-/

namespace LuaDocs.TypeExpr

open Text

/-- A token of a type expression. -/
inductive Token where
  /-- Three dots: any number of values. -/
  | dots
  /-- The word that starts the type of a function. -/
  | keyword
  /-- A string in quotes, quotes included. -/
  | literal (text : List Char)
  | number (text : List Char)
  /-- A dotted name of a type without its blanks, and the number of question marks after it. -/
  | reference (name : List Char) (marks : Nat)
  /-- A dotted name of a parameter or field without its blanks. -/
  | label (name : List Char)
  /-- One of the signs `=`, `:`, `,`, `|` and `&`. -/
  | separator (sign : Char)
  /-- A bracket of any shape. -/
  | bracket (sign : Char)
  /-- The arrow before the result of a function. -/
  | arrow
  /-- A run of other signs. -/
  | symbols (text : List Char)
  /-- A character without a role. -/
  | other (char : Char)
  deriving DecidableEq, Repr

namespace Token

/-! ### Strings and numbers -/

/-- Reads the rest of a string up to and with its quote `q`. A backslash takes the next character
with it, which may not be a line end. -/
def string? (q : Char) : List Char → Option (List Char × List Char)
  | [] => none
  | '\\' :: c :: r =>
    if c == '\n' then none else (string? q r).map fun p => ('\\' :: c :: p.1, p.2)
  | c :: r =>
    if c == q then some ([c], r)
    else if c == '\\' then none
    else (string? q r).map fun p => (c :: p.1, p.2)

/-- Cuts a text after the longest run of characters with the property `p`. -/
def run (p : Char → Bool) (s : List Char) : List Char × List Char := (s.takeWhile p, s.dropWhile p)

/-- An exponent, if the text starts with a whole one. -/
def exponent (s : List Char) : List Char × List Char :=
  match s with
  | e :: r =>
    if e == 'e' || e == 'E' then
      let (sign, r) := match r with
        | '+' :: r => (['+'], r)
        | '-' :: r => (['-'], r)
        | r => ([], r)
      let (digits, rest) := run isDigit r
      if digits.isEmpty then ([], s) else (e :: sign ++ digits, rest)
    else ([], s)
  | [] => ([], s)

/-- A fraction: a point and the digits after it. -/
def fraction (s : List Char) : List Char × List Char :=
  match s with
  | '.' :: r => let (digits, rest) := run isDigit r; ('.' :: digits, rest)
  | _ => ([], s)

/-- Reads a number: digits with an optional fraction, or a fraction with at least one digit, and
an optional exponent. -/
def number? (s : List Char) : Option (List Char × List Char) :=
  let (whole, r) := run isDigit s
  let (frac, r) := fraction r
  if whole.isEmpty && frac.length < 2 then none
  else
    let (exp, r) := exponent r
    some (whole ++ frac ++ exp, r)

/-! ### Names -/

/-- A dotted name may end here: the name so far without blanks, whether blanks follow it, and the
text after those blanks. -/
structure Stop where
  /-- The name up to here. -/
  name : List Char
  /-- Blanks stand after the name. -/
  spaced : Bool
  rest : List Char
  deriving DecidableEq, Repr

theorem length_dropWhile_le (p : Char → Bool) (s : List Char) :
    (s.dropWhile p).length ≤ s.length :=
  (List.dropWhile_sublist _).length_le

/-- The component of a dotted name at the start of `s`, after the components `before`. -/
def component (before s : List Char) : Stop :=
  let r := s.dropWhile isNameChar
  ⟨before ++ s.takeWhile isNameChar, (r.head?.map isBlank).getD false, trimStart r⟩

/-- The places where the dotted name that starts `s` may end, the nearest first. -/
def stops (before s : List Char) : List Stop :=
  let stop := component before s
  match _h : stop.rest with
  | '.' :: r =>
    match _h' : trimStart r with
    | [] => [stop]
    | c :: t => if isWord c then stop :: stops (stop.name ++ ['.']) (c :: t) else [stop]
  | _ => [stop]
termination_by s.length
decreasing_by
  have h1 : stop.rest.length ≤ s.length :=
    Nat.le_trans (length_trimStart_le _) (length_dropWhile_le _ s)
  have h2 := length_trimStart_le r
  rw [_h', List.length_cons] at h2
  rw [_h, List.length_cons] at h1
  simp only [List.length_cons]
  omega

/-- The text shows that the name before it is no reference. -/
def refusesReference : List Char → Bool
  | [] => false
  | c :: _ => c == ':' || c == '(' || c == '.' || isNameChar c

/-- Reads question marks with blanks after each. The last one is left if nothing but it stands
between the name and a text that refuses a reference. -/
def marks (n : Nat) : List Char → Nat × List Char
  | '?' :: r =>
    match _h : trimStart r with
    | '?' :: t => marks (n + 1) ('?' :: t)
    | t =>
      if t.length < r.length || !refusesReference t then (n + 1, t) else (n, '?' :: r)
  | s => (n, s)
termination_by s => s.length
decreasing_by
  have := length_trimStart_le r
  rw [_h, List.length_cons] at this
  simp only [List.length_cons]
  omega

/-- Reads a reference: the longest name that is followed by a blank or by a text that does not
refuse it. -/
def reference? (s : List Char) : Option (Token × List Char) :=
  ((stops [] s).reverse.find? fun stop => stop.spaced || !refusesReference stop.rest).map
    fun stop =>
      let (n, rest) := marks 0 stop.rest
      (.reference stop.name n, rest)

/-- Reads a label: the longest dotted name. -/
def readLabel (s : List Char) : Token × List Char :=
  match (stops [] s).getLast? with
  | some stop => (.label stop.name, stop.rest)
  | none => (.label [], s)

/-- Reads the word that starts the type of a function; a parenthesis has to follow. -/
def keyword? : List Char → Option (List Char)
  | 'f' :: 'u' :: 'n' :: r =>
    match trimStart r with
    | '(' :: t => some ('(' :: t)
    | _ => none
  | _ => none

/-! ### Signs -/

/-- A sign that separates parts of a type. -/
def isSeparator (c : Char) : Bool := c == '=' || c == ':' || c == ',' || c == '|' || c == '&'

/-- A bracket. -/
def isBracket (c : Char) : Bool :=
  c == '(' || c == ')' || c == '[' || c == ']' || c == '{' || c == '}' || c == '<' || c == '>'

/-- A sign that is copied as it stands. -/
def isSymbol (c : Char) : Bool := "-!#$%*+/\\;?@^_~".contains c

/-- A quote that starts a string. -/
def isQuote (c : Char) : Bool := c == '\'' || c == '"' || c == '`'

/-- Reads the text `c :: r`, which starts with no blank, as far as the first token. -/
def next (c : Char) (r : List Char) : Token × List Char :=
  match c, r with
  | '.', '.' :: '.' :: t => (.dots, t)
  | _, _ =>
  match if isQuote c then string? c r else none with
  | some (body, t) => (.literal (c :: body), t)
  | none =>
  match number? (c :: r) with
  | some (digits, t) => (.number digits, t)
  | none =>
  match keyword? (c :: r) with
  | some t => (.keyword, t)
  | none =>
  if isWord c then (reference? (c :: r)).getD (readLabel (c :: r))
  else if isSeparator c then (.separator c, r)
  else if isBracket c then (.bracket c, r)
  else match c, r with
  | '-', '>' :: t => (.arrow, t)
  | _, _ =>
  if isSymbol c then
    let (more, t) := run isSymbol r
    (.symbols (c :: more), t)
  else (.other c, r)

/-! ### Every token uses up a character -/

theorem length_string?_snd_le {q : Char} {s a b : List Char} (h : string? q s = some (a, b)) :
    b.length ≤ s.length := by
  fun_induction string? q s generalizing a with
  | case1 => simp at h
  | case2 => simp at h
  | case3 c r hc ih =>
    obtain ⟨p, hp, hq⟩ := Option.map_eq_some_iff.1 h
    obtain ⟨rfl, rfl⟩ := Prod.mk.inj hq
    have := ih hp
    simp only [List.length_cons]
    omega
  | case4 c r =>
    simp only [Option.some.injEq, Prod.mk.injEq] at h
    simp [← h.2]
  | case5 => simp at h
  | case6 c r _ _ _ ih =>
    obtain ⟨p, hp, hq⟩ := Option.map_eq_some_iff.1 h
    obtain ⟨rfl, rfl⟩ := Prod.mk.inj hq
    have := ih hp
    simp only [List.length_cons]
    omega

theorem length_exponent_snd_le (s : List Char) : (exponent s).2.length ≤ s.length := by
  cases s with
  | nil => simp [exponent]
  | cons e r =>
    have h1 (t : List Char) := length_dropWhile_le isDigit t
    simp only [exponent, run]
    split
    · split
      · split
        · exact Nat.le_refl _
        · next t _ => have := h1 t; simp only [List.length_cons]; omega
      · split
        · exact Nat.le_refl _
        · next t _ => have := h1 t; simp only [List.length_cons]; omega
      · split
        · exact Nat.le_refl _
        · next t _ _ => have := h1 r; simp only [List.length_cons]; omega
    · exact Nat.le_refl _

theorem length_run (p : Char → Bool) (s : List Char) :
    (run p s).1.length + (run p s).2.length = s.length := by
  rw [← List.length_append, run, List.takeWhile_append_dropWhile]

theorem length_fraction (s : List Char) :
    (fraction s).1.length + (fraction s).2.length = s.length := by
  unfold fraction
  split
  · next r => have := length_run isDigit r; simp only [List.length_cons]; omega
  · simp

theorem length_number?_snd_lt {s a b : List Char} (h : number? s = some (a, b)) :
    b.length < s.length := by
  have h1 := length_run isDigit s
  have h2 := length_fraction (run isDigit s).2
  have h3 := length_exponent_snd_le (fraction (run isDigit s).2).2
  simp only [number?] at h
  split at h
  · simp at h
  · next hne =>
    simp only [Option.some.injEq, Prod.mk.injEq] at h
    rw [← h.2]
    by_cases he : (run isDigit s).1.isEmpty
    · simp only [he, Bool.true_and, decide_eq_true_eq] at hne
      omega
    · have : 0 < (run isDigit s).1.length := by
        rw [List.length_pos_iff]
        simpa using he
      omega

theorem length_component_rest_le {c : Char} (before t : List Char) (hc : isNameChar c = true) :
    (component before (c :: t)).rest.length ≤ t.length := by
  have h1 := length_dropWhile_le isNameChar t
  have h2 := length_trimStart_le (t.dropWhile isNameChar)
  simp only [component, List.dropWhile_cons, hc, if_true]
  omega

theorem length_rest_le_of_mem_stops {c : Char} {before t : List Char} {stop : Stop}
    (hc : isNameChar c = true) (h : stop ∈ stops before (c :: t)) :
    stop.rest.length ≤ t.length := by
  have h0 := length_component_rest_le before t hc
  induction ht : t.length using Nat.strongRecOn generalizing c t before with
  | _ n ih =>
    rw [stops] at h
    split at h
    · next r hr =>
      rw [hr, List.length_cons] at h0
      have h1 := length_trimStart_le r
      split at h
      · simp only [List.mem_singleton] at h
        rw [h, hr, List.length_cons]
        omega
      · next d u hu =>
        rw [hu, List.length_cons] at h1
        split at h
        · next hd =>
          have hd' : isNameChar d = true := by simp [isNameChar, hd]
          rcases List.mem_cons.1 h with h | h
          · rw [h, hr, List.length_cons]
            omega
          · have := ih u.length (by omega) hd' h (length_component_rest_le _ u hd') rfl
            omega
        · simp only [List.mem_singleton] at h
          rw [h, hr, List.length_cons]
          omega
    · simp only [List.mem_singleton] at h
      rw [h]
      omega

theorem length_marks_snd_le (n : Nat) (s : List Char) : (marks n s).2.length ≤ s.length := by
  fun_induction marks n s with
  | case1 n r t h ih =>
    have := length_trimStart_le r
    rw [h] at this
    simp only [List.length_cons] at this ih ⊢
    omega
  | case2 n r _ h =>
    have := length_trimStart_le r
    simp only [List.length_cons]
    omega
  | case3 => simp
  | case4 => simp

theorem length_reference?_snd_le {c : Char} {r : List Char} {p : Token × List Char}
    (hc : isWord c = true) (h : reference? (c :: r) = some p) : p.2.length ≤ r.length := by
  obtain ⟨stop, hs, rfl⟩ := Option.map_eq_some_iff.1 h
  have hmem := List.mem_reverse.1 (List.mem_of_find?_eq_some hs)
  have h1 := length_rest_le_of_mem_stops (by simp [isNameChar, hc]) hmem
  have h2 := length_marks_snd_le 0 stop.rest
  exact Nat.le_trans h2 h1

theorem length_readLabel_snd_le {c : Char} {r : List Char} (hc : isWord c = true) :
    (readLabel (c :: r)).2.length ≤ r.length := by
  unfold readLabel
  split
  · next stop h =>
    exact length_rest_le_of_mem_stops (by simp [isNameChar, hc]) (List.mem_of_getLast? h)
  · next h =>
    rw [List.getLast?_eq_none_iff] at h
    rw [stops] at h
    split at h
    · split at h
      · simp at h
      · split at h <;> simp at h
    · simp at h

theorem length_keyword?_le {c : Char} {r t : List Char} (h : keyword? (c :: r) = some t) :
    t.length ≤ r.length := by
  unfold keyword? at h
  split at h
  · next u hu =>
    obtain ⟨rfl, rfl⟩ := List.cons.inj hu
    have := length_trimStart_le u
    split at h
    · next v hv =>
      rw [hv] at this
      simp only [Option.some.injEq] at h
      rw [← h]
      simp only [List.length_cons] at this ⊢
      omega
    · simp at h
  · simp at h

/-- Reading a token uses up at least one character. -/
theorem length_next_snd_le (c : Char) (r : List Char) : (next c r).2.length ≤ r.length := by
  unfold next
  split
  · simp only [List.length_cons]; omega
  split
  · next hs =>
    split at hs
    · exact length_string?_snd_le hs
    · simp at hs
  split
  · next hn =>
    have := length_number?_snd_lt hn
    simp only [List.length_cons] at this ⊢
    omega
  split
  · next hk => exact length_keyword?_le hk
  split
  · next hw =>
    cases hr : reference? (c :: r) with
    | none => simpa [hr] using length_readLabel_snd_le hw
    | some p => simpa [hr] using length_reference?_snd_le hw hr
  split
  · exact Nat.le_refl _
  split
  · exact Nat.le_refl _
  split
  · simp
  split
  · exact length_dropWhile_le _ _
  · exact Nat.le_refl _

/-- The tokens of a text. -/
def lex (s : List Char) : List Token :=
  match s with
  | [] => []
  | c :: r =>
    if isBlank c then lex r
    else
      let p := next c r
      p.1 :: lex p.2
termination_by s.length
decreasing_by
  · simp
  · have := length_next_snd_le c r
    simp only [List.length_cons]
    omega

end Token

end LuaDocs.TypeExpr
