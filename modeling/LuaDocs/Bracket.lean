import LuaDocs.Text.Blank

/-!
# Brackets and separators

Signatures and lists are cut at brackets and separators that stand outside strings and outside
nested brackets. One scanner reads a text from left to right; it keeps the number of open brackets,
of whatever shape, and the quote of the string it is in. A closing bracket with nothing open leaves
the depth at zero.
-/

namespace LuaDocs

open Text

/-- The state of a scan: how many brackets are open, the quote of the open string if there is one,
and whether the last character of that string was an escaping backslash. -/
structure Scan where
  depth : Nat
  /-- The quote that ends the open string. -/
  quote : Option Char
  /-- The next character of the string is taken as it is. -/
  escaped : Bool
  deriving DecidableEq, Repr

namespace Scan

/-- Outside every bracket and string. -/
def start : Scan := ⟨0, none, false⟩

/-- A bracket that opens a group. -/
def isOpener (c : Char) : Bool := c == '(' || c == '[' || c == '{' || c == '<'

/-- A bracket that closes a group. -/
def isCloser (c : Char) : Bool := c == ')' || c == ']' || c == '}' || c == '>'

/-- A quote that starts a string and ends it again. -/
def isQuote (c : Char) : Bool := c == '\'' || c == '"' || c == '`'

/-- Reads one character. -/
def step (s : Scan) (c : Char) : Scan :=
  match s.quote with
  | some q =>
    if s.escaped then { s with escaped := false }
    else if c == q then { s with quote := none }
    else if c == '\\' then { s with escaped := true }
    else s
  | none =>
    if isOpener c then { s with depth := s.depth + 1 }
    else if isCloser c then { s with depth := s.depth - 1 }
    else if isQuote c then { s with quote := some c }
    else s

/-- Reads a text. -/
def run (s : Scan) (text : List Char) : Scan := text.foldl step s

/-- The scan is outside every bracket and string. -/
def atTop (s : Scan) : Bool := s.depth == 0 && s.quote.isNone

@[simp] theorem run_nil (s : Scan) : s.run [] = s := rfl

@[simp] theorem run_cons (s : Scan) (c : Char) (text : List Char) :
    s.run (c :: text) = (s.step c).run text := rfl

theorem run_append (s : Scan) (a b : List Char) : s.run (a ++ b) = (s.run a).run b := by
  simp [run, List.foldl_append]

end Scan

namespace Bracket

/-- Cuts a text at the first character at which `stop` holds of the scan before it; the character
itself is dropped. -/
def cut? (stop : Scan → Char → Bool) : Scan → List Char → Option (List Char × List Char)
  | _, [] => none
  | s, c :: r =>
    if stop s c then some ([], r)
    else (cut? stop (s.step c) r).map fun p => (c :: p.1, p.2)

/-- The bracket `close` ends the group in which the scan started. -/
def ends (close : Char) (s : Scan) (c : Char) : Bool :=
  s.atTop && !Scan.isOpener c && c == close

/-- The character `sep` separates two pieces. -/
def separates (sep : Char) (s : Scan) (c : Char) : Bool :=
  s.atTop && !Scan.isOpener c && !Scan.isCloser c && !Scan.isQuote c && c == sep

/-- The group in brackets at the start of a text and the text after it, both trimmed. A text that
does not start with the opening bracket has no group; a group that is never closed takes the whole
text. -/
def unwrap (opening closing : Char) (text : List Char) : List Char × List Char :=
  match text with
  | [] => ([], [])
  | c :: r =>
    if c == opening then
      match cut? (ends closing) .start r with
      | some (inner, rest) => (trim inner, trim rest)
      | none => (trim r, [])
    else ([], trim text)

/-- The text between separators, empty pieces included: one more piece than separators. -/
def pieces (sep : Char) : Scan → List Char → List (List Char)
  | _, [] => [[]]
  | s, c :: r =>
    let rest := pieces sep (s.step c) r
    if separates sep s c then [] :: rest
    else (c :: rest.headD []) :: rest.tail

/-- The pieces between separators that hold more than blanks, as they stand in the text. -/
def splitRaw (sep : Char) (text : List Char) : List (List Char) :=
  (pieces sep .start text).filter fun piece => !allBlank piece

/-- The pieces between separators that hold more than blanks, trimmed. -/
def split (sep : Char) (text : List Char) : List (List Char) :=
  (splitRaw sep text).map trim

/-! ### What is left over is shorter -/

theorem length_cut?_snd_lt {stop : Scan → Char → Bool} {s : Scan} {text a b : List Char}
    (h : cut? stop s text = some (a, b)) : b.length < text.length := by
  induction text generalizing s a with
  | nil => simp [cut?] at h
  | cons c r ih =>
    rw [cut?] at h
    split at h
    · simp only [Option.some.injEq, Prod.mk.injEq] at h
      simp [← h.2]
    · obtain ⟨p, hp, hq⟩ := Option.map_eq_some_iff.1 h
      obtain ⟨rfl, rfl⟩ := Prod.mk.inj hq
      have := ih hp
      simp only [List.length_cons]
      omega

/-- What follows a group is shorter than the text that starts with it. -/
theorem length_unwrap_snd_lt (opening closing : Char) (r : List Char) :
    (unwrap opening closing (opening :: r)).2.length < (opening :: r).length := by
  simp only [unwrap, beq_self_eq_true, if_true]
  split
  · next inner rest h =>
    have h1 := length_cut?_snd_lt h
    have h2 := length_trim_le rest
    simp only [List.length_cons]
    omega
  · simp

end Bracket

end LuaDocs
