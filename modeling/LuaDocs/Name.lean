import LuaDocs.Bracket
import LuaDocs.TypeExpr

/-!
# Names of Lua objects

An object is named by a path of components: identifiers, in which hyphens may occur, and keys of
tables, which are type expressions in square brackets. Components are joined by dots.
-/

namespace LuaDocs

open Text

namespace Name

/-- Joins components by dots. -/
def join (components : List (List Char)) : List Char := ['.'].intercalate components

/-- A key in square brackets with its type in normal form. -/
def key (type : List Char) : List Char := '[' :: TypeExpr.normalizeChars type ++ [']']

/-- Reads an identifier and the blanks around it. -/
def identifier? (s : List Char) : Option (List Char × List Char) :=
  let r := trimStart s
  let name := r.takeWhile isNameChar
  if name.isEmpty then none else some (name, trimStart (r.dropWhile isNameChar))

theorem length_identifier?_snd_lt {s a b : List Char} (h : identifier? s = some (a, b)) :
    b.length < s.length := by
  unfold identifier? at h
  have h0 := length_trimStart_le s
  have h1 : ((trimStart s).takeWhile isNameChar).length +
      ((trimStart s).dropWhile isNameChar).length = (trimStart s).length := by
    rw [← List.length_append, List.takeWhile_append_dropWhile]
  have h2 := length_trimStart_le ((trimStart s).dropWhile isNameChar)
  simp only at h
  split at h
  · simp at h
  · next hne =>
    simp only [Option.some.injEq, Prod.mk.injEq] at h
    have : 0 < ((trimStart s).takeWhile isNameChar).length := by
      rw [List.length_pos_iff]
      simpa using hne
    rw [← h.2]
    omega

/-- Reads one component: a key or an identifier. -/
def component? (s : List Char) : Option (List Char × List Char) :=
  match s with
  | '[' :: _ => let (type, rest) := Bracket.unwrap '[' ']' s; some (key type, rest)
  | _ => identifier? s

theorem length_component?_snd_lt {s a b : List Char} (h : component? s = some (a, b)) :
    b.length < s.length := by
  unfold component? at h
  split at h
  · next r =>
    simp only [Option.some.injEq, Prod.mk.injEq] at h
    rw [← h.2]
    exact Bracket.length_unwrap_snd_lt '[' ']' r
  · exact length_identifier?_snd_lt h

/-- Reads the components after the first: each may have a dot before it, and a dot has to be
followed by a component. -/
def components? (s : List Char) : Option (List (List Char) × List Char) :=
  match s with
  | '.' :: r =>
    match _h : component? r with
    | some (c, rest) => (components? rest).map fun p => (c :: p.1, p.2)
    | none => none
  | s =>
    match _h : component? s with
    | some (c, rest) => (components? rest).map fun p => (c :: p.1, p.2)
    | none => some ([], s)
termination_by s.length
decreasing_by
  · have := length_component?_snd_lt _h
    simp only [List.length_cons]
    omega
  · exact length_component?_snd_lt _h

/-- Reads the name at the start of a text as its components and the text after it. -/
def readComponents? (s : List Char) : Option (List (List Char) × List Char) :=
  match component? (trimStart s) with
  | some (c, rest) => (components? rest).map fun p => (c :: p.1, p.2)
  | none => none

/-- Reads the name at the start of a text, with its keys in normal form, and the text after it. -/
def read? (s : String) : Option (String × String) :=
  (readComponents? s.toList).map fun p => (String.ofList (join p.1), String.ofList p.2)

/-- A component as it is written in a normal name. -/
def normalComponent (c : List Char) : List Char :=
  match c with
  | '[' :: r => if r.getLast? == some ']' then key r.dropLast else c
  | _ => c

/-- The components of a written name that has keys, in normal form. -/
def keyedComponents (s : List Char) : List (List Char) :=
  (Bracket.split '.' s).map normalComponent

/-- The name with its keys in normal form; a name without keys is left as it is. -/
def normalizeChars (s : List Char) : List Char :=
  if s.contains '[' then join (keyedComponents s) else s

/-- `normalizeChars` on strings. -/
def normalize (s : String) : String := String.ofList (normalizeChars s.toList)

/-- The place of the last dot of a text: what stands before it and what stands after it. -/
def splitLastDot? (s : List Char) : Option (List Char × List Char) :=
  match s.reverse.dropWhile (fun c => c != '.') with
  | [] => none
  | _ :: before => some (before.reverse, (s.reverse.takeWhile fun c => c != '.').reverse)

/-- The name with a colon before its last component, the way in which methods are called. -/
def withColon (s : List Char) : List Char :=
  if s.contains '[' then
    let components := keyedComponents s
    let before := join components.dropLast
    (if before.isEmpty then [] else before ++ [':']) ++ components.getLast?.getD []
  else if s.contains ':' then s
  else match splitLastDot? s with
    | some (before, last) => before ++ ':' :: last
    | none => s

end Name

end LuaDocs
