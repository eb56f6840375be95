import LuaDocs.Text.Blank
import LuaDocs.Text.Case
import LuaDocs.Text.Plain

/-!
# Anchors

Every documented object has an anchor in its document. Anchors are made of plain letters, digits
and a few signs, and no two objects of a document share one: if the name of an object gives no
anchor of its own, a number does.
-/

namespace LuaDocs.Anchor

open Text

/-- Letters that have a plain spelling by custom. -/
def customary : List (Char × String) :=
  [('ß', "sz"), ('æ', "ae"), ('œ', "oe"), ('ȸ', "db"), ('ȹ', "qp"), ('ø', "o"), ('đ', "d"),
    ('ħ', "h"), ('ı', "i"), ('ł', "l"), ('ŧ', "t"), ('ƀ', "b"), ('ƃ', "b"), ('ƈ', "c"),
    ('ƌ', "d"), ('ƒ', "f"), ('ƙ', "k"), ('ƚ', "l"), ('ƞ', "n"), ('ƥ', "p"), ('ƫ', "t"),
    ('ƭ', "t"), ('ƴ', "y"), ('ƶ', "z"), ('ǥ', "g"), ('ȥ', "z"), ('ȴ', "l"), ('ȵ', "n"),
    ('ȶ', "t"), ('ȷ', "j"), ('ȼ', "c"), ('ȿ', "s"), ('ɀ', "z"), ('ɇ', "e"), ('ɉ', "j"),
    ('ɋ', "q"), ('ɍ', "r"), ('ɏ', "y")]

/-- The plain spelling of a character. -/
def spell (c : Char) : List Char :=
  match customary.find? fun row => row.1 == c with
  | some row => row.2.toList
  | none => plainSpelling c

/-- Replaces every run of characters that are not allowed by one hyphen; `inRun` says that the
character before the text was replaced. -/
def hyphenate (allowed : Char → Bool) (inRun : Bool) : List Char → List Char
  | [] => []
  | c :: r =>
    if allowed c then c :: hyphenate allowed false r
    else if inRun then hyphenate allowed true r
    else '-' :: hyphenate allowed true r

/-- The text without the characters at its start that satisfy `start` and without the hyphens at
its end. -/
def trimEnds (start : Char → Bool) (s : List Char) : List Char :=
  ((s.dropWhile start).reverse.dropWhile fun c => c == '-').reverse

/-- A text as an anchor. -/
def spellAll (allowed start : Char → Bool) (s : List Char) : List Char :=
  let plain := s.flatMap spell
  trimEnds start (hyphenate allowed false ([' '].intercalate (words plain)))

/-- The characters of anchors of objects. -/
def isObjectChar (c : Char) : Bool := c.isAlphanum || c == '.' || c == '_'

/-- The anchor that the name of an object gives; none if nothing is left of the name. -/
def ofName? (name : String) : Option String :=
  let id := String.ofList (spellAll isObjectChar
    (fun c => c == '-' || c.isDigit || c == '.' || c == '_') ("lua-".toList ++ name.toList))
  if id == "lua" then none else some id

/-- The anchor with the given number. -/
def numbered (n : Nat) : String := "lua-" ++ toString n

/-- The first numbered anchor that is not in use, from the number `n` on, and the number after it.
Of `fuel + 1` anchors one is free if no more than `fuel` are in use. -/
def firstFree (used : List String) : Nat → Nat → String × Nat
  | 0, n => (numbered n, n + 1)
  | fuel + 1, n =>
    if used.contains (numbered n) then firstFree used fuel (n + 1) else (numbered n, n + 1)

/-- An anchor for an object that is not in use, and the next number. -/
def fresh (used : List String) (serial : Nat) (name : String) : String × Nat :=
  match (ofName? name).filter fun id => !used.contains id with
  | some id => (id, serial)
  | none => firstFree used used.length serial

/-- The anchor that a title gives. -/
def ofTitle (title : String) : String :=
  String.ofList (spellAll (fun c => c.isLower || c.isDigit) (fun c => c == '-' || c.isDigit)
    (lower title).toList)

end LuaDocs.Anchor
