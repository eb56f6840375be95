import LuaDocs.Node
import LuaDocs.Text.Blank
import LuaDocs.Text.Case
import LuaDocs.Text.Search

/-!
# References in text

A role turns its text into a reference. A text that starts with an exclamation mark is shown
without a reference; a text of the form `title <target>` has a title of its own; in any other text
title and target are the same, a tilde before it shows the last component only, and leading dots
belong to the target only.

`Role.render` stands for the roles of Sphinx. These are assumed to treat exclamation marks, titles
and escaped characters in this way; tildes and dots are up to the domain.
-/

namespace LuaDocs.Role

open Text

/-- The character with which an escaped character is marked in running text. -/
def escapeMark : Char := Char.ofNat 0

/-- The text without escape marks. Blanks that are escaped disappear with their marks, then line
ends that are escaped, and then the marks that are left. -/
def unescape (s : List Char) : List Char :=
  (replaceAll [escapeMark, '\n'] [] (replaceAll [escapeMark, ' '] [] s)).filter
    fun c => c != escapeMark

/-- Cuts a text at its first `<` that is neither its first character nor escaped. -/
def cutAngle : List Char → List Char → Option (List Char × List Char)
  | _, [] => none
  | before, c :: r =>
    if c == '<' && !before.isEmpty && before.head? != some escapeMark then some (before.reverse, r)
    else cutAngle (c :: before) r

/-- What stands before the `>` that ends a text; a line end may follow it. -/
def beforeAngle? (s : List Char) : Option (List Char) :=
  match s.reverse with
  | '>' :: r => some r.reverse
  | '\n' :: '>' :: r => some r.reverse
  | _ => none

/-- Title and target of a text with a title of its own. -/
def explicit? (s : List Char) : Option (List Char × List Char) :=
  match cutAngle [] s with
  | some (before, rest) =>
    (beforeAngle? rest).map fun target =>
      let title := trimEnd before
      (if title.isEmpty then before.take 1 else title, target)
  | none => none

/-- Title and target of a text without a title of its own. -/
def implicit (s : List Char) : List Char × List Char :=
  let title := s.dropWhile fun c => c == '.'
  let target := s.dropWhile fun c => c == '~'
  match title with
  | '~' :: t =>
    match t.reverse.dropWhile (fun c => c != '.') with
    | [] => (t, target)
    | _ => ((t.reverse.takeWhile fun c => c != '.').reverse, target)
  | _ => (title, target)

/-- How the title of a reference is set. -/
inductive Style where
  /-- As literal text. -/
  | literal
  /-- As a name in a signature. -/
  | name
  deriving DecidableEq, Repr

/-- The element that shows a title. -/
def Style.element (style : Style) (role : String) : Element :=
  match style with
  | .literal => .literal ["xref", "lua", "lua-" ++ role]
  | .name => .plain .sigName

/-- The node that the role `role` makes of a text where the context is `context`. -/
def render (context : Context) (style : Style) (role text : String) : Node :=
  let role := lower role
  let chars := text.toList
  match chars with
  | '!' :: rest => .holding (style.element role) (String.ofList (unescape rest))
  | _ =>
    let ref (explicit : Bool) (title target : List Char) : Node :=
      .element (.pending
        { domain := "lua", role, target := String.ofList target, explicit,
          moduleName := context.moduleName.get?, className := context.className.get?,
          usedModules := context.usedModules.get? })
        [.holding (style.element role) (String.ofList title)]
    match explicit? chars with
    | some (title, target) => ref true (unescape title) (unescape target)
    | none =>
      let (title, target) := implicit (unescape chars)
      ref false title target

end LuaDocs.Role
