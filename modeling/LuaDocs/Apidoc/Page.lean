import LuaDocs.Name
import LuaDocs.Options
import LuaDocs.Text.Percent
import LuaDocs.Text.Search

/-!
# Generated pages

A generated page has a title, a directive that describes an object with its options, and a list of
the pages below it. It is written in one of two markups.

The name of the file of a page is made from the name of its object. Characters that are not allowed
in file names are replaced by their bytes, each after an exclamation mark.
-/

namespace LuaDocs.Apidoc

open Text

/-- Brackets and parentheses stay in file names. -/
def isSafe (c : Char) : Bool := c == '(' || c == ')' || c == '[' || c == ']'

/-- The name of the file of an object's page, without its ending. -/
def fileName (name : String) : String :=
  String.ofList ((percentEncode isSafe (Name.normalize name).toList).map fun c =>
    if c == '%' then '!' else c)

/-- What stands on a page. -/
structure Page where
  /-- What kind of object it is. -/
  label : String
  fullname : String
  /-- The current module on the page. -/
  parentModule : Option String
  /-- The options of the directive, as text. -/
  options : Table String
  /-- The objects that have pages below this one. -/
  below : List String
  deriving Repr

namespace Page

/-- The name of the module in which names on the page are looked up. -/
def currentModule (p : Page) : String := (p.parentModule.filter fun s => !s.isEmpty).getD "None"

/-- A line under a title. -/
def underline (title : String) : String := String.ofList (List.replicate title.length '=')

/-- The text of a page in reStructuredText. -/
def restructured (p : Page) : String :=
  let title := p.label ++ " ``" ++ p.fullname ++ "``"
  title ++ "\n" ++ underline title ++ "\n\n.. lua:currentmodule:: " ++ p.currentModule ++
    "\n\n.. lua:autoobject:: " ++ p.fullname ++ "\n   " ++
    String.join (p.options.map fun o => ":" ++ o.1 ++ ": " ++ o.2 ++ "\n   ") ++ "\n\n" ++
    (if p.below.isEmpty then ""
      else "\n.. toctree::\n   :hidden:\n\n   " ++
        String.join (p.below.map fun name => "\n   " ++ fileName name ++ ".rst\n   ") ++ "\n")

/-- The text of a page in Markdown. -/
def markdown (p : Page) : String :=
  "# " ++ p.label ++ " `" ++ p.fullname ++ "`\n\n```\x7blua:currentmodule\x7d " ++
    p.currentModule ++ "\n```\n\n```\x7blua:autoobject\x7d " ++ p.fullname ++ "\n" ++
    String.join (p.options.map fun o => ":" ++ o.1 ++ ": " ++ o.2 ++ "\n") ++ "\n```\n\n" ++
    (if p.below.isEmpty then ""
      else "\n```\x7btoctree\x7d\n:hidden:\n\n" ++
        String.join (p.below.map fun name => "\n" ++ fileName name ++ ".md\n") ++ "\n```\n")

end Page

end LuaDocs.Apidoc
