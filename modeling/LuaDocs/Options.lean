import LuaDocs.Bracket
import LuaDocs.Context
import LuaDocs.Table
import LuaDocs.Text.Case
import LuaDocs.Text.Quoted

/-!
# Options of directives

A directive has options with values. Each directive says which options it takes and how the text
of a value is read. Some options can have a default in the configuration of the project; an option
with `no-` before its name switches the default off, and a list that starts with a plus sign is
added to it.

## Main definitions

* `OptionValue`, `Options`: values of options.
* `Converter`, `Converter.read`: how the text of a value is read.
* `Options.objectSpec`, `Options.autoSpec`, `Options.moduleSpec`: the options of directives.
* `Options.withDefaults`: options completed by defaults.
-/

namespace LuaDocs

open Text

/-- The value of an option. -/
inductive OptionValue where
  /-- The option is there, without a value. -/
  | flag
  /-- The option is switched off. -/
  | off
  /-- Everything is selected. -/
  | all
  | text (s : String)
  /-- Names in the order given. -/
  | names (items : List String)
  /-- Names in no order. -/
  | nameSet (items : List String)
  deriving DecidableEq, Repr

namespace OptionValue

/-- The value asks for something. -/
def isTrue : OptionValue → Bool
  | .flag | .off => false
  | .all => true
  | .text s => !s.isEmpty
  | .names items => !items.isEmpty
  | .nameSet items => !items.isEmpty

/-- The names that a value lists; of a text, its characters. -/
def items : OptionValue → List String
  | .flag | .off | .all => []
  | .text s => s.toList.map String.singleton
  | .names items => items
  | .nameSet items => items

/-- The text of a value. -/
def text? : OptionValue → Option String
  | .text s => some s
  | _ => none

/-- The value as it is shown in a message. -/
def shown : OptionValue → String
  | .flag => "None"
  | .off => "False"
  | .all => "True"
  | .text s => s
  | .names items | .nameSet items => quotedList items

/-- A value as a selection of names. -/
def selection? : OptionValue → Option Selection
  | .all => some .all
  | .names items => some (.names items)
  | .nameSet items => some (.names items)
  | _ => none

/-- Reads a list of names; an empty text selects everything, and a plus sign at its start stays as
an item of its own. -/
def ofList (value : Option String) : OptionValue :=
  match value.filter fun s => !s.isEmpty with
  | none => .all
  | some s =>
    match trim s.toList with
    | '+' :: r =>
      let r := r.dropWhile fun c => c == '+' || c == ',' || c == ' '
      .names ("+" :: (Bracket.split ',' r).map String.ofList)
    | s => .names ((Bracket.split ',' s).map String.ofList)

end OptionValue

/-- The options of a directive. -/
abbrev Options := Table OptionValue

/-- How the value of an option is read. -/
inductive Converter where
  /-- The option takes no value. -/
  | flag
  /-- The value is any text. -/
  | text
  /-- The value is a list of names. -/
  | names
  /-- The value is one of the given words. -/
  | choice (words : List String)
  deriving DecidableEq, Repr

namespace Converter

/-- Words as they are listed in a message. -/
def listed (words : List String) : String :=
  let quote (s : String) : String := "\"" ++ s ++ "\""
  ", ".intercalate (words.dropLast.map quote) ++ ", or " ++ quote (words.getLast?.getD "")

/-- Reads a value; on failure, what is wrong with it. -/
def read (c : Converter) (value : Option String) : Except String OptionValue :=
  match c with
  | .flag =>
    match value.filter fun s => !allBlank s.toList with
    | none => .ok .flag
    | some s => .error ("no argument is allowed; \"" ++ s ++ "\" supplied")
  | .text => .ok (.text (value.getD ""))
  | .names => .ok (.ofList value)
  | .choice words =>
    match value with
    | none => .error ("must supply an argument; choose from " ++ listed words)
    | some s =>
      let word := strip (lower s)
      if words.contains word then .ok (.text word)
      else .error ("\"" ++ s ++ "\" unknown; choose from " ++ listed words)

end Converter

namespace Options

/-- The options that can have a default in the configuration. -/
def configurable : List String :=
  ["no-index", "no-index-entry", "no-contents-entry", "using", "members", "undoc-members",
    "private-members", "protected-members", "package-members", "special-members",
    "inherited-members", "exclude-members", "title", "index-title", "recursive", "index-table",
    "inherited-members-table", "member-order", "module-member-order", "globals",
    "class-doc-from", "class-signature", "annotate-require", "require-function-name",
    "require-separator"]

/-- The options of the given table and, for those that can have a default, the options that switch
the default off. -/
def withNegations (spec : Table Converter) : Table Converter :=
  spec.update ((spec.keys.filter configurable.contains).map fun k => ("no-" ++ k, .flag))

/-- The options of directives that describe an object. -/
def objectSpec : Table Converter := withNegations
  [("module", .text), ("annotation", .text), ("virtual", .flag), ("private", .flag),
    ("protected", .flag), ("package", .flag), ("abstract", .flag), ("async", .flag),
    ("global", .flag), ("deprecated", .flag), ("synopsis", .text), ("using", .names),
    ("no-index", .flag), ("no-index-entry", .flag), ("no-contents-entry", .flag),
    ("no-typesetting", .flag), ("noindex", .flag), ("noindexentry", .flag),
    ("nocontentsentry", .flag)]

/-- The orders in which members can be listed. -/
def memberOrders : List String := ["alphabetical", "groupwise", "bysource"]

/-- The options of directives that describe an object of the tree. -/
def autoSpec : Table Converter :=
  (withNegations
    [("members", .names), ("undoc-members", .names), ("private-members", .names),
      ("protected-members", .names), ("package-members", .names), ("special-members", .names),
      ("inherited-members", .names), ("exclude-members", .names), ("title", .text),
      ("index-title", .text), ("recursive", .flag), ("index-table", .flag),
      ("inherited-members-table", .flag), ("member-order", .choice memberOrders),
      ("module-member-order", .choice memberOrders), ("globals", .names),
      ("class-doc-from", .choice ["class", "both", "ctor", "separate", "none"]),
      ("class-signature", .choice ["bases", "both", "ctor", "minimal"]),
      ("annotate-require", .choice ["always", "never", "auto", "force"]),
      ("require-function-name", .text), ("require-separator", .text)]).update objectSpec

/-- The options of the directive that starts a module. -/
def moduleSpec : Table Converter :=
  [("no-index", .flag), ("deprecated", .flag), ("synopsis", .text)]

/-- An option with a default: a list that starts with a plus sign is added to the default, and any
other value replaces it. -/
def override (default value : OptionValue) : OptionValue :=
  match value with
  | .names ("+" :: rest) =>
    match default with
    | .names items => .names (items ++ rest)
    | _ => .names rest
  | value => value

/-- The options completed by defaults; an option that is switched off keeps what is given. -/
def withDefaults (options defaults : Options) : Options :=
  defaults.foldl (fun o row =>
    if options.has ("no-" ++ row.1) then o
    else match options.get? row.1 with
      | none => o.set row.1 row.2
      | some v => o.set row.1 (override row.2 v)) options

/-- Adds an option that the documentation of an object sets; on failure, what is wrong with it. -/
def addSetting (object : String) (o : Options) (setting : String × String) :
    Except String Options :=
  match autoSpec.get? setting.1 with
  | none => .error ("unknown !doc option " ++ setting.1 ++ " in object " ++ object)
  | some converter =>
    match converter.read (some setting.2) with
    | .ok v => .ok (o.set setting.1 v)
    | .error e =>
      .error ("invalid !doc option " ++ setting.1 ++ " in object " ++ object ++ ": " ++ e)

/-- The text of an option. -/
def text? (o : Options) (key : String) : Option String := (o.get? key).bind OptionValue.text?

end Options

end LuaDocs
