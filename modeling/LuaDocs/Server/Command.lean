import LuaDocs.Server.Install

/-!
# The command that installs an analyzer

The command takes a platform, a machine and a directory, in this order. Options may stand anywhere
between them; the name of an option can be shortened as long as one option is meant. After two
dashes that stand alone nothing is an option.
-/

namespace LuaDocs.Server

open Text

/-- What the command is to do. -/
structure Command where
  analyzer : Analyzer
  least : String
  bound : Option String
  /-- The versions that are not wanted, if any are given. -/
  skipped : Option (List String)
  /-- The platform, the machine and the directory, as far as they are given. -/
  places : List String
  /-- There are words that are not understood. -/
  surplus : Bool
  deriving DecidableEq, Repr

namespace Command

/-- Nothing is given. -/
def empty : Command := ⟨.luaLs, "0.0.0", none, none, [], false⟩

/-- The options that are known. -/
inductive Flag where
  | help | runtime | min | max | skip
  deriving DecidableEq, Repr

/-- The names of the options. -/
def flagNames : List (String × Flag) :=
  [("-h", .help), ("--help", .help), ("--runtime", .runtime), ("--min", .min), ("--max", .max),
    ("--skip", .skip)]

/-- A word of a command line. -/
inductive Word where
  /-- A word that is no option. -/
  | value (s : String)
  /-- An option, with the value that is written in the same word. -/
  | option (name : String) (flag : Flag) (value : Option String)
  /-- An option that is not known. -/
  | unknown
  /-- Two dashes. -/
  | dashes
  deriving DecidableEq, Repr

/-- A text before and after the first equals sign, if there is one. -/
def cutAtEquals (s : List Char) : List Char × Option (List Char) :=
  match s.dropWhile fun c => c != '=' with
  | [] => (s, none)
  | _ :: rest => (s.takeWhile fun c => c != '=', some rest)

/-- The options that a word that starts with a dash can mean, with the value that is written in the
same word. -/
def candidates (s : List Char) : List Word :=
  match s with
  | '-' :: '-' :: _ =>
    let (name, value) := cutAtEquals s
    flagNames.filterMap fun (full, option) =>
      if name.isPrefixOf full.toList then some (.option full option (value.map String.ofList))
      else none
  | _ =>
    flagNames.filterMap fun (full, option) =>
      if full.toList == s.take 2 then some (.option full option (some (String.ofList (s.drop 2))))
      else if s.isPrefixOf full.toList then some (.option full option none)
      else none

/-- A number with a minus sign. -/
def isNegativeNumber (s : List Char) : Bool :=
  match s with
  | '-' :: r =>
    match r.dropWhile isDigit with
    | [] => !r.isEmpty
    | '.' :: fraction => !fraction.isEmpty && fraction.all isDigit
    | _ => false
  | _ => false

/-- Reads a word. The word must not mean two options. -/
def word? (s : String) : Option Word :=
  match s.toList with
  | [] | ['-'] => some (.value s)
  | '-' :: r =>
    match flagNames.lookup s with
    | some option => some (.option s option none)
    | none =>
      let (name, value) := cutAtEquals ('-' :: r)
      match value, flagNames.lookup (String.ofList name) with
      | some value, some option =>
        some (.option (String.ofList name) option (some (String.ofList value)))
      | _, _ =>
        match candidates ('-' :: r) with
        | [w] => some w
        | _ :: _ => none
        | [] =>
          if isNegativeNumber ('-' :: r) || r.contains ' ' then some (.value s)
          else some .unknown
  | _ => some (.value s)

/-- Reads the words of a command line. -/
def words? : List String → Option (List Word)
  | [] => some []
  | s :: rest =>
    if s == "--" then some (.dashes :: rest.map .value)
    else do return (← word? s) :: (← words? rest)

/-- What a command line asks for. -/
inductive Parsed where
  /-- To carry out a command. -/
  | run (c : Command)
  /-- To say how the command is used. -/
  | help
  /-- Nothing that is understood. -/
  | misuse
  deriving DecidableEq, Repr

/-- The command with the value of an option. -/
def set? (c : Command) (option : Flag) (value : String) : Option Command :=
  match option with
  | .help => none
  | .runtime =>
    match value with
    | "luals" => some { c with analyzer := .luaLs }
    | "emmylua" => some { c with analyzer := .emmyLua }
    | _ => none
  | .min => some { c with least := value }
  | .max => some { c with bound := some value }
  | .skip => some { c with skipped := some (c.skipped.getD [] ++ [value]) }

/-- The value that is written in one word with the short name of the option for help: the same
option again, any number of times. -/
def repeatsHelp (name : String) (value : String) : Bool :=
  name == "-h" && !value.isEmpty && value.toList.all fun c => c == 'h'

/-- Reads the rest of a command line. -/
def readWords (c : Command) : List Word → Parsed
  | [] => if c.places.length == 3 && !c.surplus then .run c else .misuse
  | .value s :: rest =>
    if c.places.length < 3 then readWords { c with places := c.places ++ [s] } rest
    else readWords { c with surplus := true } rest
  | .dashes :: rest => readWords c rest
  | .unknown :: rest => readWords { c with surplus := true } rest
  | .option _ .help none :: _ => .help
  | .option name .help (some value) :: _ => if repeatsHelp name value then .help else .misuse
  | .option _ option (some value) :: rest =>
    match c.set? option value with
    | some c => readWords c rest
    | none => .misuse
  | .option _ option none :: .value s :: rest =>
    match c.set? option s with
    | some c => readWords c rest
    | none => .misuse
  | .option _ _ none :: _ => .misuse

/-- Reads a command line. -/
def parse (args : List String) : Parsed :=
  match words? args with
  | some words => readWords .empty words
  | none => .misuse

/-- Carries a command out: the release is loaded unless a program that suits is there, and is not
asked for its version. -/
def run [FileSystem] (c : Command) : Install Path :=
  let place (i : Nat) : String := (c.places[i]?).getD ""
  let wanted := ⟨c.least, c.bound, c.skipped.getD c.analyzer.brokenReleases⟩
  install ⟨c.analyzer, wanted, .ofString (place 2), true, false⟩ (place 0) (place 1) none

end Command

end LuaDocs.Server
