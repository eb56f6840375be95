import LuaDocs.Name

/-!
# Signatures

What stands after the name in the argument of a directive: the parameters and results of a
function, the type of a variable, the meaning of an alias, the bases of a class.
-/

namespace LuaDocs

open Text

/-- A name with a type; either may be missing, and is empty then. -/
structure TypedName where
  name : String
  type : String
  deriving DecidableEq, Repr

namespace Signature

/-- Why a signature cannot be read. -/
inductive Error where
  /-- The signature does not start with a name, or a dot of the name is followed by nothing. -/
  | name
  /-- What stands after the parameters is no list of results. -/
  | returns
  /-- Something stands after the name of a table. -/
  | afterTable
  deriving DecidableEq, Repr

/-- The text of an error. -/
def Error.message : Error → String
  | .name => "incorrect object name"
  | .returns => "incorrect function return type"
  | .afterTable => "unexpected symbols after table name"

/-- Reads the name at the start of a signature. -/
def readName (sig : String) : Except Error (String × String) :=
  match Name.read? sig with
  | some p => .ok p
  | none => .error .name

/-- A text that can be the name of a parameter: one identifier with blanks around it. -/
def isParameterName (s : List Char) : Bool :=
  let name := trim s
  !name.isEmpty && name.all isNameChar

/-- Reads one element of a list of names and types. An element without a colon is a type, or a
name if `named` is set; what stands before the first colon is a name if it can be one. -/
def typedName? (named : Bool) (element : List Char) : Option TypedName :=
  match Bracket.splitRaw ':' element with
  | [] => none
  | first :: rest =>
    if (rest.isEmpty && !named) || !isParameterName first then
      some ⟨"", String.ofList (trim ([':'].intercalate (first :: rest)))⟩
    else
      some ⟨String.ofList (trim first), String.ofList (trim ([':'].intercalate rest))⟩

/-- Reads a list of names and types, separated by commas. -/
def typedNames (named : Bool) (s : List Char) : List TypedName :=
  (Bracket.split ',' s).filterMap (typedName? named)

/-- The signature of a function: type parameters, parameters and results. -/
structure Call where
  generics : List TypedName
  params : List TypedName
  returns : List TypedName
  deriving DecidableEq, Repr

/-- Removes a parenthesis from both ends of a text, if both are there. -/
def dropParens (s : List Char) : List Char :=
  match s with
  | '(' :: r => if r.getLast? == some ')' then r.dropLast else s
  | _ => s

/-- Reads what stands after the parameters of a function: an arrow or a colon, and the results. -/
def functionReturns (s : List Char) : Except Error (List Char) :=
  match s with
  | [] => .ok []
  | '-' :: '>' :: r => .ok (trimStart r)
  | ':' :: r => .ok (trimStart r)
  | _ => .error .returns

/-- Reads what stands after the parameters of a constructor. Here an arrow is only accepted before
a colon or at the end. -/
def constructorReturns (s : List Char) : Except Error (List Char) :=
  let s := match s with
    | '-' :: '>' :: r => trimStart r
    | _ => s
  match s with
  | [] => .ok []
  | ':' :: r => .ok (trimStart r)
  | _ => .error .returns

/-- The signature of a function. -/
def readFunction (sig : String) : Except Error (String × Call) := do
  let (name, rest) ← readName sig
  let (generics, rest) := Bracket.unwrap '<' '>' rest.toList
  let (params, rest) := Bracket.unwrap '(' ')' rest
  let returns ← functionReturns rest
  return (name, ⟨typedNames true generics, typedNames true params,
    typedNames false (dropParens returns)⟩)

/-- The signature of a variable: its name and its type as it is written. -/
def readData (sig : String) : Except Error (String × String) := do
  let (name, rest) ← readName sig
  return (name, strip rest)

/-- The signature of an alias: its type parameters and what it stands for. -/
structure AliasOf where
  generics : List TypedName
  /-- What the alias stands for. -/
  type : String
  deriving DecidableEq, Repr

/-- Drops the sign that introduces a type. -/
def dropMark (s : List Char) : List Char :=
  match s with
  | '=' :: r => r
  | ':' :: r => r
  | _ => s

/-- The signature of an alias. -/
def readAlias (sig : String) : Except Error (String × AliasOf) := do
  let (name, rest) ← readName sig
  let (generics, rest) := Bracket.unwrap '<' '>' rest.toList
  return (name, ⟨typedNames true generics, String.ofList (trim (dropMark rest))⟩)

/-- The signature of a class: its bases, or the parameters of its constructor. -/
inductive ClassForm where
  | bases (generics : List TypedName) (bases : List String)
  | constructor (call : Call)
  deriving DecidableEq, Repr

/-- The signature of a class. -/
def readClass (sig : String) : Except Error (String × ClassForm) := do
  let (name, rest) ← readName sig
  let (generics, rest) := Bracket.unwrap '<' '>' rest.toList
  match rest with
  | '(' :: _ =>
    let (params, rest) := Bracket.unwrap '(' ')' rest
    let returns ← constructorReturns rest
    return (name, .constructor ⟨typedNames true generics, typedNames true params,
      typedNames false (dropParens returns)⟩)
  | _ =>
    return (name, .bases (typedNames true generics)
      ((Bracket.split ',' (dropMark rest)).map String.ofList))

/-- The signature of a table: its name and nothing else. -/
def readTable (sig : String) : Except Error String := do
  let (name, rest) ← readName sig
  if rest.isEmpty then return name else throw .afterTable

end Signature

end LuaDocs
