import LuaDocs.Signature
import LuaDocs.TypeExpr.Display

/-!
# Writing signatures

A signature is written from left to right. A list that would be too long for one line is broken:
its brackets stand on lines of their own and each element has an indented line.
-/

namespace LuaDocs

/-- A signature that is being written. -/
structure Writer where
  /-- The greatest estimated length of a list that is kept on one line, if there is a limit. -/
  limit : Option Int
  context : Context
  finished : List (List Node)
  /-- The line that is being written. -/
  line : List Node

namespace Writer

/-- Adds a node to the line. -/
def add (w : Writer) (node : Node) : Writer := { w with line := w.line ++ [node] }

/-- Starts a new line. -/
def newLine (w : Writer) : Writer := { w with finished := w.finished ++ [w.line], line := [] }

/-- Adds the indentation of an element. -/
def indent (w : Writer) : Writer := w.add (.leaf .sigIndent "    ")

/-- Adds a blank. -/
def space (w : Writer) : Writer := w.add .space

/-- Adds a sign. -/
def punctuation (w : Writer) (s : String) : Writer := w.add (.punctuation s)

/-- Adds a type; fails if the type leaves loose text. -/
def type (w : Writer) (s : String) : Option Writer :=
  (Node.attach (.plain .descType) (TypeExpr.display w.context s)).map w.add

/-- Adds a reference to an object. -/
def ref (w : Writer) (s : String) : Writer :=
  w.add (.plain .descType [Role.render w.context .literal "obj" s])

/-- A list with the given estimated length does not fit on one line. -/
def breaks (w : Writer) (estimate : Nat) : Bool :=
  match w.limit with
  | some limit => limit < (estimate : Int)
  | none => false

/-- The name and type as they are shown: a question mark at the end of the type of a named
parameter is moved to its name, and parentheses around the rest of the type are dropped. -/
def optionalName (p : TypedName) : TypedName :=
  match p.type.toList.getLast? with
  | some '?' =>
    if p.name.isEmpty then p
    else ⟨p.name.push '?',
      String.ofList (Signature.dropParens p.type.toList.dropLast)⟩
  | _ => p

/-- Writes a name with its type. -/
def typedName (w : Writer) (p : TypedName) : Option Writer :=
  let w := if p.name.isEmpty then w else w.add (.leaf .sigName p.name)
  let w := if p.name.isEmpty || p.type.isEmpty then w else (w.punctuation ":").space
  if p.type.isEmpty then some w else w.type p.type

/-- Writes elements one after the other with commas between them, each on its own line if
`broken` is set. -/
def elements {α : Type} (write : Writer → α → Option Writer) (broken : Bool) :
    Writer → List α → Option Writer
  | w, [] => some w
  | w, a :: rest => do
    let w := if broken then w.newLine.indent else w
    let w ← write w a
    let w := if rest.isEmpty then w else (w.punctuation ",").space
    elements write broken w rest

/-- Writes a list between brackets. A list that is broken has brackets in any case. -/
def list {α : Type} (write : Writer → α → Option Writer) (estimate : Nat) (w : Writer)
    (items : List α) (brackets : Option (String × String)) : Option Writer := do
  let broken := w.breaks estimate
  let brackets := if broken then some (brackets.getD ("(", ")")) else brackets
  let w := match brackets with
    | some b => w.punctuation b.1
    | none => w
  let w ← elements write broken w items
  let w := if broken then w.newLine else w
  return match brackets with
    | some b => w.punctuation b.2
    | none => w

/-- The estimated length of a name with its type. -/
def estimate (p : TypedName) : Nat :=
  p.name.length + p.type.length + (if p.name.isEmpty || p.type.isEmpty then 0 else 1)

/-- The length of a list whose items are as long as `size` says, with one more for each item. -/
def listLength {α : Type} (size : α → Nat) (items : List α) : Nat :=
  items.foldl (fun n a => n + size a + 1) 0

/-- Writes typed names between brackets; `optionals` moves question marks to the names. -/
def params (w : Writer) (items : List TypedName) (brackets : Option (String × String))
    (optionals : Bool) : Option Writer :=
  list (fun w p => typedName w (if optionals then optionalName p else p))
    (listLength estimate items) w items brackets

/-- Writes types between brackets. -/
def types (w : Writer) (items : List String) (brackets : Option (String × String)) :
    Option Writer :=
  list (fun w s => if s.isEmpty then some w else w.type s)
    (listLength String.length items) w items brackets

/-- The signature has more than one line. -/
def isMultiline (w : Writer) : Bool := !w.finished.isEmpty

/-- The lines after the first: only the last has the permalink. -/
def laterLines (w : Writer) : List (List Node) → List Node
  | [] => [.element (.signatureLine (some true)) w.line]
  | l :: rest => .element (.signatureLine (some false)) l :: laterLines w rest

/-- The children of the signature: the nodes of its only line, or its lines. -/
def nodes (w : Writer) : List Node :=
  match w.finished with
  | [] => w.line
  | first :: rest => .element (.signatureLine none) first :: laterLines w rest

/-- Writes the results of a function after a colon; brackets are needed if a result has a name. -/
def returns (w : Writer) (items : List TypedName) : Option Writer :=
  if items.isEmpty then some w
  else ((w.punctuation ":").space).params items
    (if items.any fun p => !p.name.isEmpty then some ("(", ")") else none) true

end Writer

end LuaDocs
