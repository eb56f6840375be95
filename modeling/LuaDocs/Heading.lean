import LuaDocs.Index
import LuaDocs.Options
import LuaDocs.Signature.Writer

/-!
# Headings of descriptions

The description of an object starts with headings, one for each of its signatures. A heading shows
what kind of object it is, its name and its signature, and carries the names under which the object
is known: the module and class that it belongs to, its full name, and its place in tables of
contents.

Objects fall into families that share the form of their signatures.

## Main definitions

* `Family`, `Subject`: the forms of signatures, and what a signature says.
* `Naming`, `Naming.ofName`: the names of an object, by the context in which it is described.
* `Naming.shown`: the name as it is shown, and what is shown before it.
* `Heading.marks`, `Heading.write`: the nodes of a heading.
-/

namespace LuaDocs

open Text

/-- The families of objects. -/
inductive Family where
  | function | data | alias_ | class_ | table
  deriving DecidableEq, Repr

/-- The family of a type of objects. -/
def ObjType.family : ObjType → Family
  | .function | .method | .classMethod | .staticMethod => .function
  | .class_ => .class_
  | .alias_ | .enum => .alias_
  | .table | .module_ => .table
  | .data | .const | .attribute | .other _ => .data

/-- Objects of the family contain what is described in their body. -/
def Family.nests : Family → Bool
  | .alias_ | .class_ | .table => true
  | .function | .data => false

/-- What a signature says of an object, its name apart. -/
inductive Subject where
  | function (call : Signature.Call)
  | data (type : String)
  | alias_ (meaning : Signature.AliasOf)
  | class_ (form : Signature.ClassForm)
  | table
  deriving DecidableEq, Repr

/-- The bases that a signature names. -/
def Subject.bases : Subject → List String
  | .class_ (.bases _ bases) => bases
  | _ => []

/-- Reads a signature. A table has no signature but the argument of its directive. -/
def Family.read (f : Family) (argument sig : String) : Except Signature.Error (String × Subject) :=
  match f with
  | .function => (Signature.readFunction sig).map fun r => (r.1, .function r.2)
  | .data => (Signature.readData sig).map fun r => (r.1, .data r.2)
  | .alias_ => (Signature.readAlias sig).map fun r => (r.1, .alias_ r.2)
  | .class_ => (Signature.readClass sig).map fun r => (r.1, .class_ r.2)
  | .table => (Signature.readTable argument).map fun name => (name, .table)

/-- The names of an object. -/
structure Naming where
  /-- The name by which the object is known everywhere. -/
  fullname : String
  moduleName : Option String
  className : Option String
  /-- The name that its signature gives. -/
  name : String
  deriving DecidableEq, Repr

namespace Naming

/-- The names of an object that is called `name` where it is described. An option may name another
module. -/
def ofName (options : Options) (context : Context) (name : String) : Naming :=
  let (moduleName, className) := match options.get? "module" with
    | some v => (some (v.text?.getD ""), some "")
    | none => (context.moduleName.current.getOr "", context.className.current.getOr "")
  ⟨Index.joinGiven [moduleName, className, some name], moduleName, className, name⟩

/-- What is shown before the name: the module, unless the object belongs to a class. -/
def qualifier (n : Naming) : String :=
  if (n.className.getD "").isEmpty then n.moduleName.getD "" else ""

/-- The qualifier with a dot that separates it from the name. -/
def separated (qualifier : String) : String :=
  if qualifier.isEmpty || qualifier.endsWith "." || qualifier.endsWith ":" then qualifier
  else qualifier ++ "."

/-- What is shown before the name, and the name as it is shown: methods have a colon before their
last component. -/
def shown (n : Naming) (t : ObjType) : String × String :=
  let parts := Index.components n.name
  if !t.usesColon then (separated n.qualifier, n.name)
  else if 1 < parts.length then
    (separated n.qualifier,
      joinStrings '.' parts.dropLast ++ ":" ++ parts.getLast?.getD "")
  else
    (separated (if n.qualifier.isEmpty then "" else n.qualifier ++ ":"), n.name)

/-- The text of the object in the general index. -/
def indexText (n : Naming) (t : ObjType) : String :=
  let before := joinStrings '.' (splitString '.' n.fullname).dropLast
  if before.isEmpty then n.name ++ " (" ++ t.name ++ ")"
  else n.name ++ " (" ++ t.name ++ " in " ++ before ++ ")"

/-- The components under which the object stands in tables of contents. -/
def tocParts (n : Naming) : List String := splitString '.' n.fullname

end Naming

/-- How much of a name is shown in tables of contents. -/
inductive TocParents where
  /-- The last component only. -/
  | hide
  /-- What the heading shows. -/
  | heading
  /-- The full name. -/
  | all
  deriving DecidableEq, Repr

/-- The title of an object in tables of contents. -/
def Naming.tocName (n : Naming) (parents : TocParents) (parens : Bool) (t : ObjType) : String :=
  let name := match parents with
    | .hide => n.tocParts.getLast?.getD ""
    | .heading => (n.shown t).1 ++ (n.shown t).2
    | .all => n.fullname
  t.referenceTitle parens name

namespace Heading

/-- Options that are shown before the name of an object. -/
def flags : List String :=
  ["global", "private", "protected", "package", "abstract", "virtual", "async"]

/-- Options that say something of the constructor of a class and not of the class. -/
def constructorFlags : List String := ["async", "abstract", "virtual"]

/-- The words that say what kind of object it is. -/
def kindWords (t : ObjType) : Subject → List String
  | .function _ => if t == .function || t == .method then [] else [t.name]
  | .data _ => if t == .data || t == .attribute then [] else [t.name]
  | .alias_ _ => [t.name]
  | .class_ (.constructor _) => [t.name, "ctor"]
  | .class_ (.bases ..) => [t.name]
  | .table => if t == .table then [] else [t.name]

/-- The flags that are shown. -/
def shownFlags (options : Options) (s : Subject) : List String :=
  flags.filter fun k => options.has k && match s with
    | .class_ (.bases ..) => !constructorFlags.contains k
    | _ => true

/-- The words that stand before the name. -/
def marks (t : ObjType) (options : Options) (s : Subject) : List String :=
  (Context.nonEmpty (options.text? "annotation")).toList ++ shownFlags options s ++ kindWords t s

/-- The nodes of the name; a name that is a key is shown as a type. -/
def nameNodes (context : Context) (name : String) : Option (List Node) :=
  match name.toList with
  | '[' :: r =>
    if r.getLast? == some ']' then
      (Node.attach (.plain .descType)
        (TypeExpr.display context (String.ofList r.dropLast))).map fun type =>
          [.punctuation "[", type, .punctuation "]"]
    else some [.leaf .descName name]
  | _ => some [.leaf .descName name]

/-- The nodes before the signature. -/
def opening (context : Context) (t : ObjType) (options : Options) (n : Naming) (s : Subject) :
    Option (List Node) :=
  let words := marks t options s
  let note := if words.isEmpty then []
    else [Node.plain .descNote (words.flatMap fun w => [.keyword w, .space])]
  let (before, name) := n.shown t
  let before := if before.isEmpty then [] else [Node.leaf .descAddName before]
  (nameNodes context name).map fun nodes => note ++ before ++ nodes

/-- Writes type parameters, if there are any. -/
def generics (w : Writer) (items : List TypedName) : Option Writer :=
  if items.isEmpty then some w else w.params items (some ("<", ">")) false

/-- Writes the type of a variable after a colon or an equality sign. -/
def dataType (w : Writer) (type : String) : Option Writer :=
  match type.toList with
  | [] => some w
  | '=' :: r => ((w.space.punctuation "=").space).type (String.ofList r)
  | ':' :: r => ((w.punctuation ":").space).type (String.ofList r)
  | _ => ((w.punctuation ":").space).type type

/-- Writes parameters and results. -/
def call (w : Writer) (c : Signature.Call) : Option Writer := do
  let w ← generics w c.generics
  let w ← w.params c.params (some ("(", ")")) true
  w.returns c.returns

/-- Writes what a signature says. -/
def subject (w : Writer) : Subject → Option Writer
  | .function c => call w c
  | .data type => dataType w type
  | .alias_ a => do
    let w ← generics w a.generics
    if a.type.isEmpty then some w else (((w.space).punctuation "=").space).type a.type
  | .class_ (.constructor c) => call w c
  | .class_ (.bases items bases) => do
    let w ← generics w items
    if bases.isEmpty then some w else ((w.punctuation ":").space).types bases none
  | .table => some w

/-- The heading of an object as it is written; none if a type leaves loose text. -/
def write (limit : Option Int) (context : Context) (t : ObjType) (options : Options) (n : Naming)
    (s : Subject) : Option Writer := do
  let line ← opening context t options n s
  subject ⟨limit, context, [], line⟩ s

/-- The heading of a signature that cannot be read. -/
def unread (sig : String) : Node :=
  .element (.signature ⟨[], none, none, none, none, false, some [], some ""⟩)
    [.leaf .descName sig]

end Heading

end LuaDocs
