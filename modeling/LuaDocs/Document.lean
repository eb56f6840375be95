import LuaDocs.Auto
import LuaDocs.InheritedMembers
import LuaDocs.Manual

/-!
# Documents

A document is a list of items: paragraphs, lists of fields, references and directives, which may
have items as their body. When a document is read its items are rendered one after the other. When
all documents are read, the places of member tables are filled and references are resolved.

Where the comments of the tree are made of items as well, a description renders the items of a
comment, and a directive among them may describe objects with comments of their own.

## Main definitions

* `Item`: what a document is made of.
* `Item.render`: the nodes of an item.
* `Site.reading`: a site whose comments are made of items as well.
* `Document.read`: reads a document.
* `Document.fill`: fills the places of member tables and of lists of inherited members.
* `Document.references`, `Document.resolve`: the references in a document, and what they become.
-/

namespace LuaDocs

open Text

/-- An item of a document. -/
inductive Item where
  | paragraph (text : String)
  /-- A list of fields: names and texts. -/
  | fields (rows : List (String × String))
  | role (name text : String)
  /-- A directive with its argument, its options and its body. -/
  | directive (name : String) (argument : Option String) (options : List (String × Option String))
    (body : List Item)

/-- A directive. -/
inductive Directive where
  /-- Describes an object. -/
  | describe (t : ObjType)
  /-- Starts a module. -/
  | startModule
  /-- Sets the current module. -/
  | setModule
  /-- Describes an object of the tree, which has to be of the given type. -/
  | auto (wanted : Option ObjType)
  /-- Shows a table of members. -/
  | memberTable
  /-- Lists inherited members. -/
  | inheritedMembers
  deriving DecidableEq, Repr

namespace Directive

/-- The types that have directives of their own. -/
def objectTypes : List ObjType :=
  [.function, .data, .const, .class_, .alias_, .enum, .method, .classMethod, .staticMethod,
    .attribute, .table]

/-- The directive with the given name. -/
def ofName? (name : String) : Option Directive :=
  match name with
  | "module" => some .startModule
  | "currentmodule" => some .setModule
  | "autoindex" => some .memberTable
  | "other-inherited-members" => some .inheritedMembers
  | "autoobject" => some (.auto none)
  | "automodule" => some (.auto (some .module_))
  | name =>
    match objectTypes.find? fun t => t.name == name with
    | some t => some (.describe t)
    | none =>
      (objectTypes.find? fun t => "auto" ++ t.name == name).map fun t => .auto (some t)

/-- The options of a directive. -/
def spec : Directive → Table Converter
  | .describe _ => Options.objectSpec
  | .startModule => Options.moduleSpec
  | .auto _ => Options.autoSpec
  | .setModule | .memberTable | .inheritedMembers => []

/-- Reads the options of a directive; the first one that cannot be read stops it. -/
def readOptions (d : Directive) (given : List (String × Option String)) :
    Except Failure Options :=
  given.foldlM (fun o (key, value) =>
    match d.spec.get? key with
    | none => .error (.directive .error ("unknown option: \"" ++ key ++ "\""))
    | some c =>
      match c.read value with
      | .ok v => .ok (o.set key v)
      | .error e =>
        .error (.directive .error ("invalid option value: \"" ++ key ++ "\": " ++ e))) []

/-- Describes an object that is not taken from the tree. -/
def describeObject (t : ObjType) (argument : Option String) (options : Options)
    (body : Render (List Node)) : Render (List Node) := do
  let site ← read
  let argument ← Render.orFail .noArgument argument
  Description.render
    { objtype := t, options := options.withDefaults site.defaults,
      signatures := (Description.signatureLines site argument).map fun sig =>
        (sig, t.family.read argument sig),
      bases := none, body, complete := fun _ nodes => pure nodes }

/-- The place of a table of members: those of the argument, or of the current module. -/
def memberTablePlace (argument : Option String) : Render (List Node) := do
  let c ← Render.context
  let name := argument.getD (c.moduleName.get?.getD "")
  if name.isEmpty then Render.error "module name is required"
  return [.element (.autoIndex (Name.normalize name)) []]

/-- The place of a list of inherited members: those of the argument, or of the current class. -/
def inheritedPlace (argument : Option String) : Render (List Node) := do
  let c ← Render.context
  let name := argument.getD (Index.joinGiven [c.moduleName.get?, c.className.get?])
  if name.isEmpty then Render.error "class name is required"
  return [.element (.inheritedMembers (some (Name.normalize name))) []]

/-- Carries out a directive. -/
def run (d : Directive) (argument : Option String) (options : Options)
    (body : Render (List Node)) : Render (List Node) := do
  match d with
  | .describe t => describeObject t argument options body
  | .startModule =>
    ModuleDirective.start argument (options.withDefaults (← read).defaults)
  | .setModule => ModuleDirective.setCurrent argument
  | .auto wanted => Auto.run wanted argument options body
  | .memberTable => memberTablePlace argument
  | .inheritedMembers => inheritedPlace argument

/-- Shows an error of a directive in its place. -/
def showError (x : Render (List Node)) : Render (List Node) :=
  tryCatch x fun e => match e with
    | .directive severity message =>
      return [.element (.systemMessage severity.level) [.leaf .paragraph message]]
    | e => throw e

end Directive

/-- A field with its text. -/
def fieldNode (name text : String) : Node :=
  .plain .field [.leaf .fieldName name,
    .plain .fieldBody (if text.isEmpty then [] else [.leaf .paragraph text])]

/-- The message on a directive that does not exist. -/
def unknownDirective (name : String) : String := "unknown directive: \"" ++ name ++ "\""

mutual

/-- The nodes of an item. -/
def Item.render : Item → Render (List Node)
  | .paragraph text => pure [.leaf .paragraph text]
  | .fields rows => pure [.plain .fieldList (rows.map fun r => fieldNode r.1 r.2)]
  | .role name text => do
    return [.plain .paragraph [Role.render (← Render.context) .literal name text]]
  | .directive name argument options body =>
    let content := Item.renderAll body
    Directive.showError do
      match Directive.ofName? name with
      | none => Render.error (unknownDirective name)
      | some d => d.run argument (← Render.lift (d.readOptions options)) content

/-- The nodes of items, one after the other. -/
def Item.renderAll : List Item → Render (List Node)
  | [] => pure []
  | item :: rest => do
    let nodes ← item.render
    return nodes ++ (← Item.renderAll rest)

end

namespace Site

/-- The nodes of the text of a comment that is made of items, `depth` comments deep at most. -/
def nestedDocs (site : Site) (markup : Bool → String → List Item) :
    Nat → Bool → String → Render.State → Except Failure (List Node) × Render.State
  | 0, _, _, s => (.error .depth, s)
  | depth + 1, titles, text, s =>
    (Item.renderAll (markup titles text)).runOn
      { site with docs := nestedDocs site markup depth } s

/-- The site with comments that are made of items: `markup` reads them. -/
def reading (site : Site) (markup : Bool → String → List Item) (depth : Nat) : Site :=
  { site with docs := site.nestedDocs markup depth }

end Site

namespace Document

/-- What reading a document gives: the nodes of its items as far as it was read, the state at the
end, and the failure that stopped it. -/
structure Outcome where
  nodes : List (List Node)
  state : Render.State
  /-- Why the rest was not read. -/
  failure : Option Failure

/-- Reads items until one fails. -/
def readFrom (site : Site) (s : Render.State) : List Item → Outcome
  | [] => ⟨[], s, none⟩
  | item :: rest =>
    match item.render.runOn site s with
    | (.error e, s) => ⟨[], s, some e⟩
    | (.ok nodes, s) =>
      let o := readFrom site s rest
      { o with nodes := nodes :: o.nodes }

/-- Reads a document. -/
def read (site : Site) (index : Index) (name : String) (items : List Item) : Outcome :=
  readFrom site ⟨index, .new name, []⟩ items

/-! ### Filling places -/

/-- Replaces nodes by others until one cannot be replaced. -/
abbrev Filling := StateT (Option Reference.Error) Id

/-- The classes of the container of a table of members. -/
def tableClasses : List String := ["lua-index"]

/-- The classes of the container of a list of inherited members. -/
def inheritedClasses : List String := ["lua-inherited-members"]

/-- Fills the places of a tree that `content?` gives nodes for, in document order, each in a
container with the given classes. After an error nothing more is filled. -/
def fillWith (content? : Element → Option (Except Reference.Error (List Node)))
    (classes : List String) (node : Node) : Filling Node := do
  match node with
  | .element kind children =>
    match ← get, content? kind with
    | none, some (.ok nodes) => return .element (.container classes) nodes
    | none, some (.error e) => do
      set (some e)
      return .element kind children
    | _, _ =>
      return .element kind (← children.attach.mapM fun ⟨n, _⟩ => fillWith content? classes n)
  | n => return n

/-- The nodes of a table of members. -/
def tableContent (site : Site) (index : Index) (document : String) :
    Element → Option (Except Reference.Error (List Node))
  | .autoIndex target => some (MemberTable.render index site.parens document target)
  | _ => none

/-- The nodes of a list of inherited members. -/
def inheritedContent (site : Site) (index : Index) (document : String) :
    Element → Option (Except Reference.Error (List Node))
  | .inheritedMembers target => some (InheritedMembers.render index site.parens document target)
  | _ => none

/-- Fills the places of tables of members and then those of lists of inherited members. -/
def fill (site : Site) (index : Index) (document : String) (nodes : List Node) :
    List Node × Option Reference.Error :=
  ((do
    let nodes ← nodes.mapM (fillWith (tableContent site index document) tableClasses)
    nodes.mapM (fillWith (inheritedContent site index document) inheritedClasses)
    : Filling (List Node)).run none).run

/-- The containers of tables of members and of inherited members, in document order. -/
def filled : Node → List Node
  | .element kind children =>
    let own := match kind with
      | .container classes =>
        if classes.any fun c => (tableClasses ++ inheritedClasses).contains c then
          [Node.element kind children] else []
      | _ => []
    own ++ children.attach.flatMap fun ⟨n, _⟩ => filled n
  | _ => []

/-! ### References -/

/-- The references in a node with the nodes that show them, in document order. -/
def references : Node → List (PendingRef × Node)
  | .element kind children =>
    let own := match kind with
      | .pending ref => match children with
        | shown :: _ => [(ref, shown)]
        | [] => []
      | _ => []
    own ++ children.attach.flatMap fun ⟨n, _⟩ => references n
  | _ => []

/-- What a reference in a document becomes, and the warning to be given: a reference to a described
object, or else to the manual of the language. -/
def resolve (site : Site) (index : Index) (document : String) (ref : PendingRef) (shown : Node) :
    Except Reference.Error (Option Node × Option String) := do
  let scope : Index.Scope := ⟨ref.moduleName, ref.className, ref.usedModules⟩
  let (node, warning) ←
    Reference.resolve index site.parens document ref.role ref.target scope ref.explicit shown
  return (node.or (Manual.resolve site.luaVersion ref.domain ref.role ref.target shown), warning)

end Document

end LuaDocs
