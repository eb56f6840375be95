import LuaDocs.Field.Transform
import LuaDocs.Render
import LuaDocs.Text.Quoted

/-!
# Descriptions

A description has a heading for each signature and a body. It enters the object that it describes
into the index tables, unless told not to, and gives it an anchor. The body of a description that
nests is rendered in the context of the object.

## What is assumed

`Description.signatureLines` and `Description.render` stand for functions of Sphinx, to which a
directive only supplies parts. They are assumed to work as follows. Lines of an argument that end in
a backslash are joined, and each line is a signature. The signatures are handled in order; one that
cannot be read is shown as it is written, and an object is entered where its name comes up first.
Then the context of the body is opened, the body is read and completed, its fields are gathered, and
the context is closed. If one of these steps fails, the context is not closed.

## Main definitions

* `Description`: what is described.
* `Description.headings`: its headings.
* `Description.render`: the nodes of the description.
-/

namespace LuaDocs

open Text

namespace Options

/-- Options that have an older spelling. -/
def olderNames : List (String × String) :=
  [("no-index", "noindex"), ("no-index-entry", "noindexentry"),
    ("no-contents-entry", "nocontentsentry")]

/-- The options with those that are given in their older spelling only under their name. -/
def withCurrentNames (o : Options) : Options :=
  olderNames.foldl (fun o names =>
    match o.get? names.1, o.get? names.2 with
    | none, some v => o.set names.1 v
    | _, _ => o) o

/-- The modules in use: those of the option, or else those of the context. -/
def usedModules (o : Options) (context : Context) : Option Selection :=
  match o.get? "using" with
  | some v => v.selection?
  | none => context.usedModules.get?

end Options

/-- What is described. -/
structure Description where
  objtype : ObjType
  options : Options
  /-- The signatures, each with the name and the subject that is read in it. -/
  signatures : List (String × Except Signature.Error (String × Subject))
  /-- The bases of a class, if they are not to be read from its signatures. -/
  bases : Option (List String)
  body : Render (List Node)
  /-- Completes the body, where the full name of the object is given, if there is one. -/
  complete : Option String → List Node → Render (List Node)

namespace Description

/-- Removes every backslash at the end of a line with the line end. -/
def joinLines : List Char → List Char
  | '\\' :: '\n' :: r => joinLines r
  | c :: r => c :: joinLines r
  | [] => []

/-- Removes every backslash before another character. -/
def dropBackslashes : List Char → List Char
  | '\\' :: c :: r => c :: dropBackslashes r
  | c :: r => c :: dropBackslashes r
  | [] => []

/-- The signatures in the argument of a directive: one on each line. -/
def signatureLines (site : Site) (argument : String) : List String :=
  (lines (joinLines argument.toList)).map fun l =>
    String.ofList (if site.dropBackslashes then dropBackslashes (trim l) else trim l)

/-- The headings of a description so far. -/
structure Headings where
  nodes : List Node
  /-- The objects that are described, without repetition. -/
  names : List Naming
  bases : Option (List String)
  /-- The entries of the general index: text and anchor. -/
  entries : List (String × String)

/-- Where an object is listed. A global that is described inside a module is listed among the
globals of the module. -/
def listing (options : Options) (context : Context) (fullname : String) : Index.Listing :=
  if options.get? "module" == some (.text "") && (Index.components fullname).length == 1 then
    match Context.nonEmpty context.moduleName.get?, Context.nonEmpty context.className.get? with
    | some m, none => .globalOf m
    | _, _ => .nowhere
  else .member

/-- The attributes of a heading. -/
def headingInfo (site : Site) (t : ObjType) (n : Naming) (ids : List String) (multiline : Bool) :
    SignatureInfo where
  ids
  moduleName := some n.moduleName
  className := some n.className
  fullname := some n.fullname
  shownName := some ((n.shown t).1 ++ (n.shown t).2)
  multiline
  tocParts := some (if site.tocEntries then n.tocParts else [])
  tocName := some (if site.tocEntries then n.tocName site.tocParents site.parens t else "")

/-- Enters an object that is described and gives its anchor. -/
def enterObject (d : Description) (bases : Option (List String)) (n : Naming) : Render String := do
  let context ← Render.context
  let scope : Index.Scope := ⟨n.moduleName, n.className, d.options.usedModules context⟩
  let id ← Render.enter n.fullname d.objtype d.options (bases.map fun bs => (bs, scope))
    (listing d.options context n.fullname)
  Render.modifyPage fun p => { p with titles := p.titles ++ [id] }
  return id

/-- Adds the heading of a signature. -/
def addHeading (d : Description) (h : Headings)
    (sig : String × Except Signature.Error (String × Subject)) : Render Headings := do
  match sig.2 with
  | .error e =>
    Render.warn ("incorrect " ++ d.objtype.name ++ " signature " ++ quoted sig.1 ++ ": " ++
      e.message)
    return { h with nodes := h.nodes ++ [Heading.unread sig.1] }
  | .ok (name, subject) =>
    let site ← read
    let context ← Render.context
    let n := Naming.ofName d.options context name
    let w ← Render.orFail .looseText
      (Heading.write site.lineLimit context d.objtype d.options n subject)
    let bases := match h.bases with
      | some bs => some bs
      | none => if subject.bases.isEmpty then none else some (subject.bases.map Name.normalize)
    let node (ids : List String) : Node :=
      .element (.signature (headingInfo site d.objtype n ids w.isMultiline)) w.nodes
    if h.names.contains n then return { h with nodes := h.nodes ++ [node []], bases }
    else if d.options.has "no-index" then
      return { h with nodes := h.nodes ++ [node []], names := h.names ++ [n], bases }
    else
      let id ← d.enterObject bases n
      let entry :=
        if d.options.has "no-index-entry" then [] else [(n.indexText d.objtype, id)]
      return ⟨h.nodes ++ [node [id]], h.names ++ [n], bases, h.entries ++ entry⟩

/-- The headings of a description. -/
def headings (d : Description) : Render Headings :=
  d.signatures.foldlM d.addHeading ⟨[], [], d.bases, []⟩

/-- The name that two names make, the first of which may be missing. -/
def below (outer : Option String) (name : String) : String :=
  match Context.nonEmpty outer with
  | some s => s ++ "." ++ name
  | none => name

/-- The module and class of what is described in the body of an object. -/
def inside (t : ObjType) (n : Naming) : Option String × Option String :=
  if t == .module_ && (n.className.getD "").isEmpty then
    (some (below n.moduleName n.name), n.className)
  else (n.moduleName, some (below n.className n.name))

/-- Enters the context of the object, if its body nests. -/
def openBody (d : Description) (names : List Naming) : Render Bool := do
  match names.getLast? with
  | some n =>
    if d.objtype.family.nests then
      let (m, k) := inside d.objtype n
      Render.pushContext m k (d.options.usedModules (← Render.context))
      return true
    else return false
  | none => return false

/-- The failure that an error in the fields of a body is. -/
def fieldFailure : Field.Error → Failure
  | .loose => .looseText
  | .nameless => .namelessField

/-- Gathers the fields of a body. -/
def gatherFields (nodes : List Node) : Render (List Node) := do
  Render.lift ((Field.transformAll (← Render.context) nodes).mapError fieldFailure)

/-- The node of a description with its headings and its body. -/
def node (d : Description) (h : Headings) (body : List Node) : Node :=
  .element (.desc ⟨d.objtype.name, d.options.has "no-index", d.options.has "no-index-entry",
    d.options.has "no-contents-entry"⟩) (h.nodes ++ [.plain .descContent body])

/-- What is left of a description that is not to be shown: its anchors. -/
def unshown (node : Node) : List Node :=
  if node.anchors.isEmpty then [] else [.element (.target node.anchors false) []]

/-- The nodes of a description. -/
def render (given : Description) : Render (List Node) := do
  let d := { given with options := given.options.withCurrentNames }
  let h ← d.headings
  let opened ← d.openBody h.names
  let body ← d.body
  let body ← d.complete (h.names.getLast?.map Naming.fullname) body
  let body ← gatherFields body
  if opened then Render.popContext
  let node := d.node h body
  let index : Node := .element (.index h.entries) []
  if d.options.has "no-typesetting" then return index :: unshown node
  else return [index, node]

end Description

end LuaDocs
