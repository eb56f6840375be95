import LuaDocs.Anchor
import LuaDocs.Heading
import LuaDocs.Members

/-!
# Rendering

Documents are rendered for a site. While a document is rendered, objects are entered into the index
tables, the reference context changes, anchors are given out and warnings are issued.

A rendering can fail. What it has done until then stays done: the tables, the context and the
anchors are not taken back. That is why failures stand inside the state and not around it.

Comments are written in the markup of documents. How their text is read is a part of the site, about
which nothing is assumed here.

## Main definitions

* `Site`: what does not change while documents are rendered.
* `Page`, `Render.State`: what does.
* `Failure`: why rendering stops.
* `Render`: renderings; `Render.warn`, `Render.pushContext`, `Render.popContext`, `Render.enter`.

## Main statements

* `Render.run_bind`: what a failure leaves behind.
-/

namespace LuaDocs

open Text

/-- The document that is being rendered. -/
structure Page where
  name : String
  context : Context
  /-- The anchors that are in use. -/
  anchors : List String
  /-- The names of titles and anchors. -/
  titles : List String
  /-- The number of the next numbered anchor of an object. -/
  serial : Nat
  /-- The number of the next numbered anchor of a title. -/
  titleSerial : Nat
  /-- The files on which the document depends, without repetition. -/
  dependencies : List String

/-- A document of which nothing is rendered yet. -/
def Page.new (name : String) : Page := ⟨name, .empty, [], [], 0, 1, []⟩

/-- How bad an error in a document is. -/
inductive Severity where
  | error | severe
  deriving DecidableEq, Repr

/-- The number of a severity. -/
def Severity.level : Severity → Nat
  | .error => 3
  | .severe => 4

/-- Why rendering stops. -/
inductive Failure where
  /-- A directive cannot be carried out; this is shown in its place. -/
  | directive (severity : Severity) (message : String)
  /-- A directive has no argument. -/
  | noArgument
  /-- The argument of a directive does not start with a name. -/
  | signature (e : Signature.Error)
  /-- A type leaves loose text. -/
  | looseText
  /-- A field has no name. -/
  | namelessField
  /-- Modules are added to those in use, but all modules are in use. -/
  | addToAll
  /-- A module is to be required, but the context does not know of a module. -/
  | noModule
  /-- A module is to be required, but the context knows that there is none. -/
  | clearedModule
  /-- Members cannot be listed. -/
  | members (e : Members.Error)
  /-- Objects are nested too deep. -/
  | depth
  deriving DecidableEq, Repr

namespace Render

/-- What changes while documents are rendered. -/
structure State where
  index : Index
  page : Page
  warnings : List String

end Render

/-- What does not change while documents are rendered. -/
structure Site where
  sources : String
  defaults : Options
  /-- The greatest length of a list in a signature that is kept on one line. -/
  lineLimit : Option Int
  luaVersion : Option String
  /-- There is an analyzer. -/
  analyzed : Bool
  /-- Names of functions are shown with parentheses. -/
  parens : Bool
  /-- Objects stand in tables of contents. -/
  tocEntries : Bool
  /-- How much of a name is shown in tables of contents. -/
  tocParents : TocParents
  /-- Backslashes in signatures protect the character after them and are not shown. -/
  dropBackslashes : Bool
  tree : Object
  /-- Files and the meanings of aliases are not known exactly, and are not used. -/
  vagueAliases : Bool
  /-- How deep descriptions can be nested. -/
  depth : Nat
  /-- What becomes of the text of a comment, which may have titles or not. It is markup: it may hold
  directives, and these may do all that is done while documents are rendered. -/
  docs : Bool → String → Render.State → Except Failure (List Node) × Render.State

/-- The file of a document. -/
def Site.documentFile (site : Site) (document : String) : String :=
  site.sources ++ "/" ++ document ++ ".rst"

/-- A rendering. -/
abbrev Render (α : Type) := ReaderT Site (ExceptT Failure (StateM Render.State)) α

namespace Render

/-- The outcome of a rendering, and the state that it leaves. -/
def runOn {α : Type} (x : Render α) (site : Site) (s : State) : Except Failure α × State :=
  (x.run site).run.run s

/-- After a failure nothing more is done, and what was done stays done. -/
theorem run_bind {α β : Type} (x : Render α) (f : α → Render β) (site : Site) (s : State) :
    runOn (x >>= f) site s =
      match runOn x site s with
      | (.ok a, t) => runOn (f a) site t
      | (.error e, t) => (.error e, t) := by
  simp only [runOn, ReaderT.run_bind, ExceptT.run_bind, StateT.run_bind]
  cases h : ((x.run site).run.run s) with
  | mk r t => cases r <;> rfl

/-- Stops because a directive cannot be carried out. -/
def error {α : Type} (message : String) : Render α := throw (.directive .error message)

/-- Stops because a directive stands where it must not. -/
def severe {α : Type} (message : String) : Render α := throw (.directive .severe message)

/-- The value, or the failure that there is none. -/
def orFail {α : Type} (f : Failure) : Option α → Render α
  | some a => pure a
  | none => throw f

/-- The value of a computation, or its failure. -/
def lift {α : Type} : Except Failure α → Render α
  | .ok a => pure a
  | .error e => throw e

/-- The nodes of the text of a comment. -/
def docs (titles : Bool) (text : String) : Render (List Node) := fun site =>
  ExceptT.mk fun s => site.docs titles text s

/-- The reference context. -/
def context : Render Context := do return (← get).page.context

/-- Changes the document. -/
def modifyPage (f : Page → Page) : Render Unit := modify fun s => { s with page := f s.page }

/-- Sets the reference context. -/
def setContext (c : Context) : Render Unit := modifyPage fun p => { p with context := c }

/-- Saves the reference context and sets a new one. -/
def pushContext (moduleName className : Option String) (used : Option Selection) : Render Unit := do
  setContext ((← context).push moduleName className used)

/-- Restores the reference context saved last. -/
def popContext : Render Unit := do setContext (← context).pop

/-- Restores the reference context when a rendering ends, also if it fails. -/
def thenPop {α : Type} (x : Render α) : Render α := do
  let a ← tryCatch x fun e => do
    popContext
    throw e
  popContext
  return a

/-- Issues a warning. -/
def warn (message : String) : Render Unit :=
  modify fun s => { s with warnings := s.warnings ++ [message] }

/-- Notes files on which the document depends. -/
def dependOn (files : List Path) : Render Unit :=
  modifyPage fun p => { p with
    dependencies := files.foldl (fun ds f =>
      if ds.contains f.toString then ds else ds ++ [f.toString]) p.dependencies }

/-- The warning on an object that the document in the given file describes as well. -/
def duplicateWarning (fullname file : String) : String :=
  "duplicate object description of " ++ fullname ++ ", other instance in " ++ file ++
    ", use :no-index: for one of them"

/-- Gives an object an anchor. -/
def newAnchor (fullname : String) : Render String := do
  let page := (← get).page
  let (id, serial) := Anchor.fresh page.anchors page.serial fullname
  modifyPage fun p => { p with anchors := p.anchors ++ [id], serial }
  return id

/-- Enters an object into the index tables under a new anchor. -/
def enter (fullname : String) (t : ObjType) (options : Options)
    (bases : Option (List String × Index.Scope)) (listing : Index.Listing) : Render String := do
  let id ← newAnchor fullname
  let s ← get
  match s.index.objects.get? fullname with
  | some row =>
    if row.document != s.page.name then
      warn (duplicateWarning fullname ((← read).documentFile row.document))
  | none => pure ()
  let row : Index.ObjectRow :=
    ⟨s.page.name, t, options.has "deprecated", id, options.text? "synopsis"⟩
  modify fun s => { s with index := s.index.register ⟨fullname, row, bases, listing⟩ }
  return id

/-- A title as a name. -/
def titleName (title : String) : String :=
  String.ofList ([' '].intercalate (words (lower title).toList))

/-- The first anchor `id1`, `id2`, … that is not in use, from the number `n` on, and the number
after it. -/
def firstTitleAnchor (used : List String) : Nat → Nat → String × Nat
  | 0, n => ("id" ++ toString n, n + 1)
  | fuel + 1, n =>
    if used.contains ("id" ++ toString n) then firstTitleAnchor used fuel (n + 1)
    else ("id" ++ toString n, n + 1)

/-- Starts a part of the document under a title: the element, the node of the title, and a message
if the document has another part of that name. -/
def newSection (title : String) : Render (Element × Node × List Node) := do
  let page := (← get).page
  let name := titleName title
  let own := Anchor.ofTitle name
  let (id, titleSerial) :=
    if own.isEmpty || page.anchors.contains own then
      firstTitleAnchor page.anchors page.anchors.length page.titleSerial
    else (own, page.titleSerial)
  let message := if page.titles.contains name then
      [Node.element (.systemMessage 1)
        [.leaf .paragraph ("Duplicate implicit target name: \"" ++ name ++ "\".")]]
    else []
  modifyPage fun p => { p with
    anchors := p.anchors ++ [id], titles := p.titles ++ [name], titleSerial }
  return (.titledSection name [id], .leaf .title title, message)

end Render

end LuaDocs
