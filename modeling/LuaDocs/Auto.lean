import LuaDocs.Auto.Documentation
import LuaDocs.Auto.Settings
import LuaDocs.Auto.Signatures
import LuaDocs.Description
import LuaDocs.ModuleDirective

/-!
# Descriptions of analyzed objects

A directive can describe an object of the tree, and its members with it. The directive names the
object; the description is made from what the analyzer reported.

Rendering goes down the tree, but the globals of a module are described with the module wherever it
stands, so that a description can lead back to where it started. The site says how deep descriptions
can be nested.

## Main definitions

* `Auto.Request`: an object that is to be described.
* `Auto.describe`, `Auto.render`: its description.
* `Auto.Target`, `Auto.resolve`: the object that a directive names.
* `Auto.run`: carries out a directive.
-/

namespace LuaDocs.Auto

open Text

/-- An object that is to be described. -/
structure Request where
  /-- The object, its name and its path. -/
  member : Member
  /-- A directive names the object. -/
  direct : Bool
  /-- The type that the directive asks for. -/
  wanted : Option ObjType
  /-- Signatures that the directive gives. -/
  signatures : Option (List String)
  body : Render (List Node)

/-- Describes a member of an object that is being described. -/
def Request.ofMember (m : Member) : Request := ⟨m, false, none, none, pure []⟩

/-- Renders the members of an object. -/
abbrev MemberRenderer := Frame → Member → Render (List Node)

/-- The path of the class in the context. -/
def enclosingPath (context : Context) : Option (List String) :=
  (Context.nonEmpty context.className.get?).map fun k =>
    splitString '.' (Index.joinGiven [context.moduleName.get?, some k])

/-- The members of an object that are described in the context. -/
def listMembers (site : Site) (context : Context) (m : Member) (options : Options) :
    Except Failure (List Member) :=
  (Members.list site.tree site.vagueAliases m.path m.object (enclosingPath context) options
    true).mapError .members

/-- The members of an object that are described. -/
def membersOf (m : Member) (options : Options) : Render (List Member) := do
  Render.lift (listMembers (← read) (← Render.context) m options)

/-- The kind of the class in the context, in which an object is described. -/
def enclosingKind (site : Site) (context : Context) : Option Kind :=
  match Context.nonEmpty context.className.get? with
  | some k =>
    (site.tree.find? (Index.joinGiven [context.moduleName.get?, some k])).bind Object.kind?
  | none => none

/-- The nodes of the members of an object, one after the other. -/
def renderMembers (child : MemberRenderer) (frame : Frame) (m : Member) (options : Options) :
    Render (List Node) := do
  let members ← membersOf m options
  return (← members.mapM (child frame)).flatten

/-! ### Kinds of objects -/

/-- The signatures that a directive gives, or else those that are made. -/
def chosenSignatures (r : Request) (t : ObjType) (made : List MadeSignature) :
    List MadeSignature :=
  match r.signatures with
  | some sigs => sigs.map fun sig => (sig, t.family.read r.member.name sig)
  | none => made

/-- What is described of a variable, a table, an alias or an enumeration. -/
def plainDescription (site : Site) (child : MemberRenderer) (r : Request) (t : ObjType)
    (options : Options) : Description :=
  let m := r.member
  let all := options.withDefaults site.defaults
  let made := match t.family with
    | .table => tableSignatures m.name
    | .alias_ => aliasSignatures site.vagueAliases m.name m.object.form
    | _ => dataSignatures m.name m.object.form
  { objtype := t, options := all, signatures := chosenSignatures r t made, bases := none,
    body := r.body,
    complete := fun fullname body => do
      let docs ← documentation m.object t all fullname
      let members ←
        if t.family.nests then renderMembers child ⟨m.name, options⟩ m all else pure []
      return body ++ docs ++ members }

/-- What is described of a function. -/
def functionDescription (site : Site) (r : Request) (c : Callable) (t : ObjType)
    (options : Options) : Description :=
  let m := r.member
  let all := options.withDefaults site.defaults
  { objtype := t, options := all,
    signatures := chosenSignatures r t (functionSignatures m.name c), bases := none,
    body := r.body,
    complete := fun fullname body => do
      let docs ← documentation m.object t all fullname
      withParameters site.tree c (body ++ docs) }

/-- The bodies of descriptions among nodes. -/
def descriptionBodies (nodes : List Node) : List Node :=
  nodes.flatMap fun n => match n with
    | .element (.desc _) children => (children.getLast?.map Node.children).getD []
    | _ => []

/-- The constructor of the class at the path `path` as a member of it. -/
def constructorMember (path : List String) (info : Object.ClassInfo) (maker : Object.Constructor) :
    Member :=
  let name := (given info.constructorName).getD "__call"
  ⟨name, path ++ [name], maker.toObject⟩

/-- What the constructor of a class adds to the body of the class: a description of its own, or its
documentation. -/
def constructorNodes (child : MemberRenderer) (frame : Frame) (path : List String)
    (info : Object.ClassInfo) (docFrom : String) : Render (List Node) := do
  match info.maker with
  | none => return []
  | some maker =>
    let m := constructorMember path info maker
    if docFrom == "separate" then child frame m
    else if docFrom == "class" || docFrom == "none" then return []
    else
      let options ← Render.lift (memberOptions frame false m.object)
      Render.dependOn m.object.details.files
      let options := options.set "no-index" .flag
      return descriptionBodies
        (← (functionDescription (← read) (.ofMember m) maker.call .function options).render)

/-- The options of the description of a class: it is asynchronous if its constructor is. -/
def classOptions (site : Site) (r : Request) (info : Object.ClassInfo) (options : Options) :
    Options :=
  let all := options.withDefaults site.defaults
  let waits := r.signatures.isNone &&
    (maker? site.tree r.member.path info).any fun c => c.details.async
  if waits then all.set "async" .flag else all

/-- Where the documentation of a class is taken from. -/
def docSource (all : Options) : String := (all.text? "class-doc-from").getD "both"

/-- What is described of a class. -/
def classDescription (site : Site) (child : MemberRenderer) (r : Request)
    (info : Object.ClassInfo) (t : ObjType) (options : Options) : Description :=
  let m := r.member
  let all := classOptions site r info options
  let docFrom := docSource all
  let frame : Frame := ⟨m.name, options⟩
  { objtype := t, options := all,
    signatures := chosenSignatures r t
      (classSignatures all m.name info (maker? site.tree m.path info)),
    bases := if r.signatures.isNone then some info.bases else none,
    body := r.body,
    complete := fun fullname body => do
      let docs ←
        if docFrom == "ctor" || docFrom == "none" then pure []
        else documentation m.object t all fullname
      let making ← constructorNodes child frame m.path info docFrom
      let members ← renderMembers child frame m all
      let table : List Node :=
        if all.has "inherited-members-table" then [.element (.inheritedMembers fullname) []]
        else []
      return body ++ docs ++ making ++ members ++ table }

/-! ### Modules -/

/-- The part of a document that lists the members of a module in a table. -/
def indexSection (name : String) (options : Options) : Render (List Node) := do
  if !options.has "index-table" && !options.has "index-title" then return []
  let name? := given (options.text? "index-title")
  let (element, title, message) ← Render.newSection (name?.getD "Index")
  return [.element element (title :: message ++ [.element (.autoIndex name) []])]

/-- The title of the part of a document in which a member is described when members are grouped. -/
def groupTitle (m : Member) : String :=
  if m.object.details.toplevel then "Global"
  else titleCase (((ObjType.ofName (m.object.kind?.getD .data).name).label?).getD "")

/-- A part of a document that is being filled. -/
structure OpenGroup where
  title : String
  element : Element
  nodes : List Node

/-- The node of a part of a document. -/
def OpenGroup.node (g : OpenGroup) : Node := .element g.element g.nodes

/-- Describes members in groups of their kinds; a group is closed when a member of another group
follows. -/
def renderGroups (child : MemberRenderer) (frame : Frame) (current : Option OpenGroup) :
    List Member → Render (List Node)
  | [] => return (current.map OpenGroup.node).toList
  | m :: rest => do
    let title := groupTitle m
    let (closed, group) ← match current with
      | some g =>
        if g.title == title then pure ([], g)
        else do
          let (element, titleNode, message) ← Render.newSection title
          pure ([g.node], OpenGroup.mk title element (titleNode :: message))
      | none => do
        let (element, titleNode, message) ← Render.newSection title
        pure ([], OpenGroup.mk title element (titleNode :: message))
    let nodes ← child frame m
    let more ← renderGroups child frame (some { group with nodes := group.nodes ++ nodes }) rest
    return closed ++ more

/-- The members of a module: in groups, under a title, or plainly. -/
def moduleMembers (child : MemberRenderer) (frame : Frame) (m : Member) (options : Options) :
    Render (List Node) := do
  let order (key : String) : Option String := given (options.text? key)
  let members ← membersOf m options
  if (order "module-member-order").getD ((order "member-order").getD "bysource") == "groupwise" then
    renderGroups child frame none members
  else
    let nodes := (← members.mapM (child frame)).flatten
    if nodes.isEmpty then return []
    else if options.has "index-table" || options.has "title" then
      let (element, title, message) ←
        Render.newSection ((given (options.text? "title")).getD "Api reference")
      return [.element element (title :: nodes ++ message)]
    else return nodes

/-- The page of a module. -/
def describeModule (child : MemberRenderer) (r : Request) (name : String) (options : Options) :
    Render (List Node) := do
  if r.signatures.isSome then Render.error "modules can't have signature overrides"
  let site ← read
  let m := r.member
  Render.dependOn m.object.details.files
  let all := options.withDefaults site.defaults
  let heading ← ModuleDirective.start (some name) all
  let body ← r.body
  let docs ← documentation m.object .module_ all (some name)
  let index ← indexSection name all
  let members ← moduleMembers child ⟨name, options⟩ m all
  return heading ++ body ++ docs ++ index ++ members

/-! ### Any object -/

/-- The kind of objects that a directive for the given type describes. -/
def kindOf : ObjType → Kind
  | .function | .method | .classMethod | .staticMethod => .function
  | .class_ => .class_
  | .alias_ => .alias_
  | .enum => .enum
  | .table => .table
  | .module_ => .module_
  | .data | .const | .attribute | .other _ => .data

/-- The message on a directive for another type than that of the object. -/
def wrongDirective (wanted : ObjType) (o : Object) (kind : Kind) (fullname : String) : String :=
  let what := (given o.reading.doctype).getD kind.name
  "lua:auto" ++ wanted.name ++ " can't be used on " ++ what ++ " " ++ fullname ++ ". please, " ++
    (if (o.form.kind? (some wanted.name)).isSome then
      "either set !doctype " ++ wanted.name ++ " for " ++ fullname ++ ", or " else "") ++
    "use lua:auto" ++ what ++ " instead"

/-- The kind of an object, if it can be described as the request asks. -/
def checkedKind (r : Request) : Render Kind := do
  let o := r.member.object
  let fullname := Index.joinGiven [(← Render.context).moduleName.get?, some r.member.name]
  match o.kind? with
  | none =>
    Render.error (o.form.name ++ " " ++ fullname ++ " can't have !doctype " ++
      o.reading.doctype.getD "")
  | some kind =>
    match r.wanted with
    | none => return kind
    | some wanted =>
      let other := (given o.reading.doctype).any fun t => t != wanted.name
      if kindOf wanted != kind || other then
        Render.error (wrongDirective wanted o kind fullname)
      else return kind

/-- The type of a function whose documentation does not tell: functions of a class are methods if
their first parameter is the object. -/
def functionType (site : Site) (context : Context) (c : Callable) : ObjType :=
  if enclosingKind site context == some .class_ then
    if (c.params.head?.bind Param.name) == some "self" then .method else .staticMethod
  else .function

/-- The type that the request or the documentation of the object asks for. -/
def askedType? (r : Request) : Option ObjType :=
  match r.wanted with
  | some t => some t
  | none => (given r.member.object.reading.doctype).map ObjType.ofName

/-- The type as which an object of the given kind is described, functions apart. -/
def typeOf (r : Request) (kind : Kind) : ObjType :=
  match kind with
  | .module_ => .module_
  | kind => (askedType? r).getD (ObjType.ofName kind.name)

/-- What is described of an object of the given kind, a page apart. -/
def describe (site : Site) (context : Context) (child : MemberRenderer) (r : Request) (kind : Kind)
    (options : Options) : Description :=
  match r.member.object.form, kind with
  | .function c, _ =>
    functionDescription site r c ((askedType? r).getD (functionType site context c)) options
  | .class_ info, .class_ => classDescription site child r info (typeOf r kind) options
  | _, _ => plainDescription site child r (typeOf r kind) options

/-- One level of the description of an object, where `child` describes its members. -/
def renderLevel (child : MemberRenderer) (frame : Frame) (r : Request) : Render (List Node) := do
  let kind ← checkedKind r
  let o := r.member.object
  let context ← Render.context
  let options ← Render.lift (memberOptions frame r.direct o)
  if kind == .module_ && r.direct then
    let name := Index.joinGiven [context.moduleName.get?, some r.member.name]
    describeModule child r name options
  else
    Render.dependOn o.details.files
    (describe (← read) context child r kind options).render

/-- The description of an object, nested no deeper than `depth`. -/
def render (depth : Nat) (frame : Frame) (r : Request) : Render (List Node) :=
  match depth with
  | 0 => throw .depth
  | depth + 1 => renderLevel (fun frame m => render depth frame (.ofMember m)) frame r

/-! ### Directives -/

/-- The message that there is no analyzer. -/
def disabled : String := "autoobject requested but the Lua language server is disabled"

/-- The name that all signatures of a directive give, and what stands after it in each. -/
def readNames (name : Option String) :
    List String → Except Failure (Option String × List String)
  | [] => .ok (name, [])
  | sig :: rest =>
    match Signature.readName sig with
    | .error e => .error (.signature e)
    | .ok (own, after) =>
      match name.filter fun n => n != own with
      | some n =>
        .error (.directive .error (
          "got multiple different names for a single autodoc directive: " ++
            quoted n ++ " and " ++ quoted own))
      | none => (readNames (some own) rest).map fun r => (r.1, after :: r.2)

/-- The paths under which an object is looked for, the nearest first. -/
def candidates (options : Options) (context : Context) (name : String) : List String :=
  let (m, k) := match options.get? "module" with
    | some v => (v.text?, none)
    | none => (context.moduleName.get?, context.className.get?)
  [Index.joinGiven [m, k, some name], Index.joinGiven [m, some name], name]

/-- The line of a message about a path that leads nowhere. -/
def attempt (tree : Object) (path : String) : String :=
  let l := tree.locate path
  let parent := Index.joinGiven [some l.moduleName, some l.className]
  "  Trying as " ++ path ++ ": " ++ (if parent.isEmpty then "<global namespace>" else parent) ++
    " has no item " ++ quoted l.name ++ "\n"

/-- The message on an object that is not found. -/
def unknownObject (tree : Object) (name : String) (paths : List String) : String :=
  "unknown lua object " ++ name ++ ":\n" ++ String.join (paths.map (attempt tree)) ++
    "Hint: set `lua_ls_verbose = True` in conf.py to see all objects exported by lua analyzer.\n" ++
    "Hint: see troubleshooting guide at " ++
    "https://sphinx-lua-ls.readthedocs.io/en/latest/troubleshooring.html"

/-- The object that a directive names. -/
structure Target where
  location : Object.Location
  /-- The object with its name and path. -/
  member : Member

/-- The object at the first of the paths that leads to one. -/
def find? (tree : Object) (paths : List String) : Option Target :=
  paths.findSome? fun path =>
    let l := tree.locate path
    l.object.map fun o => ⟨l, ⟨l.name, splitString '.' path, o⟩⟩

/-- The object that a directive names, and the signatures that it gives. -/
def resolve (site : Site) (context : Context) (options : Options) (argument : String) :
    Except Failure (Target × Option (List String)) := do
  match ← readNames none (Description.signatureLines site argument) with
  | (none, _) => .error .noArgument
  | (some name, afters) =>
    let paths := candidates (options.withDefaults site.defaults) context name
    match find? site.tree paths with
    | none => .error (.directive .error (unknownObject site.tree name paths))
    | some target =>
      .ok (target, if afters.all String.isEmpty then none
        else some (afters.map fun after => target.member.name ++ after))

/-- The module and the class in which the object is described: a global stays in the module in
which its directive stands. -/
def Target.home (target : Target) (context : Context) : Option String × Option String :=
  if target.member.object.details.toplevel then (context.moduleName.get?, none)
  else (some target.location.moduleName, some target.location.className)

/-- Carries out a directive that describes an object of the tree. -/
def run (wanted : Option ObjType) (argument : Option String) (options : Options)
    (body : Render (List Node)) : Render (List Node) := do
  let site ← read
  if !site.analyzed then Render.error disabled
  let argument ← Render.orFail .noArgument argument
  let context ← Render.context
  let (target, signatures) ← Render.lift (resolve site context options argument)
  let (m, k) := target.home context
  Render.pushContext m k (some (.names target.member.object.details.usedModules))
  Render.thenPop (render site.depth ⟨argument, options⟩
    ⟨target.member, true, wanted, signatures, body⟩)

end LuaDocs.Auto
