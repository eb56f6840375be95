import LuaDocs.Context

/-!
# Document nodes

A document is a tree of nodes. A node is a piece of text or an element; an element has a kind, the
attributes that belong to that kind, and children.

Rendering a type can leave behind *loose* text: characters that were run together and are no text
node. Loose text may stand in a list of nodes but cannot become a child of an element.
-/

namespace LuaDocs

/-- Elements without attributes. -/
inductive Tag where
  | paragraph | strong | title | seealso | admonition | inline | literalStrong
  | bulletList | listItem | fieldList | field | fieldName | fieldBody
  | tableBody | row | entry
  | descName | descAddName | descNote | descType | descContent
  | sigName | sigSpace | sigOperator | sigPunctuation | sigKeyword | sigKeywordType
  | sigLiteralNumber | sigLiteralString | sigLiteralChar | sigIndent
  deriving DecidableEq, Repr

/-- A reference that is to be resolved when all documents are read. -/
structure PendingRef where
  /-- The family of names in which the target is looked up. -/
  domain : String
  role : String
  target : String
  /-- The reference has a title of its own. -/
  explicit : Bool
  moduleName : Option String
  className : Option String
  usedModules : Option Selection
  deriving DecidableEq, Repr

/-- The attributes of an object's signature. -/
structure SignatureInfo where
  ids : List String
  moduleName : Option (Option String)
  className : Option (Option String)
  fullname : Option String
  shownName : Option String
  /-- The signature has several lines. -/
  multiline : Bool
  /-- The components under which the object stands in a table of contents. -/
  tocParts : Option (List String)
  /-- The title of the object in a table of contents. -/
  tocName : Option String
  deriving DecidableEq, Repr

/-- The attributes of the description of an object. -/
structure DescInfo where
  objtype : String
  /-- The object is not entered into the index tables. -/
  noIndex : Bool
  /-- The object has no entry in the general index. -/
  noIndexEntry : Bool
  /-- The object has no entry in tables of contents. -/
  noContentsEntry : Bool
  deriving DecidableEq, Repr

/-- Where a resolved reference leads. -/
inductive Destination where
  /-- To an anchor of the same page. -/
  | anchor (id : String)
  /-- To another page, or to a page of the manual. -/
  | uri (uri : String)
  deriving DecidableEq, Repr

/-- The kind of an element with its attributes. -/
inductive Element where
  | plain (tag : Tag)
  | desc (info : DescInfo)
  | signature (info : SignatureInfo)
  /-- A line of a signature; the permalink is noted on all lines but the first. -/
  | signatureLine (permalink : Option Bool)
  /-- Entries of the general index: text and anchor. -/
  | index (entries : List (String × String))
  | target (ids : List String) (isModule : Bool)
  | pending (ref : PendingRef)
  | reference (destination : Destination) (title : Option String)
  | literal (classes : List String)
  | literalEmphasis (classes : List String)
  | container (classes : List String)
  | table (classes : List String)
  | tableGroup (columns : Nat)
  | column (width : Nat)
  /-- A part of a document under a title, with the name that the title gives. -/
  | titledSection (name : String) (ids : List String)
  /-- The place of the table of a module's members. -/
  | autoIndex (target : String)
  /-- The place of the list of a class's inherited members. -/
  | inheritedMembers (target : Option String)
  | systemMessage (level : Nat)
  deriving DecidableEq, Repr

/-- The anchors of an element. -/
def Element.anchors : Element → List String
  | .signature info => info.ids
  | .target ids _ => ids
  | .titledSection _ ids => ids
  | _ => []

/-- A node of a document. -/
inductive Node where
  | text (s : String)
  /-- Text that is no node. -/
  | loose (s : String)
  | element (kind : Element) (children : List Node)
  deriving Repr

namespace Node

/-- A node that cannot be a child. -/
def isLoose : Node → Bool
  | .loose _ => true
  | _ => false

/-- The children of an element. -/
def children : Node → List Node
  | .element _ children => children
  | _ => []

/-- An element without attributes. -/
def plain (tag : Tag) (children : List Node) : Node := .element (.plain tag) children

/-- An element that holds one text, or nothing if the text is empty. -/
def leaf (tag : Tag) (s : String) : Node :=
  .plain tag (if s.isEmpty then [] else [.text s])

/-- The text of an element of kind `kind`, or nothing if the text is empty. -/
def holding (kind : Element) (s : String) : Node :=
  .element kind (if s.isEmpty then [] else [.text s])

/-- A blank in a signature. -/
def space : Node := leaf .sigSpace " "

/-- A sign in a signature. -/
def punctuation (s : String) : Node := leaf .sigPunctuation s

/-- A keyword in a signature. -/
def keyword (s : String) : Node := leaf .sigKeyword s

/-- An element of the given kind with the given children, unless one is loose text. -/
def attach (kind : Element) (children : List Node) : Option Node :=
  if children.any isLoose then none else some (.element kind children)

/-- The text of a node: the texts in it, one after the other. -/
def plainText : Node → String
  | .text s => s
  | .loose s => s
  | .element _ children => String.join (children.attach.map fun ⟨n, _⟩ => n.plainText)

/-- The anchors in a node, in document order. -/
def anchors : Node → List String
  | .element kind children =>
    kind.anchors ++ children.attach.flatMap fun ⟨n, _⟩ => n.anchors
  | _ => []

end Node

end LuaDocs
