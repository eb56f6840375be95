import LuaDocs.Document

/-!
# Builds

A build reads documents one after the other and keeps the index tables and the nodes of the
documents. A document that changed is cleared and read again. Documents that were read by another
worker are merged.
-/

namespace LuaDocs

/-- The index tables and the documents of a project. -/
structure Build where
  index : Index
  documents : Table (List Node)

namespace Build

/-- Nothing is read. -/
def empty : Build := ⟨.empty, []⟩

/-- The nodes of a document. -/
def nodesOf (b : Build) (document : String) : List Node := (b.documents.get? document).getD []

/-- Reads a document; the nodes of the items before a failure are kept. -/
def read (site : Site) (b : Build) (document : String) (items : List Item) :
    Document.Outcome × Build :=
  let o := Document.read site b.index document items
  (o, ⟨o.state.index, b.documents.set document o.nodes.flatten⟩)

/-- Forgets what a document describes. -/
def clear (b : Build) (document : String) : Build := { b with index := b.index.clear document }

/-- The warning on an object that both this build and a worker describe. -/
def duplicateWarning (site : Site) (d : String × String × String) : String :=
  "duplicate description for object " ++ d.1 ++ " found in files " ++ site.documentFile d.2.1 ++
    " and " ++ site.documentFile d.2.2

/-- Adds the documents of a worker, and the warnings to be given. -/
def merge (site : Site) (b : Build) (documents : List String) (other : Index) :
    Build × List String :=
  ({ b with index := b.index.merge documents other },
    (b.index.duplicates documents other).map (duplicateWarning site))

/-- Fills the places of tables in a document: the tables of the document, or why one could not be
made. -/
def fill (site : Site) (b : Build) (document : String) :
    Except Reference.Error (List Node) × Build :=
  let (nodes, error) := Document.fill site b.index document (b.nodesOf document)
  (match error with
    | some e => .error e
    | none => .ok (nodes.flatMap Document.filled),
    { b with documents := b.documents.set document nodes })

/-- Resolves references until one cannot be resolved: what they become, the warnings, and the
error. -/
def resolveAll (site : Site) (index : Index) (document : String) :
    List (PendingRef × Node) →
      List (String × Option Node) × List String × Option Reference.Error
  | [] => ([], [], none)
  | (ref, shown) :: rest =>
    match Document.resolve site index document ref shown with
    | .error e => ([], [], some e)
    | .ok (node, warning) =>
      let (nodes, warnings, error) := resolveAll site index document rest
      ((ref.target, node) :: nodes, warning.toList ++ warnings, error)

/-- The references of a document with what they become, the warnings, and the error that stopped
the resolution. -/
def resolve (site : Site) (b : Build) (document : String) :
    List (String × Option Node) × List String × Option Reference.Error :=
  resolveAll site b.index document
    (((b.nodesOf document).flatMap Document.references).filter fun r => !r.1.domain.isEmpty)

end Build

end LuaDocs
