import LuaDocs.Build
import LuaDocs.Proofs.Document.Nesting

/-!
# Rows belong to the documents of their objects

The tables change when a document is read, when an object is entered or its synopsis is noted, and
when a document is removed because it has changed. Documents may describe the same objects, in any
order and as often as they like, and a document that cannot be read to its end leaves what it has
entered. In all states that come about in this way, an object that is described has a row in each of
the three tables, and the three rows belong to the same document.
-/

namespace LuaDocs

open Render

/-- Reading items, to the end or until one fails, leaves rows with the documents of their
objects. -/
theorem Document.owned_readFrom {site : Site} (hsite : site.Careful) {s : State}
    (hs : s.index.Owned) (items : List Item) :
    (readFrom site s items).state.index.Owned := by
  induction items generalizing s with
  | nil => exact hs
  | cons item rest ih =>
    have hitem := (Item.kept_render hsite item).ensures s
    rw [readFrom]
    split
    · next e t ht => exact (hitem.of_error ht).2.owned hs
    · next nodes t ht => exact ih ((hitem.of_ok ht).owned hs)

namespace Index

/-- The tables are empty, or they come from such tables by a change. -/
inductive Reached : Index → Prop where
  | empty : Reached empty
  /-- An object is entered. -/
  | register {t : Index} (h : Reached t) (r : Registration) : Reached (t.register r)
  /-- The synopsis of an object is noted. -/
  | noteSynopsis {t : Index} (h : Reached t) (fullname synopsis : String) :
    Reached (t.noteSynopsis fullname synopsis)
  /-- What belongs to a document is removed. -/
  | clear {t : Index} (h : Reached t) (document : String) : Reached (t.clear document)
  /-- A document is read, which may do all of this but removing. The comments of the tree are made
  of the same items. -/
  | read {t : Index} (h : Reached t) (site : Site) (markup : Bool → String → List Item)
    (depth : Nat) (document : String) (items : List Item) :
    Reached (Document.read (site.reading markup depth) t document items).state.index

theorem Reached.owned {t : Index} (h : Reached t) : t.Owned := by
  induction h with
  | empty => exact owned_empty
  | register _ r ih => exact ih.register r
  | noteSynopsis _ fullname synopsis ih => exact ih.noteSynopsis fullname synopsis
  | clear _ document ih => exact ih.clear document
  | read _ site markup depth document items ih =>
    exact Document.owned_readFrom (Site.careful_reading site markup depth)
      (s := ⟨_, .new document, []⟩) ih items

/-- **The rows of an object belong to its document.** However the tables came about, an object that
is described has a row of globals and a row of members, and both belong to the document that the
table of objects names. -/
theorem rows_of_reached {t : Index} (ht : Reached t) {key : String} {row : ObjectRow}
    (h : t.objects.get? key = some row) :
    (∃ g, t.globals.get? key = some g ∧ g.document = row.document) ∧
      ∃ m, t.members.get? key = some m ∧ m.document = row.document := by
  have howner : t.owner? key = some row.document := by rw [owner?, h, Option.map_some]
  have hrows := ht.owned.rows key row.document howner
  constructor
  · obtain ⟨member, hmember, hdocument⟩ := Option.map_eq_some_iff.1 (hrows .globals)
    obtain ⟨g, hg, rfl⟩ := Option.map_eq_some_iff.1 hmember
    exact ⟨g, hg, hdocument⟩
  · exact Option.map_eq_some_iff.1 (hrows .members)

/-- A member of the class `A` is described, then the class itself, then the class in another
document. The first document that describes the class is removed. -/
def takenOver : Index :=
  let site := (Site.ofTree (.unknown false)).reading (fun _ text => [.paragraph text]) 1
  let read (t : Index) (document directive argument : String) : Index :=
    (Document.read site t document [.directive directive (some argument) [] []]).state.index
  (read (read (read empty "member" "data" "A.x") "class" "class" "A: B") "other" "class"
    "A").clear "class"

/-- The row that was made for the member has gone to the document that described the class last, and
still lists the member. -/
theorem rows_of_takenOver :
    Reached takenOver ∧ ∃ row g m, takenOver.objects.get? "A" = some row ∧
      takenOver.globals.get? "A" = some g ∧ takenOver.members.get? "A" = some m ∧
      row.document = "other" ∧ g.document = "other" ∧ m.document = "other" ∧
      m.entries = [⟨"member", "A.x"⟩] := by
  have hreached : Reached takenOver :=
    .clear (.read (.read (.read .empty _ _ _ _ _) _ _ _ _ _) _ _ _ _ _) "class"
  have hsome : (takenOver.objects.get? "A").isSome = true := by decide +kernel
  obtain ⟨row, hrow⟩ := Option.isSome_iff_exists.1 hsome
  have hdocument : (takenOver.objects.get? "A").map ObjectRow.document = some "other" := by
    decide +kernel
  have hentries : (takenOver.members.get? "A").map MemberRow.entries =
      some [⟨"member", "A.x"⟩] := by
    decide +kernel
  rw [hrow, Option.map_some, Option.some.injEq] at hdocument
  obtain ⟨⟨g, hg, hglobal⟩, m, hm, hmember⟩ := rows_of_reached hreached hrow
  rw [hm, Option.map_some, Option.some.injEq] at hentries
  exact ⟨hreached, row, g, m, hrow, hg, hm, hdocument, hglobal.trans hdocument,
    hmember.trans hdocument, hentries⟩

end Index

end LuaDocs
