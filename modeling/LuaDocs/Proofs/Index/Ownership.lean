import LuaDocs.Proofs.Index.Reading

/-!
# Who owns the rows of an object

An object that is described has a row in each of the three tables. The row in the table of objects
names the document that describes it. The other two may be older: a row is also made when another
document lists something under the name of the object. All three belong to the document that
describes the object all the same. Entering the object takes over the rows that are there, listing
something in a row never changes its owner, and removing a document takes either all three rows
away or none of them.
-/

namespace LuaDocs

namespace Index

/-- The document that describes the object. -/
def owner? (t : Index) (key : String) : Option String := (t.objects.get? key).map ObjectRow.document

/-- The document that the row of a key belongs to. -/
def rowOwner? (t : Index) (side : Side) (key : String) : Option String :=
  (t.row side key).map MemberRow.document

variable {t : Index} {key : String}

/-! ### Entering an object -/

theorem owner?_register (t : Index) (r : Registration) (key : String) :
    (t.register r).owner? key =
      if r.fullname = key then some r.row.document else t.owner? key := by
  rw [owner?, get?_objects_register]
  split <;> rfl

/-- An object that is entered takes over its row. Where it is listed, a row that is there keeps its
owner. -/
theorem rowOwner?_register (t : Index) (r : Registration) (side : Side) (key : String) :
    (t.register r).rowOwner? side key =
      if r.fullname = key then some r.row.document
      else (t.rowOwner? side key).or
        (if r.ListedAt side key then some r.row.document else none) := by
  rw [rowOwner?, rowOwner?, row_register, Registration.touches]
  by_cases hkey : r.fullname = key <;> by_cases hlisted : r.ListedAt side key
  · simp [hkey, hlisted, Touch.document_apply, Touch.owner?]
  · simp [hkey, hlisted, Touch.document_apply, Touch.owner?]
  · cases t.row side key <;>
      simp [hkey, hlisted, Touch.document_apply, Touch.owner?, Touch.document, Registration.entry]
  · simp [hkey, hlisted]

/-! ### Noting a synopsis -/

theorem row_noteSynopsis (t : Index) (fullname synopsis : String) (side : Side) (key : String) :
    (t.noteSynopsis fullname synopsis).row side key = t.row side key := by
  unfold noteSynopsis
  split
  · split
    · cases side <;> rfl
    · rfl
  · rfl

theorem owner?_noteSynopsis (t : Index) (fullname synopsis key : String) :
    (t.noteSynopsis fullname synopsis).owner? key = t.owner? key := by
  unfold noteSynopsis
  split
  · next row hrow =>
    split
    · rw [owner?, owner?, Table.get?_set]
      split
      · next hkey =>
        rw [← hkey, hrow]
        rfl
      · rfl
    · rfl
  · rfl

theorem Keyed.noteSynopsis (h : t.Keyed) (fullname synopsis : String) :
    (t.noteSynopsis fullname synopsis).Keyed := by
  unfold Index.noteSynopsis
  split
  · split
    · exact ⟨Table.keyed_set h.objects _ _, h.globals, h.members⟩
    · exact h
  · exact h

/-! ### Removing a document -/

theorem owner?_clear (h : t.Keyed) (document key : String) :
    (t.clear document).owner? key = (t.owner? key).filter fun d => d != document := by
  have hget : (t.clear document).objects.get? key =
      (t.objects.get? key).filter fun row => row.document != document :=
    Table.get?_filter h.objects _ key
  rw [owner?, owner?, hget, Option.filter_map]
  rfl

theorem rowOwner?_clear (h : t.Keyed) (document : String) (side : Side) (key : String) :
    (t.clear document).rowOwner? side key =
      (t.rowOwner? side key).filter fun d => d != document := by
  rw [rowOwner?, rowOwner?, row_clear h, clearRow]
  cases t.row side key with
  | none => rfl
  | some row =>
    by_cases hd : row.document = document <;> simp [Option.filter, hd, MemberRow.without]

/-! ### Ownership -/

/-- No key has two rows, and the rows of each object belong to the document that describes it. -/
structure Owned (t : Index) : Prop extends Keyed t where
  rows : ∀ key document, t.owner? key = some document →
    ∀ side, t.rowOwner? side key = some document

theorem owned_empty : Owned empty := ⟨keyed_empty, nofun⟩

namespace Owned

theorem register (h : Owned t) (r : Registration) : Owned (t.register r) := by
  refine ⟨h.toKeyed.register r, fun key document howner side => ?_⟩
  rw [owner?_register] at howner
  rw [rowOwner?_register]
  split at howner
  · next hkey => rwa [if_pos hkey]
  · next hkey =>
    -- the row of another object is there, so that listing something in it leaves its owner
    rw [if_neg hkey, h.rows key document howner side, Option.some_or]

theorem noteSynopsis (h : Owned t) (fullname synopsis : String) :
    Owned (t.noteSynopsis fullname synopsis) := by
  refine ⟨h.toKeyed.noteSynopsis fullname synopsis, fun key document howner side => ?_⟩
  rw [owner?_noteSynopsis] at howner
  rw [rowOwner?, row_noteSynopsis]
  exact h.rows key document howner side

theorem clear (h : Owned t) (document : String) : Owned (t.clear document) := by
  refine ⟨h.toKeyed.clear document, fun key other howner side => ?_⟩
  rw [owner?_clear h.toKeyed, Option.filter_eq_some_iff] at howner
  rw [rowOwner?_clear h.toKeyed, Option.filter_eq_some_iff]
  exact ⟨h.rows key other howner.1 side, howner.2⟩

end Owned

end Index

end LuaDocs
