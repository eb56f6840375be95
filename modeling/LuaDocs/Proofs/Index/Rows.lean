import LuaDocs.Index
import LuaDocs.Proofs.Table

/-!
# What happens to one row of the index

The tables of members and of globals change in the same three ways: an object is entered, a
document is removed, the tables of a worker are added. What this does to the row of a key depends
on that row alone. So the history of a row can be told without the tables: entering objects
*touches* the row, removing a document may drop it, and merging joins two rows.

A row of globals is seen here as a row of members without bases, so that everything is said once
for both tables.
-/

namespace LuaDocs

namespace Index

/-! ## Rows -/

/-- The tables that list objects. -/
inductive Side where
  | members | globals
  deriving DecidableEq, Repr

/-- A row of globals as a row of members. -/
def GlobalRow.toMember (row : GlobalRow) : MemberRow := ⟨row.document, row.entries, [], .empty⟩

/-- The row of a key. -/
def row (t : Index) (side : Side) (key : String) : Option MemberRow :=
  match side with
  | .members => t.members.get? key
  | .globals => (t.globals.get? key).map GlobalRow.toMember

/-- No key has two rows in any table. -/
structure Keyed (t : Index) : Prop where
  objects : Table.Keyed t.objects
  globals : Table.Keyed t.globals
  members : Table.Keyed t.members

theorem keyed_empty : Keyed empty := ⟨Table.keyed_nil, Table.keyed_nil, Table.keyed_nil⟩

@[simp] theorem row_empty (side : Side) (key : String) : row empty side key = none := by
  cases side <;> rfl

/-! ## Entering an object -/

/-- What entering an object does to a row. -/
inductive Touch where
  /-- The row is that of the object: its document becomes the owner, and its bases are noted. -/
  | own (document : String) (bases : Option (List String × Scope))
  /-- The object is listed in the row. -/
  | list (entry : Entry)
  deriving DecidableEq, Repr

namespace Touch

/-- The document that touches the row. -/
def document : Touch → String
  | .own document _ => document
  | .list entry => entry.document

/-- The entry that is listed. -/
def entry? : Touch → Option Entry
  | .own .. => none
  | .list entry => some entry

/-- The bases that are noted. -/
def bases? : Touch → Option (List String × Scope)
  | .own _ bases => bases
  | .list _ => none

/-- The document that becomes the owner of the row, whoever owned it before. -/
def owner? : Touch → Option String
  | .own document _ => some document
  | .list _ => none

/-- The row that a touch leaves; a missing row is made, and belongs to the document. -/
def apply (touch : Touch) (row : Option MemberRow) : MemberRow :=
  let row := row.getD ⟨touch.document, [], [], .empty⟩
  match touch with
  | .own document none => { row with document }
  | .own document (some (bases, scope)) => { row with document, bases, scope }
  | .list entry => { row with entries := row.entries ++ [entry] }

end Touch

/-- The row after some touches. -/
def touchAll (row : Option MemberRow) (touches : List Touch) : Option MemberRow :=
  touches.foldl (fun row touch => some (touch.apply row)) row

@[simp] theorem touchAll_nil (row : Option MemberRow) : touchAll row [] = row := rfl

@[simp] theorem touchAll_cons (row : Option MemberRow) (touch : Touch) (rest : List Touch) :
    touchAll row (touch :: rest) = touchAll (some (touch.apply row)) rest := rfl

theorem touchAll_append (row : Option MemberRow) (first rest : List Touch) :
    touchAll row (first ++ rest) = touchAll (touchAll row first) rest :=
  List.foldl_append

namespace Registration

/-- The entry of the object in a list. -/
def entry (r : Registration) : Entry := ⟨r.row.document, r.fullname⟩

/-- The bases that are noted: a class without bases leaves those that are there. -/
def noted (r : Registration) : Option (List String × Scope) :=
  r.bases.filter fun b => !b.1.isEmpty

/-- The object is listed under the key. -/
def ListedAt (r : Registration) (side : Side) (key : String) : Prop :=
  match side with
  | .members => r.listing = .member ∧ parent? r.fullname = some key
  | .globals => r.listing = .globalOf key

instance (r : Registration) (side : Side) (key : String) : Decidable (r.ListedAt side key) :=
  match side with
  | .members => inferInstanceAs (Decidable (_ ∧ _))
  | .globals => inferInstanceAs (Decidable (_ = _))

/-- The bases that are noted in a table: only rows of members have bases. -/
def notedAt (r : Registration) : Side → Option (List String × Scope)
  | .members => r.noted
  | .globals => none

/-- What entering the object does to the row of a key. -/
def touches (r : Registration) (side : Side) (key : String) : List Touch :=
  (if r.fullname = key then [.own r.row.document (r.notedAt side)] else []) ++
  (if r.ListedAt side key then [.list r.entry] else [])

end Registration

theorem get?_ownGlobals (t : Table GlobalRow) (key document other : String) :
    (Table.get? (ownGlobals t key document) other).map GlobalRow.toMember =
      touchAll ((Table.get? t other).map GlobalRow.toMember)
        (if key = other then [.own document none] else []) := by
  rw [ownGlobals, Table.get?_set]
  split
  · next h =>
    subst h
    cases Table.get? t key <;> rfl
  · rfl

theorem get?_addGlobal (t : Table GlobalRow) (key : String) (e : Entry) (other : String) :
    (Table.get? (addGlobal t key e) other).map GlobalRow.toMember =
      touchAll ((Table.get? t other).map GlobalRow.toMember)
        (if key = other then [.list e] else []) := by
  unfold addGlobal
  by_cases h : key = other
  · subst h
    cases ht : Table.get? t key <;> simp [Touch.apply, Touch.document, GlobalRow.toMember]
  · cases ht : Table.get? t key <;> simp [h, Table.get?_set]

theorem get?_ownMembers (t : Table MemberRow) (key document other : String) :
    Table.get? (ownMembers t key document) other =
      touchAll (Table.get? t other) (if key = other then [.own document none] else []) := by
  rw [ownMembers, Table.get?_set]
  split
  · next h =>
    subst h
    cases Table.get? t key <;> rfl
  · rfl

/-- Owning a row and then noting bases in it is one touch. -/
theorem get?_noteBases_ownMembers (t : Table MemberRow) (key document other : String)
    (bases : List String) (scope : Scope) :
    Table.get? (noteBases (ownMembers t key document) key bases scope) other =
      touchAll (Table.get? t other)
        (if key = other then [.own document (some (bases, scope))] else []) := by
  have hown : Table.get? (ownMembers t key document) key =
      some ((Touch.own document none).apply (Table.get? t key)) := by
    simp [get?_ownMembers]
  rw [noteBases, hown]
  simp only [Table.get?_set]
  by_cases h : key = other
  · subst h
    cases Table.get? t key <;> simp [Touch.apply]
  · simp [h, get?_ownMembers]

theorem get?_addMember (t : Table MemberRow) (key : String) (e : Entry) (other : String) :
    Table.get? (addMember t key e) other =
      touchAll (Table.get? t other) (if key = other then [.list e] else []) := by
  unfold addMember
  by_cases h : key = other
  · subst h
    cases ht : Table.get? t key <;> simp [Touch.apply, Touch.document]
  · cases ht : Table.get? t key <;> simp [h, Table.get?_set]

/-- The table of members after the row of the object has been made and its bases have been
noted, before the object is listed. -/
def membersOwned (t : Index) (r : Registration) : Table MemberRow :=
  let members := ownMembers t.members r.fullname r.row.document
  match r.bases with
  | some (bases, scope) => if bases.isEmpty then members else
      noteBases members r.fullname bases scope
  | none => members

theorem get?_membersOwned (t : Index) (r : Registration) (key : String) :
    Table.get? (membersOwned t r) key =
      touchAll (Table.get? t.members key)
        (if r.fullname = key then [.own r.row.document r.noted] else []) := by
  unfold membersOwned Registration.noted
  cases hb : r.bases with
  | none => simpa using get?_ownMembers t.members r.fullname r.row.document key
  | some b =>
    obtain ⟨bases, scope⟩ := b
    by_cases he : bases.isEmpty
    · simpa [he, Option.filter] using get?_ownMembers t.members r.fullname r.row.document key
    · simpa [he, Option.filter] using
        get?_noteBases_ownMembers t.members r.fullname r.row.document key bases scope

theorem globals_register (t : Index) (r : Registration) :
    (t.register r).globals = match r.listing with
      | .globalOf m => addGlobal (ownGlobals t.globals r.fullname r.row.document) m r.entry
      | _ => ownGlobals t.globals r.fullname r.row.document := by
  unfold register
  cases r.listing with
  | member => dsimp only; split <;> rfl
  | globalOf m => rfl
  | nowhere => rfl

theorem members_register (t : Index) (r : Registration) :
    (t.register r).members = match r.listing, parent? r.fullname with
      | .member, some p => addMember (membersOwned t r) p r.entry
      | _, _ => membersOwned t r := by
  unfold register membersOwned
  cases r.listing with
  | member => cases parent? r.fullname <;> cases r.bases <;> rfl
  | globalOf m => rfl
  | nowhere => rfl

/-- **Entering an object, row by row.** -/
theorem row_register (t : Index) (r : Registration) (side : Side) (key : String) :
    (t.register r).row side key = touchAll (t.row side key) (r.touches side key) := by
  rw [Registration.touches, touchAll_append]
  cases side with
  | members =>
    simp only [row, Registration.notedAt, ← get?_membersOwned]
    rw [members_register]
    split
    · next p hl hp =>
      have hp' : r.ListedAt .members key ↔ p = key := by simp [Registration.ListedAt, hl, hp]
      simp only [get?_addMember, hp']
    · next hno =>
      have hn : ¬ r.ListedAt .members key := fun h => hno key h.1 h.2
      simp [hn]
  | globals =>
    simp only [row, Registration.notedAt, ← get?_ownGlobals]
    rw [globals_register]
    split
    · next m hl =>
      have hm : r.ListedAt .globals key ↔ m = key := by simp [Registration.ListedAt, hl]
      simp only [get?_addGlobal, hm]
    · next hno =>
      have hn : ¬ r.ListedAt .globals key := fun h => hno key h
      simp [hn]

theorem keyed_membersOwned {t : Index} (h : Table.Keyed t.members) (r : Registration) :
    Table.Keyed (membersOwned t r) := by
  have hown : Table.Keyed (ownMembers t.members r.fullname r.row.document) := Table.keyed_set h _ _
  unfold membersOwned
  dsimp only
  split
  · split
    · exact hown
    · rw [noteBases]
      split
      · exact Table.keyed_set hown _ _
      · exact hown
  · exact hown

theorem keyed_addGlobal {t : Table GlobalRow} (h : Table.Keyed t) (key : String) (e : Entry) :
    Table.Keyed (addGlobal t key e) := by
  unfold addGlobal
  split <;> exact Table.keyed_set h _ _

theorem keyed_addMember {t : Table MemberRow} (h : Table.Keyed t) (key : String) (e : Entry) :
    Table.Keyed (addMember t key e) := by
  unfold addMember
  split <;> exact Table.keyed_set h _ _

theorem objects_register (t : Index) (r : Registration) :
    (t.register r).objects = t.objects.set r.fullname r.row := by
  unfold register
  cases r.listing with
  | member => dsimp only; split <;> rfl
  | globalOf m => rfl
  | nowhere => rfl

theorem get?_objects_register (t : Index) (r : Registration) (key : String) :
    (t.register r).objects.get? key =
      if r.fullname = key then some r.row else t.objects.get? key := by
  rw [objects_register, Table.get?_set]

theorem Keyed.register {t : Index} (h : Keyed t) (r : Registration) : Keyed (t.register r) where
  objects := by
    rw [objects_register]
    exact Table.keyed_set h.objects _ _
  globals := by
    have hown : Table.Keyed (ownGlobals t.globals r.fullname r.row.document) :=
      Table.keyed_set h.globals _ _
    rw [globals_register]
    split
    · exact keyed_addGlobal hown _ _
    · exact hown
  members := by
    have hown := keyed_membersOwned h.members r
    rw [members_register]
    split
    · exact keyed_addMember hown _ _
    · exact hown

/-! ## Removing a document -/

/-- A row of members without the entries of a document. -/
def MemberRow.without (document : String) (row : MemberRow) : MemberRow :=
  { row with entries := entriesWithout document row.entries }

/-- A row of globals without the entries of a document. -/
def GlobalRow.without (document : String) (row : GlobalRow) : GlobalRow :=
  { row with entries := entriesWithout document row.entries }

/-- The row after a document has been removed: nothing is left of a row that it owns, and other
rows lose its entries. -/
def clearRow (document : String) (row : Option MemberRow) : Option MemberRow :=
  (row.filter fun row => row.document != document).map (MemberRow.without document)

/-- **Removing a document, row by row.** -/
theorem row_clear {t : Index} (h : Keyed t) (document : String) (side : Side) (key : String) :
    (t.clear document).row side key = clearRow document (t.row side key) := by
  cases side with
  | members =>
    refine (Table.get?_mapRows _ (MemberRow.without document) key).trans ?_
    rw [Table.get?_filter h.members]
    rfl
  | globals =>
    have hget : (t.clear document).globals.get? key =
        ((t.globals.get? key).filter fun row => row.document != document).map
          (GlobalRow.without document) := by
      refine (Table.get?_mapRows _ (GlobalRow.without document) key).trans ?_
      rw [Table.get?_filter h.globals]
    simp only [row, hget, clearRow]
    cases Table.get? t.globals key with
    | none => rfl
    | some row =>
      by_cases hd : row.document = document <;>
        simp [Option.filter, hd, GlobalRow.toMember, GlobalRow.without, MemberRow.without]

theorem Keyed.clear {t : Index} (h : Keyed t) (document : String) : Keyed (t.clear document) where
  objects := Table.keyed_filter h.objects _
  globals := Table.keyed_mapRows (Table.keyed_filter h.globals _) (GlobalRow.without document)
  members := Table.keyed_mapRows (Table.keyed_filter h.members _) (MemberRow.without document)

/-! ## Merging -/

/-- A row with what the row of a worker adds. A row that is already there gets the entries only. -/
def joinRow (documents : List String) (mine : Option MemberRow) (other : MemberRow) :
    Option MemberRow :=
  let entries := entriesOf documents other.entries
  if !documents.contains other.document then mine
  else match mine with
    | none => some { other with entries }
    | some mine => some { mine with entries := mine.entries ++ entries }

/-- A row after the tables of a worker have been added. -/
def mergeRow (documents : List String) (mine other : Option MemberRow) : Option MemberRow :=
  other.elim mine (joinRow documents mine)

theorem get?_mergeMembers (documents : List String) (t : Table MemberRow)
    (row : String × MemberRow) (key : String) :
    Table.get? (mergeMembers documents t row) key =
      if row.1 = key then joinRow documents (Table.get? t key) row.2 else Table.get? t key := by
  unfold mergeMembers joinRow
  by_cases hd : row.2.document ∈ documents
  · by_cases hk : row.1 = key
    · subst hk
      cases Table.get? t row.1 <;> simp [hd]
    · cases Table.get? t row.1 <;> simp [hd, hk, Table.get?_set]
  · simp [hd]

/-- The row of globals that a worker's row leaves. -/
def joinGlobals (documents : List String) (mine : Option GlobalRow) (other : GlobalRow) :
    Option GlobalRow :=
  let entries := entriesOf documents other.entries
  if !documents.contains other.document then mine
  else match mine with
    | none => some ⟨other.document, entries⟩
    | some mine => some { mine with entries := mine.entries ++ entries }

theorem get?_mergeGlobals (documents : List String) (t : Table GlobalRow)
    (row : String × GlobalRow) (key : String) :
    Table.get? (mergeGlobals documents t row) key =
      if row.1 = key then joinGlobals documents (Table.get? t key) row.2
      else Table.get? t key := by
  unfold mergeGlobals joinGlobals
  by_cases hd : row.2.document ∈ documents
  · by_cases hk : row.1 = key
    · subst hk
      cases Table.get? t row.1 <;> simp [hd]
    · cases Table.get? t row.1 <;> simp [hd, hk, Table.get?_set]
  · simp [hd]

theorem toMember_joinGlobals (documents : List String) (mine : Option GlobalRow)
    (other : GlobalRow) :
    (joinGlobals documents mine other).map GlobalRow.toMember =
      joinRow documents (mine.map GlobalRow.toMember) other.toMember := by
  unfold joinGlobals joinRow
  by_cases hd : other.document ∈ documents <;>
    cases mine <;> simp [hd, GlobalRow.toMember]

/-- **Merging, row by row.** -/
theorem row_merge (t : Index) (documents : List String) {other : Index} (h : Keyed other)
    (side : Side) (key : String) :
    (t.merge documents other).row side key =
      mergeRow documents (t.row side key) (other.row side key) := by
  cases side with
  | members =>
    simp only [row, merge, mergeRow]
    rw [Table.get?_foldl (get?_mergeMembers documents) h.members]
  | globals =>
    simp only [row, merge, mergeRow]
    rw [Table.get?_foldl (get?_mergeGlobals documents) h.globals]
    cases Table.get? other.globals key with
    | none => rfl
    | some row => simpa using toMember_joinGlobals documents (Table.get? t.globals key) row

theorem get?_objects_merge (t : Index) (documents : List String) {other : Index} (h : Keyed other)
    (key : String) :
    (t.merge documents other).objects.get? key =
      ((other.objects.get? key).filter fun row => documents.contains row.document).or
        (t.objects.get? key) := by
  simp only [merge]
  rw [Table.get?_update _ (Table.keyed_filter h.objects _), Table.get?_filter h.objects]

end Index

end LuaDocs
