import LuaDocs.Proofs.Index.Reading
import Mathlib.Data.List.Forall2

/-!
# Removing documents

Removing a document takes its rows away, with whatever other documents listed in them, and takes its
entries out of the rows of other documents. What is left depends only on which documents are gone:
it is what the documents that stay own and list, in the order in which it stood. Hence it makes no
difference in which order documents are removed, or how often.

The tables are changed in place, row by row, while a copy of the rows is gone through. As no key has
two rows, each row is met once, and removing a row neither uncovers nor skips another one.
-/

namespace LuaDocs

namespace Table

variable {α : Type}

/-! ### Row by row -/

/-- Writes a row anew that `stays`, and removes another one. -/
def sweepRow (stays : α → Bool) (f : α → α) (t : Table α) (row : String × α) : Table α :=
  if stays row.2 then t.set row.1 (f row.2) else t.erase row.1

/-- Meets each row of a copy of the table and changes the table. -/
def sweep (stays : α → Bool) (f : α → α) (t : Table α) : Table α :=
  List.foldl (sweepRow stays f) t t

theorem keys_append (s t : Table α) : keys (s ++ t) = keys s ++ keys t := List.map_append

theorem set_append_cons {s : Table α} {key : String} (h : key ∉ keys s) (t : Table α)
    (old value : α) : set (s ++ (key, old) :: t) key value = s ++ (key, value) :: t := by
  induction s with
  | nil => simp [set]
  | cons row rest ih =>
    have hrow : row.1 ≠ key := fun heq => h (by simp [keys, heq])
    have hrest : key ∉ keys rest := fun hmem => h (List.mem_cons_of_mem _ hmem)
    simp [set, hrow, ih hrest]

theorem erase_eq_self {t : Table α} {key : String} (h : key ∉ keys t) : erase t key = t := by
  refine List.filter_eq_self.2 fun row hrow => bne_iff_ne.2 ?_
  rintro rfl
  exact h (List.mem_map_of_mem hrow)

theorem erase_append_cons {s t : Table α} {key : String} (hs : key ∉ keys s) (ht : key ∉ keys t)
    (old : α) : erase (s ++ (key, old) :: t) key = s ++ t := by
  have hself : erase ((key, old) :: t) key = erase t key := by simp [erase]
  rw [erase, List.filter_append, ← erase, ← erase, erase_eq_self hs, hself, erase_eq_self ht]

/-- The rows `done` have been met and the rows `rest` have not. -/
theorem foldl_sweepRow {stays : α → Bool} {f : α → α} {done rest : Table α}
    (h : Keyed (done ++ rest)) :
    rest.foldl (sweepRow stays f) (done ++ rest) =
      done ++ (rest.filter fun row => stays row.2).map fun row => (row.1, f row.2) := by
  induction rest generalizing done with
  | nil => simp
  | cons row rest ih =>
    obtain ⟨key, a⟩ := row
    have hnodup : (keys done ++ key :: keys rest).Nodup := by
      rw [Keyed, keys_append] at h
      exact h
    have hdone : key ∉ keys done := fun hmem =>
      List.disjoint_of_nodup_append hnodup hmem List.mem_cons_self
    have hrest : key ∉ keys rest := (List.nodup_cons.1 hnodup.of_append_right).1
    rw [List.foldl_cons, sweepRow]
    cases hstays : stays a with
    | true =>
      have hkeyed : Keyed ((done ++ [(key, f a)]) ++ rest) := by
        rw [Keyed, keys_append, keys_append, List.append_assoc]
        exact hnodup
      have hset : set (done ++ (key, a) :: rest) key (f a) = (done ++ [(key, f a)]) ++ rest := by
        rw [set_append_cons hdone, List.append_assoc]
        rfl
      rw [if_pos rfl, hset, ih hkeyed, List.append_assoc]
      simp [hstays]
    | false =>
      have hkeyed : Keyed (done ++ rest) := by
        rw [Keyed, keys_append]
        exact hnodup.sublist ((List.Sublist.refl _).append (List.sublist_cons_self _ _))
      rw [if_neg Bool.false_ne_true, erase_append_cons hdone hrest, ih hkeyed]
      simp [hstays]

/-- **Every row is met once**: what is left are the rows that stay, in their order. -/
theorem sweep_eq {t : Table α} (h : Keyed t) (stays : α → Bool) (f : α → α) :
    sweep stays f t = (t.filter fun row => stays row.2).map fun row => (row.1, f row.2) := by
  have hnil : Keyed ([] ++ t) := h
  exact foldl_sweepRow hnil

/-! ### Restricting rows -/

/-- The rows whose owners are among the documents `p`, each restricted to these documents. -/
def keepRows (owner : α → String) (thin : (String → Bool) → α → α) (p : String → Bool)
    (t : Table α) : Table α :=
  (t.filter fun row => p (owner row.2)).map fun row => (row.1, thin p row.2)

/-- Restricting a row keeps its owner, so that rows which are restricted twice are those whose
owners are chosen both times. -/
theorem keepRows_keepRows {owner : α → String} {thin : (String → Bool) → α → α}
    (howner : ∀ p a, owner (thin p a) = owner a)
    (hthin : ∀ p q a, thin q (thin p a) = thin (fun d => p d && q d) a) (p q : String → Bool)
    (t : Table α) :
    keepRows owner thin q (keepRows owner thin p t) =
      keepRows owner thin (fun d => p d && q d) t := by
  simp only [keepRows, List.filter_map, List.map_map, List.filter_filter, Function.comp_def, howner,
    hthin, Bool.and_comm]

end Table

namespace Index

/-- A row of members with the entries of the documents `p`. -/
def MemberRow.thin (p : String → Bool) (row : MemberRow) : MemberRow :=
  { row with entries := row.entries.filter fun e => p e.document }

/-- A row of globals with the entries of the documents `p`. -/
def GlobalRow.thin (p : String → Bool) (row : GlobalRow) : GlobalRow :=
  { row with entries := row.entries.filter fun e => p e.document }

/-- The rows of the documents `p`, with the entries of these documents. -/
def keep (p : String → Bool) (t : Index) : Index where
  objects := t.objects.filter fun row => p row.2.document
  globals := Table.keepRows GlobalRow.document GlobalRow.thin p t.globals
  members := Table.keepRows MemberRow.document MemberRow.thin p t.members

/-- Removing a document leaves what belongs to the others. -/
theorem clear_eq_keep (t : Index) (document : String) :
    t.clear document = t.keep fun d => d != document := rfl

theorem GlobalRow.document_thin (p : String → Bool) (row : GlobalRow) :
    (row.thin p).document = row.document := rfl

theorem MemberRow.document_thin (p : String → Bool) (row : MemberRow) :
    (row.thin p).document = row.document := rfl

theorem GlobalRow.thin_thin (p q : String → Bool) (row : GlobalRow) :
    (row.thin p).thin q = row.thin fun d => p d && q d := by
  simp only [GlobalRow.thin, List.filter_filter, Bool.and_comm]

theorem MemberRow.thin_thin (p q : String → Bool) (row : MemberRow) :
    (row.thin p).thin q = row.thin fun d => p d && q d := by
  simp only [MemberRow.thin, List.filter_filter, Bool.and_comm]

/-- **Restricting the tables twice** leaves what belongs to the documents of both choices. -/
theorem keep_keep (t : Index) (p q : String → Bool) :
    (t.keep p).keep q = t.keep fun d => p d && q d := by
  have hobjects : ((t.keep p).keep q).objects = (t.keep fun d => p d && q d).objects := by
    simp only [keep, List.filter_filter, Bool.and_comm]
  have hglobals : ((t.keep p).keep q).globals = (t.keep fun d => p d && q d).globals :=
    Table.keepRows_keepRows GlobalRow.document_thin GlobalRow.thin_thin p q t.globals
  have hmembers : ((t.keep p).keep q).members = (t.keep fun d => p d && q d).members :=
    Table.keepRows_keepRows MemberRow.document_thin MemberRow.thin_thin p q t.members
  exact (Index.mk.injEq ..).mpr ⟨hobjects, hglobals, hmembers⟩

theorem keep_true (t : Index) : (t.keep fun _ => true) = t := by
  simp [keep, Table.keepRows, GlobalRow.thin, MemberRow.thin]

/-- Removing documents one after the other leaves what belongs to none of them. -/
theorem foldl_clear (t : Index) (documents : List String) :
    documents.foldl clear t = t.keep fun d => !documents.contains d := by
  induction documents generalizing t with
  | nil => exact t.keep_true.symm
  | cons document rest ih =>
    rw [List.foldl_cons, ih, clear_eq_keep, keep_keep]
    congr 1
    funext d
    rw [List.contains_cons, Bool.not_or]
    rfl

/-! ### What is left -/

/-- The rows of a table. -/
def rows (t : Index) : Side → Table MemberRow
  | .members => t.members
  | .globals => t.globals.map fun row => (row.1, row.2.toMember)

/-- The row `after` is what is left of the row `before` without the entries of a document. -/
structure Survives (document : String) (before after : String × MemberRow) : Prop where
  key : after.1 = before.1
  owner : after.2.document = before.2.document
  bases : after.2.bases = before.2.bases
  scope : after.2.scope = before.2.scope
  entries : after.2.entries = before.2.entries.filter fun e => e.document != document

/-- The document describes an object, owns a row, or lists something. -/
def Mentions (t : Index) (document : String) : Prop :=
  (∃ row ∈ t.objects, row.2.document = document) ∨ ∃ side, ∃ row ∈ t.rows side,
    row.2.document = document ∨ ∃ e ∈ row.2.entries, e.document = document

theorem rows_keep (p : String → Bool) (t : Index) (side : Side) :
    (t.keep p).rows side =
      Table.keepRows MemberRow.document MemberRow.thin p (t.rows side) := by
  cases side with
  | members => rfl
  | globals =>
    simp [rows, keep, Table.keepRows, List.filter_map, Function.comp_def, GlobalRow.toMember,
      GlobalRow.thin, MemberRow.thin]

theorem survives_clear (t : Index) (document : String) (side : Side) :
    List.Forall₂ (Survives document) ((t.rows side).filter fun row => row.2.document != document)
      ((t.clear document).rows side) := by
  rw [clear_eq_keep, rows_keep, Table.keepRows, List.forall₂_map_right_iff, List.forall₂_same]
  exact fun row _ => ⟨rfl, rfl, rfl, rfl, rfl⟩

theorem not_mentions_keep {p : String → Bool} {document : String} (h : p document = false)
    (t : Index) : ¬ (t.keep p).Mentions document := by
  rintro (⟨row, hrow, rfl⟩ | ⟨side, row, hrow, hmentions⟩)
  · cases h.symm.trans (List.mem_filter.1 hrow).2
  · rw [rows_keep] at hrow
    obtain ⟨before, hbefore, rfl⟩ := List.mem_map.1 hrow
    rcases hmentions with rfl | ⟨e, he, rfl⟩
    · cases h.symm.trans (List.mem_filter.1 hbefore).2
    · cases h.symm.trans (List.mem_filter.1 he).2

/-- The tables after each row has been met: those of the document are removed, and the others are
written without its entries. -/
def sweep (t : Index) (document : String) : Index where
  objects := t.objects.sweep (fun row => row.document != document) id
  globals := t.globals.sweep (fun row => row.document != document) (GlobalRow.without document)
  members := t.members.sweep (fun row => row.document != document) (MemberRow.without document)

theorem clear_eq_sweep {t : Index} (h : t.Keyed) (document : String) :
    t.clear document = t.sweep document := by
  rw [sweep, Table.sweep_eq h.objects, Table.sweep_eq h.globals, Table.sweep_eq h.members]
  simp only [id, List.map_id']
  rfl

/-- **What removing a document does**, to any tables. The objects of the other documents are left.
The document is not mentioned any more. In each table the rows of the other documents are left in
their order, with their owner, their bases and the entries of other documents. Removing documents
one after the other depends only on which documents they are: not on their order, and not on how
often each is removed. In tables without repeated keys all this is also what meeting the rows one by
one and changing the tables in place does. -/
theorem clear_exact (t : Index) (d e : String) :
    (t.clear d).objects = t.objects.filter (fun row => row.2.document != d) ∧
    ¬ (t.clear d).Mentions d ∧
    (∀ side, List.Forall₂ (Survives d) ((t.rows side).filter fun row => row.2.document != d)
      ((t.clear d).rows side)) ∧
    (t.clear d).clear d = t.clear d ∧
    (t.clear d).clear e = (t.clear e).clear d ∧
    (∀ documents others : List String, (∀ x, x ∈ documents ↔ x ∈ others) →
      documents.foldl clear t = others.foldl clear t) ∧
    (t.Keyed → t.clear d = t.sweep d) := by
  have hsame : ∀ documents others : List String, (∀ x, x ∈ documents ↔ x ∈ others) →
      documents.foldl clear t = others.foldl clear t := by
    intro documents others h
    rw [foldl_clear, foldl_clear]
    congr 1
    funext x
    rw [Bool.not_inj_iff, Bool.eq_iff_iff, List.contains_iff_mem, List.contains_iff_mem, h]
  have hmentions : ¬ (t.clear d).Mentions d := by
    rw [clear_eq_keep]
    apply not_mentions_keep
    exact bne_self_eq_false d
  refine ⟨rfl, hmentions, survives_clear t d, ?_, ?_, hsame,
    fun h => clear_eq_sweep h d⟩
  · exact hsame [d, d] [d] (by simp)
  · exact hsame [d, e] [e, d] fun x => by simp [or_comm]

/-- The class takes over the row that was made for its member. Removing the class takes the entry of
the member away with the row; removing the member leaves the row of the class without entries. -/
theorem clear_splitClass :
    (splitClass.read.clear "class").members.keys = ["A.x"] ∧
    ((splitClass.read.clear "member").members.get? "A").map MemberRow.entries = some [] ∧
    ¬ (splitClass.read.clear "class").Mentions "class" ∧
    (splitClass.read.clear "class").clear "member" =
      (splitClass.read.clear "member").clear "class" ∧
    splitClass.read.Keyed ∧
    splitClass.read.clear "class" = splitClass.read.sweep "class" := by
  obtain ⟨-, hmentions, -, -, hcomm, -, hsweep⟩ := clear_exact splitClass.read "class" "member"
  exact ⟨by decide +kernel, by decide +kernel, hmentions, hcomm, splitClass.keyed_read,
    hsweep splitClass.keyed_read⟩

end Index

end LuaDocs
