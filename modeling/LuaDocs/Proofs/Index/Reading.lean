import LuaDocs.Proofs.Index.Rows
import Mathlib.Data.List.Induction

/-!
# Reading documents into the index

Every document registers some objects, and a document that is read again registers the same
objects again. Where no full name is registered twice, an object has one document, and the row of
a key has an owner that does not depend on what else is read: the document of the object whose row
it is, if that is registered, and otherwise the document that touched the row first.
-/

namespace LuaDocs

namespace Index

variable {rs : List Registration} {r : Registration} {ts : List Touch} {key : String}
  {row : Option MemberRow} {side : Side} {row' : MemberRow} {t : Touch}

/-! ## A row after some touches -/

/-- The entries of a row; a missing row has none. -/
def entriesAt (row : Option MemberRow) : List Entry := row.elim [] MemberRow.entries

/-- The bases of a row and where they are looked up; a missing row has none. -/
def basesAt (row : Option MemberRow) : List String × Scope :=
  row.elim ([], .empty) fun row => (row.bases, row.scope)

theorem Touch.entries_apply (touch : Touch) (row : Option MemberRow) :
    (touch.apply row).entries = entriesAt row ++ touch.entry?.toList := by
  cases touch with
  | own document bases =>
    cases bases <;> cases row <;> simp [Touch.apply, entriesAt, Touch.entry?]
  | list entry => cases row <;> simp [Touch.apply, entriesAt, Touch.entry?]

theorem Touch.basesAt_apply (touch : Touch) (row : Option MemberRow) :
    basesAt (some (touch.apply row)) = touch.bases?.getD (basesAt row) := by
  cases touch with
  | own document bases =>
    cases bases <;> cases row <;> simp [Touch.apply, basesAt, Touch.bases?]
  | list entry => cases row <;> simp [Touch.apply, basesAt, Touch.bases?]

theorem Touch.document_apply (touch : Touch) (row : Option MemberRow) :
    (touch.apply row).document =
      touch.owner?.getD ((row.map MemberRow.document).getD touch.document) := by
  cases touch with
  | own document bases =>
    cases bases <;> cases row <;> simp [Touch.apply, Touch.owner?]
  | list entry => cases row <;> simp [Touch.apply, Touch.owner?]

theorem entriesAt_touchAll (row : Option MemberRow) (ts : List Touch) :
    entriesAt (touchAll row ts) = entriesAt row ++ ts.filterMap Touch.entry? := by
  induction ts generalizing row with
  | nil => simp
  | cons touch rest ih =>
    rw [touchAll_cons, ih]
    have hentries : entriesAt (some (touch.apply row)) = entriesAt row ++ touch.entry?.toList :=
      touch.entries_apply row
    rw [hentries, List.filterMap_cons, List.append_assoc]
    cases touch.entry? <;> rfl

theorem touchAll_eq_none_iff :
    touchAll row ts = none ↔ row = none ∧ ts = [] := by
  induction ts generalizing row with
  | nil => simp
  | cons touch rest ih => simp [ih]

/-- Touches that note no bases leave the bases of a row. -/
theorem basesAt_touchAll_of_none (h : ∀ t ∈ ts, t.bases? = none)
    (row : Option MemberRow) : basesAt (touchAll row ts) = basesAt row := by
  induction ts generalizing row with
  | nil => rfl
  | cons touch rest ih =>
    rw [touchAll_cons, ih (fun t ht => h t (List.mem_cons_of_mem _ ht)), touch.basesAt_apply,
      h touch List.mem_cons_self]
    rfl

/-- Where all values that `f` gives on a list are the same, that value is given after the first
element or by the first element alone. -/
theorem exists_mem_or_head {α β : Type} {f : α → Option β} {x : α} {xs : List α} {b : β}
    (hall : ∀ y ∈ xs, ∀ b', f y = some b' → b' = b) (hex : ∃ y ∈ x :: xs, f y = some b) :
    (∃ y ∈ xs, f y = some b) ∨ (f x = some b ∧ ∀ y ∈ xs, f y = none) := by
  by_cases hmem : ∃ y ∈ xs, f y = some b
  · exact .inl hmem
  · refine .inr ⟨?_, fun y hy => ?_⟩
    · obtain ⟨y, hy, hb⟩ := hex
      rcases List.mem_cons.mp hy with rfl | hy
      · exact hb
      · exact absurd ⟨y, hy, hb⟩ hmem
    · by_contra hne
      obtain ⟨b', hb'⟩ := Option.ne_none_iff_exists'.mp hne
      exact hmem ⟨y, hy, hall y hy b' hb' ▸ hb'⟩

/-- If all touches that note bases note the same ones, these are the bases of the row. -/
theorem basesAt_touchAll_of_mem {b : List String × Scope}
    (hall : ∀ t ∈ ts, ∀ b', t.bases? = some b' → b' = b) (hex : ∃ t ∈ ts, t.bases? = some b)
    (row : Option MemberRow) : basesAt (touchAll row ts) = b := by
  induction ts generalizing row with
  | nil => simp at hex
  | cons touch rest ih =>
    have hrest : ∀ t ∈ rest, ∀ b', t.bases? = some b' → b' = b :=
      fun t ht => hall t (List.mem_cons_of_mem _ ht)
    rw [touchAll_cons]
    rcases exists_mem_or_head hrest hex with hmem | ⟨hb, hnone⟩
    · exact ih hrest hmem _
    · rw [basesAt_touchAll_of_none hnone, touch.basesAt_apply, hb]
      rfl

/-- Touches that only list entries leave the owner of a row. -/
theorem owner_touchAll_of_none (h : ∀ t ∈ ts, t.owner? = none)
    {row : MemberRow} (hrow : touchAll (some row) ts = some row') :
    row'.document = row.document := by
  induction ts generalizing row with
  | nil =>
    rw [touchAll_nil] at hrow
    rw [Option.some.inj hrow]
  | cons touch rest ih =>
    rw [ih (fun t ht => h t (List.mem_cons_of_mem _ ht)) hrow, touch.document_apply,
      h touch List.mem_cons_self]
    rfl

/-- If the object of the row is entered by one document only, that document owns the row. -/
theorem owner_touchAll_of_mem {d : String}
    (hall : ∀ t ∈ ts, ∀ d', t.owner? = some d' → d' = d) (hex : ∃ t ∈ ts, t.owner? = some d)
    (hrow : touchAll row ts = some row') :
    row'.document = d := by
  induction ts generalizing row with
  | nil => simp at hex
  | cons touch rest ih =>
    have hrest : ∀ t ∈ rest, ∀ d', t.owner? = some d' → d' = d :=
      fun t ht => hall t (List.mem_cons_of_mem _ ht)
    rw [touchAll_cons] at hrow
    rcases exists_mem_or_head hrest hex with hmem | ⟨hd, hnone⟩
    · exact ih hrest hmem hrow
    · rw [owner_touchAll_of_none hnone hrow, touch.document_apply, hd]
      rfl

/-- The owner of a new row is a document that touched it. -/
theorem exists_touch_of_owner (hrow : touchAll row ts = some row') :
    (∃ t ∈ ts, t.document = row'.document) ∨ row.map MemberRow.document = some row'.document := by
  induction ts generalizing row with
  | nil =>
    rw [touchAll_nil] at hrow
    exact .inr (by rw [hrow]; rfl)
  | cons touch rest ih =>
    rcases ih hrow with ⟨t, ht, hd⟩ | hd
    · exact .inl ⟨t, List.mem_cons_of_mem _ ht, hd⟩
    · have hd : (touch.apply row).document = row'.document := by simpa using hd
      rw [touch.document_apply] at hd
      cases touch with
      | own document bases => exact .inl ⟨_, List.mem_cons_self, hd⟩
      | list entry =>
        cases row with
        | none => exact .inl ⟨_, List.mem_cons_self, hd⟩
        | some row => exact .inr (congrArg some hd)

/-! ## A row after some registrations -/

/-- What registrations do to the row of a key, one after the other. -/
def touchesOf (rs : List Registration) (side : Side) (key : String) : List Touch :=
  rs.flatMap fun r => r.touches side key

theorem row_foldl_register (t : Index) (rs : List Registration) (side : Side) (key : String) :
    (rs.foldl register t).row side key = touchAll (t.row side key) (touchesOf rs side key) := by
  induction rs generalizing t with
  | nil => rfl
  | cons r rest ih =>
    rw [List.foldl_cons, ih, row_register, ← touchAll_append]
    rfl

theorem Keyed.foldl_register {t : Index} (h : Keyed t) (rs : List Registration) :
    Keyed (rs.foldl Index.register t) := by
  induction rs generalizing t with
  | nil => exact h
  | cons r rest ih => exact ih (h.register r)

theorem Registration.mem_touches :
    t ∈ r.touches side key ↔
      (r.fullname = key ∧ t = .own r.row.document (r.notedAt side)) ∨
        (r.ListedAt side key ∧ t = .list r.entry) := by
  simp only [Registration.touches, List.mem_append]
  by_cases hf : r.fullname = key <;> by_cases hl : r.ListedAt side key <;> simp [hf, hl]

theorem mem_touchesOf :
    t ∈ touchesOf rs side key ↔ ∃ r ∈ rs, t ∈ r.touches side key :=
  List.mem_flatMap

theorem Registration.document_of_mem_touches
    (h : t ∈ r.touches side key) : t.document = r.row.document := by
  rcases Registration.mem_touches.mp h with ⟨-, rfl⟩ | ⟨-, rfl⟩ <;> rfl

/-- What is listed in a row are the objects that are listed under its key. -/
theorem mem_entries_touchesOf {e : Entry} :
    e ∈ (touchesOf rs side key).filterMap Touch.entry? ↔
      ∃ r ∈ rs, r.ListedAt side key ∧ r.entry = e := by
  simp only [List.mem_filterMap, mem_touchesOf]
  constructor
  · rintro ⟨t, ⟨r, hr, ht⟩, he⟩
    rcases Registration.mem_touches.mp ht with ⟨-, rfl⟩ | ⟨hl, rfl⟩
    · simp [Touch.entry?] at he
    · exact ⟨r, hr, hl, by simpa [Touch.entry?] using he⟩
  · rintro ⟨r, hr, hl, rfl⟩
    exact ⟨.list r.entry, ⟨r, hr, Registration.mem_touches.mpr (.inr ⟨hl, rfl⟩)⟩, rfl⟩

theorem mem_entriesAt_touchesOf {e : Entry} :
    e ∈ entriesAt (touchAll none (touchesOf rs side key)) ↔
      ∃ r ∈ rs, r.ListedAt side key ∧ r.entry = e := by
  rw [entriesAt_touchAll, ← mem_entries_touchesOf]
  simp [entriesAt]

/-- No full name is registered twice. -/
def Distinct (rs : List Registration) : Prop :=
  ∀ r ∈ rs, ∀ r' ∈ rs, r.fullname = r'.fullname → r = r'

theorem Distinct.of_subset {rs' : List Registration} (h : Distinct rs)
    (hsub : ∀ r ∈ rs', r ∈ rs) : Distinct rs' :=
  fun r hr r' hr' => h r (hsub r hr) r' (hsub r' hr')

/-- The row of a registered object belongs to its document. -/
theorem Distinct.owner_eq (h : Distinct rs)
    (hr : r ∈ rs) (hrow : touchAll row (touchesOf rs side r.fullname) = some row') :
    row'.document = r.row.document := by
  refine owner_touchAll_of_mem ?_ ⟨.own r.row.document (r.notedAt side), ?_, rfl⟩ hrow
  · intro t ht d hd
    obtain ⟨r', hr', ht⟩ := mem_touchesOf.mp ht
    rcases Registration.mem_touches.mp ht with ⟨hf, rfl⟩ | ⟨-, rfl⟩
    · rw [← Option.some.inj hd, h r' hr' r hr hf]
    · simp [Touch.owner?] at hd
  · exact mem_touchesOf.mpr ⟨r, hr, Registration.mem_touches.mpr (.inl ⟨rfl, rfl⟩)⟩

/-- The row of a registered object has the bases that are noted with the object. -/
theorem Distinct.basesAt_eq (h : Distinct rs) (hr : r ∈ rs) (side : Side) (row : Option MemberRow) :
    basesAt (touchAll row (touchesOf rs side r.fullname)) =
      (r.notedAt side).getD (basesAt row) := by
  have hall : ∀ t ∈ touchesOf rs side r.fullname, ∀ b, t.bases? = some b →
      r.notedAt side = some b := by
    intro t ht b hb
    obtain ⟨r', hr', ht⟩ := mem_touchesOf.mp ht
    rcases Registration.mem_touches.mp ht with ⟨hf, rfl⟩ | ⟨-, rfl⟩
    · rw [← h r' hr' r hr hf]
      exact hb
    · simp [Touch.bases?] at hb
  cases hn : r.notedAt side with
  | none =>
    refine basesAt_touchAll_of_none (fun t ht => ?_) row
    by_contra hne
    obtain ⟨b, hb⟩ := Option.ne_none_iff_exists'.mp hne
    rw [hn] at hall
    simpa using hall t ht b hb
  | some b =>
    refine basesAt_touchAll_of_mem (fun t ht b' hb' => ?_)
      ⟨.own r.row.document (r.notedAt side), ?_, hn⟩ row
    · exact (Option.some.inj ((hn.symm.trans (hall t ht b' hb')))).symm
    · exact mem_touchesOf.mpr ⟨r, hr, Registration.mem_touches.mpr (.inl ⟨rfl, rfl⟩)⟩

/-- The row of what is not registered keeps its owner and its bases. -/
theorem owner?_eq_none_of_not_registered
    (h : ∀ r ∈ rs, r.fullname ≠ key) (ht : t ∈ touchesOf rs side key) :
    t.owner? = none ∧ t.bases? = none := by
  obtain ⟨r, hr, ht⟩ := mem_touchesOf.mp ht
  rcases Registration.mem_touches.mp ht with ⟨hf, -⟩ | ⟨-, rfl⟩
  · exact absurd hf (h r hr)
  · exact ⟨rfl, rfl⟩

/-- A registered object is found in the table of objects. -/
theorem Distinct.get?_objects (h : Distinct rs)
    (hr : r ∈ rs) (t : Index) : (rs.foldl register t).objects.get? r.fullname = some r.row := by
  induction rs using List.reverseRecOn with
  | nil => simp at hr
  | append_singleton rest last ih =>
    rw [List.foldl_append, List.foldl_cons, List.foldl_nil, get?_objects_register]
    by_cases hlast : last.fullname = r.fullname
    · rw [if_pos hlast, h last (by simp) r hr hlast]
    · rw [if_neg hlast]
      have hrest : r ∈ rest := by
        rcases List.mem_append.mp hr with hr | hr
        · exact hr
        · exact absurd (List.mem_singleton.mp hr ▸ rfl) hlast
      exact ih (h.of_subset fun r hr => List.mem_append_left _ hr) hrest

theorem get?_objects_of_not_registered (h : ∀ r ∈ rs, r.fullname ≠ key) (t : Index) :
    (rs.foldl register t).objects.get? key = t.objects.get? key := by
  induction rs generalizing t with
  | nil => rfl
  | cons r rest ih =>
    rw [List.foldl_cons, ih (fun r hr => h r (List.mem_cons_of_mem _ hr)),
      get?_objects_register, if_neg (h r List.mem_cons_self)]

/-! ## What documents register -/

/-- The registrations of some documents. -/
def registered (documents : Table (List Registration)) : List Registration :=
  documents.flatMap Prod.snd

/-- The registrations of documents, in the order in which the documents are read. -/
structure Assignment where
  /-- The documents and what each of them registers. -/
  documents : Table (List Registration)
  /-- A document is read once. -/
  keyed : Table.Keyed documents
  /-- A document registers objects as its own. -/
  belongs : ∀ doc ∈ documents, ∀ r ∈ doc.2, r.row.document = doc.1
  /-- No full name is registered twice. -/
  distinct : ((registered documents).map Registration.fullname).Nodup

/-- The tables after documents have been read one after the other. -/
def readDocuments (t : Index) (documents : Table (List Registration)) : Index :=
  documents.foldl (fun t doc => doc.2.foldl register t) t

theorem readDocuments_eq (t : Index) (documents : Table (List Registration)) :
    readDocuments t documents = (registered documents).foldl register t := by
  induction documents generalizing t with
  | nil => rfl
  | cons doc rest ih =>
    rw [registered, List.flatMap_cons, List.foldl_append, ← registered, ← ih]
    rfl

namespace Assignment

/-- All registrations. -/
def all (a : Assignment) : List Registration := registered a.documents

/-- What a document registers. -/
def registrations (a : Assignment) (document : String) : List Registration :=
  (a.documents.get? document).getD []

/-- The tables after all documents have been read. -/
def read (a : Assignment) : Index := readDocuments empty a.documents

/-- The tables after a document has been read again: what belongs to it is removed, and the
document registers the same objects as before. -/
def reread (a : Assignment) (t : Index) (document : String) : Index :=
  (a.registrations document).foldl register (t.clear document)

theorem distinct_all (a : Assignment) : Distinct a.all :=
  fun _ hr _ hr' => List.inj_on_of_nodup_map a.distinct hr hr'

theorem mem_registrations {a : Assignment} {d : String} :
    r ∈ a.registrations d ↔ r ∈ a.all ∧ r.row.document = d := by
  unfold registrations all registered
  constructor
  · intro hr
    cases hd : a.documents.get? d with
    | none => simp [hd] at hr
    | some rs =>
      have hr : r ∈ rs := by simpa [hd] using hr
      have hmem : (d, rs) ∈ a.documents := Table.mem_of_get? hd
      exact ⟨List.mem_flatMap.mpr ⟨_, hmem, hr⟩, a.belongs _ hmem r hr⟩
  · rintro ⟨hr, rfl⟩
    obtain ⟨doc, hdoc, hr⟩ := List.mem_flatMap.mp hr
    have hget : a.documents.get? r.row.document = some doc.2 := by
      rw [a.belongs doc hdoc r hr]
      exact Table.get?_of_mem a.keyed hdoc
    simpa [hget] using hr

theorem row_read (a : Assignment) (side : Side) (key : String) :
    a.read.row side key = touchAll none (touchesOf a.all side key) := by
  rw [read, readDocuments_eq, row_foldl_register, row_empty]
  rfl

theorem keyed_read (a : Assignment) : Keyed a.read := by
  rw [read, readDocuments_eq]
  exact keyed_empty.foldl_register _

theorem row_reread (a : Assignment) {t : Index} (h : Keyed t) (d : String) (side : Side)
    (key : String) :
    (a.reread t d).row side key =
      touchAll (clearRow d (t.row side key)) (touchesOf (a.registrations d) side key) := by
  rw [reread, row_foldl_register, row_clear h]

theorem keyed_reread (a : Assignment) {t : Index} (h : Keyed t) (d : String) :
    Keyed (a.reread t d) :=
  (h.clear d).foldl_register _

theorem keyed_rereads (a : Assignment) (rereads : List String) :
    Keyed (rereads.foldl a.reread a.read) := by
  have : ∀ t : Index, Keyed t → Keyed (rereads.foldl a.reread t) := by
    induction rereads with
    | nil => exact fun _ ht => ht
    | cons d rest ih => exact fun t ht => ih _ (a.keyed_reread ht d)
  exact this _ a.keyed_read

end Assignment

/-- A class is described in one document and a member of it in another one, which is read first. -/
def splitClass : Assignment where
  documents :=
    [("member", [⟨"A.x", ⟨"member", .data, false, "lua-A.x", none⟩, none, .member⟩]),
      ("class", [⟨"A", ⟨"class", .class_, false, "lua-A", none⟩, some (["B"], .empty), .member⟩])]
  keyed := by simp [Table.Keyed, Table.keys]
  belongs := by simp
  distinct := by simp [registered]

end Index

end LuaDocs
