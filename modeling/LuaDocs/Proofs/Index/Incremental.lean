import LuaDocs.Proofs.Index.Reading

/-!
# Reading documents again

A document is read again when it has changed: what belongs to it is removed from the tables, and
then it registers its objects as before. One would expect the tables to list the same objects as
after the first reading. They do not always: a row is owned by one document and may hold entries of
others, and removing the owner drops the row with all its entries. The entries of another document
come back only when that document is read again as well.
-/

namespace LuaDocs

namespace Index

/-- Each time the document `owner` is read again, the document `d` is read again later. -/
def FollowsEach (rereads : List String) (owner d : String) : Prop :=
  ∀ after, owner :: after <:+ rereads → d ∈ after

/-- The entries of the document `d` in a row of the document `owner` are there after documents
have been read again. -/
def Kept (rereads : List String) (owner d : String) : Prop :=
  d = owner ∨ FollowsEach rereads owner d

/-- The full names that a row lists. -/
def namesAt (row : Option MemberRow) : List String := (entriesAt row).map Entry.fullname

theorem mem_namesAt_some {row : MemberRow} {name : String} :
    name ∈ namesAt (some row) ↔ ∃ e ∈ row.entries, e.fullname = name :=
  List.mem_map

theorem kept_nil (owner d : String) : Kept [] owner d :=
  .inr fun after h => by simp at h

theorem kept_concat_owner (rereads : List String) (owner d : String) :
    Kept (rereads ++ [owner]) owner d ↔ d = owner := by
  refine ⟨?_, .inl⟩
  rintro (h | h)
  · exact h
  · have : d ∈ ([] : List String) := h [] (List.suffix_append rereads [owner])
    simp at this

theorem kept_concat_of_ne {owner e : String} (he : e ≠ owner) (rereads : List String)
    (d : String) : Kept (rereads ++ [e]) owner d ↔ d = e ∨ Kept rereads owner d := by
  -- A re-read of the owner before the last re-read is followed by what followed it and by `e`.
  have hfollows : FollowsEach (rereads ++ [e]) owner d ↔ d = e ∨ FollowsEach rereads owner d := by
    constructor
    · intro h
      by_cases hd : d = e
      · exact .inl hd
      · refine .inr fun after hafter => ?_
        have hmem : d ∈ after ++ [e] :=
          h (after ++ [e]) (List.suffix_concat_iff.mpr (.inr ⟨owner :: after, rfl, hafter⟩))
        simpa [hd] using hmem
    · rintro h after hafter
      obtain hnil | ⟨before, hcons, hbefore⟩ := List.suffix_concat_iff.mp hafter
      · simp at hnil
      cases before with
      | nil =>
        have : owner = e := by simpa using (List.cons.inj hcons).1
        exact absurd this.symm he
      | cons x rest =>
        obtain ⟨rfl, rfl⟩ := List.cons.inj hcons
        rcases h with rfl | h
        · simp
        · exact List.mem_append_left _ (h rest hbefore)
  rw [Kept, Kept, hfollows]
  exact or_left_comm

namespace Assignment

variable {a : Assignment} {side : Side} {key : String} {row₀ : MemberRow}

/-- What the row lists after the first reading. -/
theorem mem_entries_read (h : a.read.row side key = some row₀) {e : Entry} :
    e ∈ row₀.entries ↔ ∃ r ∈ a.all, r.ListedAt side key ∧ r.entry = e := by
  rw [← mem_entriesAt_touchesOf, ← row_read, h]
  rfl

/-- What a document lists in the row is what the row lists for it after the first reading. -/
theorem exists_registration_iff (h : a.read.row side key = some row₀) {d : String} {e : Entry} :
    (∃ r ∈ a.registrations d, r.ListedAt side key ∧ r.entry = e) ↔
      e ∈ row₀.entries ∧ e.document = d := by
  rw [mem_entries_read h]
  constructor
  · rintro ⟨r, hr, hl, rfl⟩
    obtain ⟨hall, hd⟩ := mem_registrations.mp hr
    exact ⟨⟨r, hall, hl, rfl⟩, hd⟩
  · rintro ⟨⟨r, hr, hl, rfl⟩, hd⟩
    exact ⟨r, mem_registrations.mpr ⟨hr, hd⟩, hl, rfl⟩

/-- A document that registers the object of the row owns the row. -/
theorem document_of_registered (h : a.read.row side key = some row₀) {r : Registration}
    (hr : r ∈ a.all) (hkey : r.fullname = key) : r.row.document = row₀.document := by
  subst hkey
  rw [row_read] at h
  exact (a.distinct_all.owner_eq hr h).symm

/-- The owner of the row touches it. -/
theorem touchesOf_owner_ne_nil (h : a.read.row side key = some row₀) :
    touchesOf (a.registrations row₀.document) side key ≠ [] := by
  rw [row_read] at h
  rcases exists_touch_of_owner h with ⟨t, ht, hd⟩ | hd
  · obtain ⟨r, hr, ht⟩ := mem_touchesOf.mp ht
    have hdoc : r.row.document = row₀.document := by
      rw [← hd, Registration.document_of_mem_touches ht]
    have hmem : t ∈ touchesOf (a.registrations row₀.document) side key :=
      mem_touchesOf.mpr ⟨r, mem_registrations.mpr ⟨hr, hdoc⟩, ht⟩
    exact List.ne_nil_of_mem hmem
  · simp at hd

/-- The owner alone gives the row its bases. -/
theorem basesAt_owner (h : a.read.row side key = some row₀) :
    basesAt (touchAll none (touchesOf (a.registrations row₀.document) side key)) =
      (row₀.bases, row₀.scope) := by
  have hrow : (row₀.bases, row₀.scope) = basesAt (touchAll none (touchesOf a.all side key)) := by
    rw [← row_read, h]
    rfl
  rw [hrow]
  have hsub : ∀ r ∈ a.registrations row₀.document, r ∈ a.all :=
    fun r hr => (mem_registrations.mp hr).1
  by_cases hreg : ∃ r ∈ a.all, r.fullname = key
  · obtain ⟨r, hr, rfl⟩ := hreg
    have hown : r ∈ a.registrations row₀.document :=
      mem_registrations.mpr ⟨hr, document_of_registered h hr rfl⟩
    rw [a.distinct_all.basesAt_eq hr, (a.distinct_all.of_subset hsub).basesAt_eq hown]
  · have hno : ∀ r ∈ a.all, r.fullname ≠ key := fun r hr hf => hreg ⟨r, hr, hf⟩
    rw [basesAt_touchAll_of_none fun t ht => (owner?_eq_none_of_not_registered hno ht).2,
      basesAt_touchAll_of_none fun t ht =>
        (owner?_eq_none_of_not_registered (fun r hr => hno r (hsub r hr)) ht).2]

/-- A row after some documents have been read again, compared with the row `row₀` after the first
reading. -/
structure Reread (row₀ : MemberRow) (rereads : List String) (row : MemberRow) : Prop where
  document : row.document = row₀.document
  bases : (row.bases, row.scope) = (row₀.bases, row₀.scope)
  /-- The entries of the owner are there, and those of the documents that have been read again
  since the owner was. -/
  entries : ∀ e, e ∈ row.entries ↔ e ∈ row₀.entries ∧ Kept rereads row₀.document e.document

/-- Reading the owner again makes the row anew, with the entries of the owner only. -/
theorem reread_owner (h : a.read.row side key = some row₀) (rereads : List String) :
    ∃ row, touchAll none (touchesOf (a.registrations row₀.document) side key) = some row ∧
      Reread row₀ (rereads ++ [row₀.document]) row := by
  cases hrow : touchAll none (touchesOf (a.registrations row₀.document) side key) with
  | none => exact absurd (touchAll_eq_none_iff.mp hrow).2 (touchesOf_owner_ne_nil h)
  | some row =>
    refine ⟨row, rfl, ?_, ?_, fun e => ?_⟩
    · rcases exists_touch_of_owner hrow with ⟨t, ht, hd⟩ | hd
      · obtain ⟨r, hr, ht⟩ := mem_touchesOf.mp ht
        rw [← hd, Registration.document_of_mem_touches ht, (mem_registrations.mp hr).2]
      · simp at hd
    · have hbases := basesAt_owner h
      rwa [hrow] at hbases
    · have hentries : e ∈ row.entries ↔
          ∃ r ∈ a.registrations row₀.document, r.ListedAt side key ∧ r.entry = e := by
        rw [← mem_entriesAt_touchesOf, hrow]
        rfl
      rw [hentries, exists_registration_iff h, kept_concat_owner]

/-- Reading another document again leaves the row, and puts the entries of that document back. -/
theorem reread_other (h : a.read.row side key = some row₀) {rereads : List String}
    {row : MemberRow} (hrow : Reread row₀ rereads row) {d : String} (hd : d ≠ row₀.document) :
    ∃ row', touchAll (some (row.without d)) (touchesOf (a.registrations d) side key) = some row' ∧
      Reread row₀ (rereads ++ [d]) row' := by
  have hno : ∀ r ∈ a.registrations d, r.fullname ≠ key := by
    intro r hr hf
    obtain ⟨hall, hdoc⟩ := mem_registrations.mp hr
    exact hd (hdoc ▸ document_of_registered h hall hf)
  have hnone : ∀ t ∈ touchesOf (a.registrations d) side key, t.owner? = none ∧ t.bases? = none :=
    fun t ht => owner?_eq_none_of_not_registered hno ht
  cases htouch : touchAll (some (row.without d)) (touchesOf (a.registrations d) side key) with
  | none => simp [touchAll_eq_none_iff] at htouch
  | some row' =>
    refine ⟨row', rfl, ?_, ?_, fun e => ?_⟩
    · rw [owner_touchAll_of_none (fun t ht => (hnone t ht).1) htouch]
      exact hrow.document
    · have hbases := basesAt_touchAll_of_none (fun t ht => (hnone t ht).2) (some (row.without d))
      rw [htouch] at hbases
      exact hbases.trans hrow.bases
    · have hentries : row'.entries =
          entriesWithout d row.entries ++
            (touchesOf (a.registrations d) side key).filterMap Touch.entry? := by
        have := entriesAt_touchAll (some (row.without d)) (touchesOf (a.registrations d) side key)
        rwa [htouch] at this
      rw [hentries, List.mem_append, mem_entries_touchesOf, exists_registration_iff h,
        kept_concat_of_ne hd]
      simp only [entriesWithout, List.mem_filter, bne_iff_ne, ne_eq, hrow.entries e]
      grind

/-- **Reading again, row by row.** -/
theorem row_rereads (h : a.read.row side key = some row₀) (rereads : List String) :
    ∃ row, (rereads.foldl a.reread a.read).row side key = some row ∧
      Reread row₀ rereads row := by
  induction rereads using List.reverseRecOn with
  | nil => exact ⟨row₀, h, rfl, rfl, fun e => by simp [kept_nil]⟩
  | append_singleton rereads d ih =>
    obtain ⟨row, hrow, hinv⟩ := ih
    have hkeyed : Keyed (rereads.foldl a.reread a.read) := a.keyed_rereads rereads
    rw [List.foldl_append, List.foldl_cons, List.foldl_nil, a.row_reread hkeyed, hrow]
    by_cases hd : d = row₀.document
    · subst hd
      have hclear : clearRow row₀.document (some row) = none := by
        simp [clearRow, Option.filter, hinv.document]
      rw [hclear]
      exact reread_owner h rereads
    · have hclear : clearRow d (some row) = some (row.without d) := by
        have : ¬ row.document = d := fun e => hd (e ▸ hinv.document)
        simp [clearRow, Option.filter, this]
      rw [hclear]
      exact reread_other h hinv hd

/-- A row that no document touches stays missing. -/
theorem row_rereads_of_none (h : a.read.row side key = none) (rereads : List String) :
    (rereads.foldl a.reread a.read).row side key = none := by
  have hnil : touchesOf a.all side key = [] := by
    rw [row_read] at h
    exact (touchAll_eq_none_iff.mp h).2
  have hnone : ∀ d, touchesOf (a.registrations d) side key = [] := by
    intro d
    refine List.eq_nil_iff_forall_not_mem.mpr fun t ht => ?_
    obtain ⟨r, hr, ht⟩ := mem_touchesOf.mp ht
    have : t ∈ touchesOf a.all side key :=
      mem_touchesOf.mpr ⟨r, (mem_registrations.mp hr).1, ht⟩
    simp [hnil] at this
  induction rereads using List.reverseRecOn with
  | nil => exact h
  | append_singleton rereads d ih =>
    rw [List.foldl_append, List.foldl_cons, List.foldl_nil,
      a.row_reread (a.keyed_rereads rereads), ih, hnone d]
    rfl

/-- An entry is told by its name, as no full name is registered twice. -/
theorem entry_eq_of_fullname_eq (h : a.read.row side key = some row₀) {e e' : Entry}
    (he : e ∈ row₀.entries) (he' : e' ∈ row₀.entries) (hname : e.fullname = e'.fullname) :
    e = e' := by
  obtain ⟨r, hr, -, rfl⟩ := (mem_entries_read h).mp he
  obtain ⟨r', hr', -, rfl⟩ := (mem_entries_read h).mp he'
  rw [a.distinct_all r hr r' hr' hname]

/-- **Which re-reads lose nothing.** The bases are the same after any re-reads. A row lists the same
names as after the first reading exactly if every document that lists something in it owns it, or
is read again each time after the owner is. -/
theorem listed_rereads_iff (a : Assignment) (rereads : List String) (key : String) :
    let before := a.read
    let after := rereads.foldl a.reread a.read
    (after.members.get? key).map MemberRow.bases = (before.members.get? key).map MemberRow.bases ∧
      ∀ side,
        (∀ name, name ∈ namesAt (after.row side key) ↔ name ∈ namesAt (before.row side key)) ↔
          ∀ row, before.row side key = some row →
            ∀ e ∈ row.entries, Kept rereads row.document e.document := by
  intro before after
  refine ⟨?_, fun side => ?_⟩
  · cases h : before.row .members key with
    | none =>
      have hafter : after.row .members key = none := row_rereads_of_none h rereads
      exact congrArg (Option.map MemberRow.bases) (hafter.trans h.symm)
    | some row₀ =>
      obtain ⟨row, hrow, hinv⟩ := row_rereads h rereads
      have hget : after.members.get? key = some row := hrow
      have hget₀ : before.members.get? key = some row₀ := h
      rw [hget, hget₀]
      exact congrArg some (Prod.mk.inj hinv.bases).1
  · cases h : before.row side key with
    | none =>
      have hafter : after.row side key = none := row_rereads_of_none h rereads
      simp [hafter]
    | some row₀ =>
      obtain ⟨row, hrow, hinv⟩ := row_rereads h rereads
      have hafter : after.row side key = some row := hrow
      simp only [hafter, mem_namesAt_some, Option.some.injEq, forall_eq']
      constructor
      · intro hnames e he
        obtain ⟨e', he', hname⟩ := (hnames e.fullname).mpr ⟨e, he, rfl⟩
        obtain ⟨he', hkept⟩ := (hinv.entries e').mp he'
        rwa [← entry_eq_of_fullname_eq h he' he hname]
      · intro hkept name
        refine exists_congr fun e => and_congr_left fun _ => ?_
        rw [hinv.entries e]
        exact and_iff_left_of_imp (hkept e)

example :
    namesAt (splitClass.read.row .members "A") = ["A.x"] ∧
      namesAt ((splitClass.reread splitClass.read "class").row .members "A") = [] := by
  cbv

end Assignment

end Index

end LuaDocs
