import LuaDocs.Proofs.Index.Reading
import Mathlib.Data.List.Perm.Basic

/-!
# Reading documents in parallel

Two workers read the documents of a project, each from empty tables, and their tables are merged.
The objects and the entries of every row are then those that one process finds. The bases of a
class need not be: merging into a row that is there adds entries only, so the bases are lost if the
worker that is merged first has made the row of the class for one of its members.
-/

namespace LuaDocs

namespace Index

/-- The tables of a worker that reads the documents `first` and of one that reads the documents
`second`, merged into empty tables in this order. -/
def mergeBatches (first second : Table (List Registration)) : Index :=
  (empty.merge first.keys (readDocuments empty first)).merge second.keys
    (readDocuments empty second)

theorem keyed_readDocuments (documents : Table (List Registration)) :
    Keyed (readDocuments empty documents) := by
  rw [readDocuments_eq]
  exact keyed_empty.foldl_register _

theorem row_readDocuments (documents : Table (List Registration)) (side : Side) (key : String) :
    (readDocuments empty documents).row side key =
      touchAll none (touchesOf (registered documents) side key) := by
  rw [readDocuments_eq, row_foldl_register, row_empty]

/-! ## Merging the rows of workers -/

/-- Two rows as one: the first one, if there is one, with the entries of both. -/
def joined (mine other : Option MemberRow) : Option MemberRow :=
  match mine, other with
  | some mine, some other => some { mine with entries := mine.entries ++ other.entries }
  | mine, none => mine
  | none, other => other

theorem entriesAt_joined (mine other : Option MemberRow) :
    entriesAt (joined mine other) = entriesAt mine ++ entriesAt other := by
  cases mine <;> cases other <;> simp [joined, entriesAt]

theorem joined_eq_none_iff {mine other : Option MemberRow} :
    joined mine other = none ↔ mine = none ∧ other = none := by
  cases mine <;> cases other <;> simp [joined]

theorem basesAt_joined_some (mine : MemberRow) (other : Option MemberRow) :
    basesAt (joined (some mine) other) = basesAt (some mine) := by
  cases other <;> rfl

theorem joined_none (other : Option MemberRow) : joined none other = other := by
  cases other <;> rfl

/-- Everything in the tables of a worker belongs to the documents that it has read, so merging
leaves nothing of it out. -/
theorem mergeRow_eq_joined {documents : List String} {rs : List Registration}
    (h : ∀ r ∈ rs, r.row.document ∈ documents) (side : Side) (key : String)
    (mine : Option MemberRow) :
    mergeRow documents mine (touchAll none (touchesOf rs side key)) =
      joined mine (touchAll none (touchesOf rs side key)) := by
  cases hrow : touchAll none (touchesOf rs side key) with
  | none => cases mine <;> rfl
  | some row =>
    have howner : row.document ∈ documents := by
      rcases exists_touch_of_owner hrow with ⟨t, ht, hd⟩ | hd
      · obtain ⟨r, hr, ht⟩ := mem_touchesOf.mp ht
        rw [← hd, Registration.document_of_mem_touches ht]
        exact h r hr
      · simp at hd
    have hentries : entriesOf documents row.entries = row.entries := by
      refine List.filter_eq_self.mpr fun e he => ?_
      have he : e ∈ entriesAt (touchAll none (touchesOf rs side key)) := by rwa [hrow]
      obtain ⟨r, hr, -, rfl⟩ := mem_entriesAt_touchesOf.mp he
      simpa [Registration.entry] using h r hr
    cases mine <;> simp [mergeRow, joinRow, joined, howner, hentries]

section Batches

variable {a : Assignment} {first second : Table (List Registration)}

theorem perm_registered (h : a.documents.Perm (first ++ second)) :
    a.all.Perm (registered first ++ registered second) := by
  have happ : registered first ++ registered second = registered (first ++ second) :=
    List.flatMap_append.symm
  rw [happ]
  exact h.flatMap_right _

theorem mem_all_iff (h : a.documents.Perm (first ++ second)) {r : Registration} :
    r ∈ a.all ↔ r ∈ registered first ∨ r ∈ registered second := by
  rw [(perm_registered h).mem_iff, List.mem_append]

/-- What one worker registers, the other does not. -/
theorem fullname_ne (h : a.documents.Perm (first ++ second)) {r r' : Registration}
    (hr : r ∈ registered first) (hr' : r' ∈ registered second) : r.fullname ≠ r'.fullname := by
  have hnodup : ((registered first ++ registered second).map Registration.fullname).Nodup :=
    ((perm_registered h).map _).nodup_iff.mp a.distinct
  rw [List.map_append] at hnodup
  intro heq
  exact (List.disjoint_of_nodup_append hnodup) (List.mem_map_of_mem hr)
    (heq ▸ List.mem_map_of_mem hr')

/-- The documents that a worker has read are those of its registrations. -/
theorem document_mem_keys {documents : Table (List Registration)}
    (h : ∀ doc ∈ documents, doc ∈ a.documents) {r : Registration} (hr : r ∈ registered documents) :
    r.row.document ∈ documents.keys := by
  obtain ⟨doc, hdoc, hr⟩ := List.mem_flatMap.mp hr
  rw [a.belongs doc (h doc hdoc) r hr]
  exact List.mem_map.mpr ⟨doc, hdoc, rfl⟩

theorem document_mem_first (h : a.documents.Perm (first ++ second)) :
    ∀ r ∈ registered first, r.row.document ∈ first.keys :=
  fun _ => document_mem_keys fun _ hdoc => h.mem_iff.mpr (List.mem_append_left _ hdoc)

theorem document_mem_second (h : a.documents.Perm (first ++ second)) :
    ∀ r ∈ registered second, r.row.document ∈ second.keys :=
  fun _ => document_mem_keys fun _ hdoc => h.mem_iff.mpr (List.mem_append_right _ hdoc)

/-- **Merging the batches, row by row.** -/
theorem row_mergeBatches (h : a.documents.Perm (first ++ second)) (side : Side) (key : String) :
    (mergeBatches first second).row side key =
      joined (touchAll none (touchesOf (registered first) side key))
        (touchAll none (touchesOf (registered second) side key)) := by
  rw [mergeBatches, row_merge _ _ (keyed_readDocuments second),
    row_merge _ _ (keyed_readDocuments first), row_empty, row_readDocuments, row_readDocuments,
    mergeRow_eq_joined (document_mem_first h), mergeRow_eq_joined (document_mem_second h),
    joined_none]

/-! ## Bases -/

/-- The bases of a class are lost in merging: the class is described by the worker that is merged
second, and the worker that is merged first lists a member of it. -/
def BasesLost (first second : Table (List Registration)) (key : String) : Prop :=
  (∃ r ∈ registered second, r.fullname = key ∧ r.noted ≠ none) ∧
    ∃ r ∈ registered first, r.ListedAt .members key

theorem touchesOf_eq_nil_iff {rs : List Registration} {side : Side} {key : String} :
    touchesOf rs side key = [] ↔ ∀ r ∈ rs, r.fullname ≠ key ∧ ¬ r.ListedAt side key := by
  simp only [touchesOf, List.flatMap_eq_nil_iff, Registration.touches, List.append_eq_nil_iff]
  refine forall₂_congr fun r _ => and_congr ?_ ?_
  · by_cases hf : r.fullname = key <;> simp [hf]
  · by_cases hl : r.ListedAt side key <;> simp [hl]

/-- Bases that are noted are not the bases of a new row. -/
theorem Registration.noted_getD_eq_iff {r : Registration} :
    r.noted.getD (basesAt none) = basesAt none ↔ r.noted = none := by
  constructor
  · intro h
    cases hn : r.noted with
    | none => rfl
    | some b =>
      have hb : b.1.isEmpty = false := by
        simpa using (Option.filter_eq_some_iff.mp hn).2
      rw [hn] at h
      have : b = ([], .empty) := h
      simp [this] at hb
  · intro h
    rw [h]
    rfl

theorem basesAt_of_not_registered {rs : List Registration} {side : Side} {key : String}
    (h : ∀ r ∈ rs, r.fullname ≠ key) :
    basesAt (touchAll none (touchesOf rs side key)) = basesAt none :=
  basesAt_touchAll_of_none (fun _ ht => (owner?_eq_none_of_not_registered h ht).2) none

theorem basesAt_mergeBatches_iff (h : a.documents.Perm (first ++ second)) (key : String) :
    basesAt ((mergeBatches first second).row .members key) = basesAt (a.read.row .members key) ↔
      ¬ BasesLost first second key := by
  rw [row_mergeBatches h, a.row_read]
  have hfirst : ∀ r ∈ registered first, r ∈ a.all := fun r hr => (mem_all_iff h).mpr (.inl hr)
  have hsecond : ∀ r ∈ registered second, r ∈ a.all := fun r hr => (mem_all_iff h).mpr (.inr hr)
  by_cases hone : ∃ r ∈ registered first, r.fullname = key
  · -- The first worker describes the class, so its row has the bases.
    obtain ⟨r, hr, rfl⟩ := hone
    have hsome : touchAll none (touchesOf (registered first) .members r.fullname) ≠ none := by
      rw [ne_eq, touchAll_eq_none_iff, touchesOf_eq_nil_iff]
      exact fun hn => (hn.2 r hr).1 rfl
    obtain ⟨row, hrow⟩ := Option.ne_none_iff_exists'.mp hsome
    have hbases := (a.distinct_all.of_subset hfirst).basesAt_eq hr .members none
    rw [hrow] at hbases
    rw [hrow, basesAt_joined_some, hbases, a.distinct_all.basesAt_eq (hfirst r hr)]
    refine iff_of_true rfl ?_
    rintro ⟨⟨r', hr', hname, -⟩, -⟩
    exact fullname_ne h hr hr' hname.symm
  have hone : ∀ r ∈ registered first, r.fullname ≠ key := fun r hr hf => hone ⟨r, hr, hf⟩
  by_cases htwo : ∃ r ∈ registered second, r.fullname = key
  · -- The second worker describes the class: it depends on whether the row is there already.
    obtain ⟨r, hr, rfl⟩ := htwo
    rw [a.distinct_all.basesAt_eq (hsecond r hr)]
    cases hrow : touchAll none (touchesOf (registered first) .members r.fullname) with
    | none =>
      rw [joined_none, (a.distinct_all.of_subset hsecond).basesAt_eq hr]
      refine iff_of_true rfl ?_
      rintro ⟨-, r', hr', hl⟩
      exact (touchesOf_eq_nil_iff.mp (touchAll_eq_none_iff.mp hrow).2 r' hr').2 hl
    | some row =>
      have hlisted : ∃ r' ∈ registered first, r'.ListedAt .members r.fullname := by
        by_contra hno
        have hnil : touchesOf (registered first) .members r.fullname = [] :=
          touchesOf_eq_nil_iff.mpr fun r' hr' => ⟨hone r' hr', fun hl => hno ⟨r', hr', hl⟩⟩
        simp [hnil] at hrow
      rw [basesAt_joined_some, ← hrow, basesAt_of_not_registered hone, eq_comm]
      refine Registration.noted_getD_eq_iff.trans ⟨?_, ?_⟩
      · rintro hn ⟨⟨r', hr', hname, hne⟩, -⟩
        rw [a.distinct_all r' (hsecond r' hr') r (hsecond r hr) hname] at hne
        exact hne hn
      · intro hlost
        by_contra hn
        exact hlost ⟨⟨r, hr, rfl, hn⟩, hlisted⟩
  · have htwo : ∀ r ∈ registered second, r.fullname ≠ key := fun r hr hf => htwo ⟨r, hr, hf⟩
    have hall : ∀ r ∈ a.all, r.fullname ≠ key := fun r hr =>
      ((mem_all_iff h).mp hr).elim (hone r) (htwo r)
    rw [basesAt_of_not_registered hall]
    refine iff_of_true ?_ ?_
    · cases hrow : touchAll none (touchesOf (registered first) .members key) with
      | none => rw [joined_none, basesAt_of_not_registered htwo]
      | some row => rw [basesAt_joined_some, ← hrow, basesAt_of_not_registered hone]
    · rintro ⟨⟨r, hr, hname, -⟩, -⟩
      exact htwo r hr hname

/-- **Merging the batches, object by object.** -/
theorem get?_objects_mergeBatches (h : a.documents.Perm (first ++ second)) (name : String) :
    (mergeBatches first second).objects.get? name = a.read.objects.get? name := by
  have hfirst : ∀ r ∈ registered first, r ∈ a.all := fun r hr => (mem_all_iff h).mpr (.inl hr)
  have hsecond : ∀ r ∈ registered second, r ∈ a.all := fun r hr => (mem_all_iff h).mpr (.inr hr)
  have hread : a.read = a.all.foldl register empty := readDocuments_eq empty a.documents
  rw [mergeBatches, get?_objects_merge _ _ (keyed_readDocuments second),
    get?_objects_merge _ _ (keyed_readDocuments first), hread, readDocuments_eq, readDocuments_eq]
  by_cases hname : ∃ r ∈ a.all, r.fullname = name
  · obtain ⟨r, hr, rfl⟩ := hname
    rw [a.distinct_all.get?_objects hr]
    rcases (mem_all_iff h).mp hr with hr | hr
    · have hnot : ∀ r' ∈ registered second, r'.fullname ≠ r.fullname :=
        fun r' hr' => (fullname_ne h hr hr').symm
      rw [get?_objects_of_not_registered hnot, (a.distinct_all.of_subset hfirst).get?_objects hr]
      simp [empty, Option.filter, document_mem_first h r hr]
    · rw [(a.distinct_all.of_subset hsecond).get?_objects hr]
      simp [Option.filter, document_mem_second h r hr]
  · have hnot : ∀ r ∈ a.all, r.fullname ≠ name := fun r hr hf => hname ⟨r, hr, hf⟩
    rw [get?_objects_of_not_registered hnot,
      get?_objects_of_not_registered fun r hr => hnot r (hfirst r hr),
      get?_objects_of_not_registered fun r hr => hnot r (hsecond r hr)]
    rfl

theorem row_mergeBatches_eq_none_iff (h : a.documents.Perm (first ++ second)) (side : Side)
    (key : String) :
    (mergeBatches first second).row side key = none ↔ a.read.row side key = none := by
  rw [row_mergeBatches h, a.row_read, joined_eq_none_iff]
  simp only [touchAll_eq_none_iff, touchesOf_eq_nil_iff, true_and, mem_all_iff h]
  exact ⟨fun hr r => Or.rec (hr.1 r) (hr.2 r), fun hr => ⟨fun r h => hr r (.inl h),
    fun r h => hr r (.inr h)⟩⟩

/-- **Reading in parallel.** The merged tables have the objects that reading in one process gives,
and rows for the same keys with the same entries. The bases of a class and the scope in which they
are looked up are the same as well, unless the class is described by the worker that is merged
second and the worker that is merged first lists a member of it. -/
theorem mergeBatches_eq_read (h : a.documents.Perm (first ++ second)) :
    (∀ name, (mergeBatches first second).objects.get? name = a.read.objects.get? name) ∧
      (∀ side key,
        ((mergeBatches first second).row side key = none ↔ a.read.row side key = none) ∧
          ∀ e, e ∈ entriesAt ((mergeBatches first second).row side key) ↔
            e ∈ entriesAt (a.read.row side key)) ∧
      ∀ key,
        ((mergeBatches first second).members.get? key).map (fun row => (row.bases, row.scope)) =
            (a.read.members.get? key).map (fun row => (row.bases, row.scope)) ↔
          ¬ BasesLost first second key := by
  refine ⟨get?_objects_mergeBatches h, fun side key => ⟨row_mergeBatches_eq_none_iff h side key,
    fun e => ?_⟩, fun key => ?_⟩
  · rw [row_mergeBatches h, a.row_read, entriesAt_joined, List.mem_append]
    simp only [mem_entriesAt_touchesOf, mem_all_iff h, or_and_right, exists_or]
  · rw [← basesAt_mergeBatches_iff h]
    have hnone := row_mergeBatches_eq_none_iff h .members key
    simp only [row] at hnone ⊢
    cases hmerged : (mergeBatches first second).members.get? key with
    | none => simp [hnone.mp hmerged]
    | some row =>
      cases hread : a.read.members.get? key with
      | none => simp [hnone.mpr hread] at hmerged
      | some row' => exact Option.some_inj

end Batches

/-- The worker that is merged first lists a member of a class that the other one describes. -/
theorem bases_mergeBatches_member_first :
    splitClass.documents.Perm (splitClass.documents.take 1 ++ splitClass.documents.drop 1) ∧
      ((mergeBatches (splitClass.documents.take 1) (splitClass.documents.drop 1)).members.get?
          "A").map (fun row => (row.bases, row.scope)) ≠
        (splitClass.read.members.get? "A").map (fun row => (row.bases, row.scope)) := by
  have hperm : splitClass.documents.Perm
      (splitClass.documents.take 1 ++ splitClass.documents.drop 1) := by
    rw [List.take_append_drop]
  refine ⟨hperm, fun heq => ((mergeBatches_eq_read hperm).2.2 "A").mp heq ?_⟩
  refine ⟨⟨_, List.mem_singleton.mpr rfl, rfl, by simp [Registration.noted]⟩,
    _, List.mem_singleton.mpr rfl, rfl, ?_⟩
  cbv

end Index

end LuaDocs
