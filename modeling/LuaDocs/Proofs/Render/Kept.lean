import LuaDocs.Auto.Documentation
import LuaDocs.Description
import LuaDocs.Proofs.Context.Frames
import LuaDocs.Proofs.Index.Ownership
import LuaDocs.Proofs.Render.Ensures

/-!
# What renderings keep

No rendering takes an object out of the index tables: what the document has entered stays entered,
and what is new in the tables has been entered under one of the names that the rendering can give.
The rows of each object stay with the document that describes it.
Most renderings do not touch the context either, whether they end well or fail; those that do only
set its module, or save it, so that the values saved before stay saved.
-/

namespace LuaDocs

/-- The failure is no error of a directive: it is not shown in the place of one, but stops the
document. -/
def Failure.Fatal (e : Failure) : Prop := ∀ severity message, e ≠ .directive severity message

namespace Render

variable {K : String → Prop} {site : Site} {s t u : State} {key : String}

/-- The document that is being rendered describes the object. -/
def Listed (key : String) (s : State) : Prop :=
  ∃ row, s.index.objects.get? key = some row ∧ row.document = s.page.name

/-- The document is the same, what it describes stays described, what is new in the tables has one
of the names `K`, and rows stay with the documents of their objects. -/
structure Persists (K : String → Prop) (s t : State) : Prop where
  name : t.page.name = s.page.name
  listed : ∀ key, Listed key s → Listed key t
  entered : ∀ key, t.index.objects.has key = true → s.index.objects.has key = true ∨ K key
  owned : s.index.Owned → t.index.Owned

/-- What is described stays described, and the context is the same. -/
structure Mild (K : String → Prop) (s t : State) : Prop extends Persists K s t where
  context : t.page.context = s.page.context

/-- What is described stays described, and the context settles to the same. -/
structure Tidy (K : String → Prop) (s t : State) : Prop extends Persists K s t where
  settled : t.page.context.settle = s.page.context.settle

/-- What is described stays described, and what is saved in the context stays saved. -/
structure Kept (s t : State) : Prop extends Persists (fun _ => True) s t where
  grown : ∃ n, s.page.context.Grown n t.page.context

/-- What is described stays described, what is saved in the context stays saved, and if nothing is
saved above it, the context is restored. -/
structure Guarded (s t : State) : Prop extends Persists (fun _ => True) s t where
  grown : ∃ n, s.page.context.Grown n t.page.context ∧
    (n = 0 → t.page.context.settle = s.page.context.settle)

theorem Persists.refl (s : State) : Persists K s s := ⟨rfl, fun _ h => h, fun _ => .inl, id⟩

theorem Persists.trans (hst : Persists K s t) (htu : Persists K t u) : Persists K s u where
  name := htu.name.trans hst.name
  listed key h := htu.listed key (hst.listed key h)
  entered key h := (htu.entered key h).elim (hst.entered key) .inr
  owned h := htu.owned (hst.owned h)

/-- A change of the context describes nothing and removes nothing. -/
theorem Persists.inContext (s : State) (c : Context) : Persists K s (s.inContext c) :=
  ⟨rfl, fun _ h => h, fun _ => .inl, id⟩

instance : IsPreorder State (Persists K) where
  refl := .refl
  trans _ _ _ hst htu := hst.trans htu

theorem Mild.refl (s : State) : Mild K s s := ⟨.refl s, rfl⟩

theorem Mild.trans (hst : Mild K s t) (htu : Mild K t u) : Mild K s u :=
  ⟨hst.toPersists.trans htu.toPersists, htu.context.trans hst.context⟩

/-- Nothing is described or removed, and the context is the same. -/
theorem Mild.of_eq (hindex : t.index = s.index) (hname : t.page.name = s.page.name)
    (hcontext : t.page.context = s.page.context) : Mild K s t := by
  refine ⟨⟨hname, ?_, fun key h => .inl (hindex ▸ h), fun h => hindex ▸ h⟩, hcontext⟩
  rintro key ⟨row, hrow, hdoc⟩
  exact ⟨row, by rw [hindex, hrow], by rw [hname, hdoc]⟩

instance : IsPreorder State (Mild K) where
  refl := .refl
  trans _ _ _ hst htu := hst.trans htu

theorem Tidy.refl (s : State) : Tidy K s s := ⟨.refl s, rfl⟩

theorem Tidy.trans (hst : Tidy K s t) (htu : Tidy K t u) : Tidy K s u :=
  ⟨hst.toPersists.trans htu.toPersists, htu.settled.trans hst.settled⟩

instance : IsPreorder State (Tidy K) where
  refl := .refl
  trans _ _ _ hst htu := hst.trans htu

theorem Kept.trans (hst : Kept s t) (htu : Kept t u) : Kept s u := by
  obtain ⟨n, hn⟩ := hst.grown
  obtain ⟨m, hm⟩ := htu.grown
  exact ⟨hst.toPersists.trans htu.toPersists, n + m, hn.trans hm⟩

instance : IsPreorder State Kept where
  refl s := ⟨.refl s, 0, .refl _⟩
  trans _ _ _ hst htu := hst.trans htu

theorem Mild.toTidy (h : Mild K s t) : Tidy K s t := ⟨h.toPersists, by rw [h.context]⟩

theorem Mild.toGuarded (h : Mild (fun _ => True) s t) : Guarded s t :=
  ⟨h.toPersists, 0, by rw [h.context]; exact .refl _, fun _ => by rw [h.context]⟩

theorem Guarded.toKept (h : Guarded s t) : Kept s t := by
  obtain ⟨n, hn, -⟩ := h.grown
  exact ⟨h.toPersists, n, hn⟩

/-- Restoring the context after what comes behind a saving. -/
theorem Kept.guarded_pop {m k : Option String} {used : Option Selection}
    (hst : Persists (fun _ => True) s t)
    (hc : t.page.context = s.page.context.push m k used) (htu : Kept t u) :
    Guarded s (u.inContext u.page.context.pop) := by
  obtain ⟨n, hn⟩ := htu.grown
  rw [hc] at hn
  refine ⟨(hst.trans htu.toPersists).trans (.inContext u _), n, hn.pop_push, ?_⟩
  rintro rfl
  exact hn.settle_pop_push

theorem Mild.toKept (h : Mild (fun _ => True) s t) : Kept s t := h.toGuarded.toKept

/-- A rendering that leaves the context as it is keeps what is saved in it. -/
theorem Respects.kept {α : Type} {F : Failure → Prop} {x : Render α}
    (h : Respects site (Mild fun _ => True) F x) : Respects site Kept (fun _ => True) x :=
  h.mono (fun _ _ => Mild.toKept) fun _ _ => trivial

/-! ### What is asked of parts of a document -/

/-- The rendering leaves the context as it found it. -/
def KeepsContext (site : Site) (x : Render (List Node)) : Prop :=
  ∀ s : State, s.page.context.Restored (x.runOn site s).2.page.context

/-- What the rendering enters into the tables has one of the names `K`. -/
def EntersOnly (site : Site) (K : String → Prop) (x : Render (List Node)) : Prop :=
  ∀ s key, (x.runOn site s).2.index.objects.has key = true →
    s.index.objects.has key = true ∨ K key

theorem EntersOnly.mono {K' : String → Prop} {x : Render (List Node)} (h : EntersOnly site K x)
    (hK : ∀ key, K key → K' key) : EntersOnly site K' x :=
  fun s key hkey => (h s key hkey).imp_right (hK key)

theorem Respects.tidy {F : Failure → Prop} {x : Render (List Node)} (h : Respects site Kept F x)
    (hcontext : KeepsContext site x) (henter : EntersOnly site K x) :
    Respects site (Tidy K) F x := by
  refine ⟨fun s => .intro (fun nodes t ht => ?_) fun e t ht => ?_⟩
  all_goals
    have hkept := h.ensures s
    have hrestored := Context.restored_iff.1 (hcontext s)
    have hentered := henter s
    rw [ht] at hrestored hentered
  · have hst := hkept.of_ok ht
    exact ⟨⟨hst.name, hst.listed, hentered, hst.owned⟩, hrestored⟩
  · obtain ⟨hfailure, hst⟩ := hkept.of_error ht
    exact ⟨hfailure, ⟨hst.name, hst.listed, hentered, hst.owned⟩, hrestored⟩

/-! ### Entering objects -/

theorem mild_dependOn (F : Failure → Prop) (files : List Path) :
    Respects site (Mild K) F (dependOn files) :=
  .modifyPage fun _ => .of_eq rfl rfl rfl

theorem mild_newSection (F : Failure → Prop) (title : String) :
    Respects site (Mild K) F (newSection title) := by
  unfold newSection
  refine .bind .get fun _ => ?_
  exact .bind (.modifyPage fun _ => .of_eq rfl rfl rfl) fun _ => .pure _

theorem mild_newAnchor (F : Failure → Prop) (fullname : String) :
    Respects site (Mild K) F (newAnchor fullname) := by
  unfold newAnchor
  refine .bind .get fun _ => ?_
  exact .bind (.modifyPage fun _ => .of_eq rfl rfl rfl) fun _ => .pure _

/-- Entering an object that the document describes lists it and leaves the others listed. -/
theorem Listed.register (s : State) (r : Index.Registration) (h : r.row.document = s.page.name) :
    Listed r.fullname { s with index := s.index.register r } ∧
      ∀ key, Listed key s → Listed key { s with index := s.index.register r } := by
  refine ⟨⟨r.row, ?_, h⟩, ?_⟩
  · rw [Index.get?_objects_register, if_pos rfl]
  · rintro key ⟨row, hrow, hdoc⟩
    by_cases hk : r.fullname = key
    · exact ⟨r.row, by rw [Index.get?_objects_register, if_pos hk], h⟩
    · exact ⟨row, by rw [Index.get?_objects_register, if_neg hk, hrow], hdoc⟩

/-- Entering an object adds no other name to the table. -/
theorem has_register (i : Index) (r : Index.Registration)
    (h : (i.register r).objects.has key = true) : i.objects.has key = true ∨ r.fullname = key := by
  rw [Table.has, Index.get?_objects_register] at h
  split at h
  · next hkey => exact .inr hkey
  · exact .inl h

/-- Noting a synopsis adds no name to the table. -/
theorem has_noteSynopsis (i : Index) (name synopsis : String)
    (h : (i.noteSynopsis name synopsis).objects.has key = true) : i.objects.has key = true := by
  unfold Index.noteSynopsis at h
  split at h
  · next row hrow =>
    split at h
    · rw [Table.has, Table.get?_set] at h
      split at h
      · next hkey => rw [Table.has, ← hkey, hrow, Option.isSome_some]
      · exact h
    · exact h
  · exact h

/-- Noting a synopsis leaves the objects listed. -/
theorem Listed.noteSynopsis (name synopsis : String) (h : Listed key s) :
    Listed key { s with index := s.index.noteSynopsis name synopsis } := by
  obtain ⟨row, hrow, hdoc⟩ := h
  rw [Listed, Index.noteSynopsis]
  split
  · next own hown =>
    split
    · by_cases hk : name = key
      · subst hk
        obtain rfl : own = row := Option.some.inj (hown.symm.trans hrow)
        exact ⟨{ own with synopsis := some synopsis }, by simp, hdoc⟩
      · exact ⟨row, by simp [Table.get?_set, hk, hrow], hdoc⟩
    · exact ⟨row, hrow, hdoc⟩
  · exact ⟨row, hrow, hdoc⟩

/-- **Entering an object** lists it, and leaves the context and the other objects as they are. -/
theorem ensures_enter (site : Site) (s : State) {fullname : String} (hK : K fullname) (t : ObjType)
    (options : Options) (bases : Option (List String × Index.Scope)) (listing : Index.Listing) :
    (enter fullname t options bases listing).Ensures site s
      (fun _ u => Mild K s u ∧ Listed fullname u) fun _ _ => False := by
  unfold enter
  refine ((mild_newAnchor (K := K) (fun _ => False) fullname).ensures s).bind
    (fun id u hu => ?_) fun _ _ h => h.1
  rw [ensures_bind, ensures_get]
  -- the warning on another description of the object comes before the row is entered
  have hrow : ∀ v, Mild K u v → ∀ row : Index.ObjectRow, row.document = u.page.name →
      (do
        modify fun s => { s with index := s.index.register ⟨fullname, row, bases, listing⟩ }
        return id : Render String).Ensures site v
        (fun _ w => Mild K s w ∧ Listed fullname w) fun _ _ => False := by
    intro v hv row hdoc
    have hname : row.document = v.page.name := hdoc.trans hv.name.symm
    have hreg := Listed.register v ⟨fullname, row, bases, listing⟩ hname
    rw [ensures_bind, ensures_modify, ensures_pure]
    have hnew : Mild K v { v with index := v.index.register ⟨fullname, row, bases, listing⟩ } := by
      refine ⟨⟨rfl, hreg.2, fun key hkey => ?_, fun howned => howned.register _⟩, rfl⟩
      rcases has_register _ _ hkey with hold | rfl
      · exact .inl hold
      · exact .inr hK
    exact ⟨(hu.trans hv).trans hnew, hreg.1⟩
  split
  · next row _ =>
    split
    · rw [ensures_bind, ensures_read, ensures_bind, ensures_warn]
      refine hrow _ ?_ ⟨u.page.name, _, _, _, _⟩ rfl
      exact .of_eq rfl rfl rfl
    · exact hrow u (.refl u) _ rfl
  · exact hrow u (.refl u) _ rfl

theorem mild_enter (F : Failure → Prop) {fullname : String} (hK : K fullname) (t : ObjType)
    (options : Options)
    (bases : Option (List String × Index.Scope)) (listing : Index.Listing) :
    Respects site (Mild K) F (enter fullname t options bases listing) :=
  ⟨fun s => (ensures_enter site s hK t options bases listing).mono
    (fun _ _ h => h.1) fun _ _ h => h.elim⟩

end Render

/-! ### Headings -/

namespace Description

open Render

variable {K : String → Prop} {site : Site} {s : State}

theorem ensures_enterObject (d : Description) (bases : Option (List String)) {n : Naming}
    (hK : K n.fullname) :
    (d.enterObject bases n).Ensures site s
      (fun _ t => Mild K s t ∧ Listed n.fullname t) fun _ _ => False := by
  unfold enterObject
  rw [ensures_bind, ensures_context, ensures_bind]
  refine (ensures_enter site s hK ..).mono (fun id t ht => ?_) fun _ _ h => h
  rw [ensures_bind, ensures_modifyPage, ensures_pure]
  exact ⟨ht.1.trans (.of_eq rfl rfl rfl), ht.2⟩

theorem fatal_fieldFailure (e : Field.Error) : (fieldFailure e).Fatal := by
  intro _ _ h
  cases e <;> cases h

theorem mild_gatherFields (nodes : List Node) :
    Respects site (Mild K) Failure.Fatal (gatherFields nodes) := by
  refine .bind .context fun c => .lift fun e he => ?_
  cases h : Field.transformAll c nodes with
  | ok r => simp [h, Except.mapError] at he
  | error f =>
    rw [h] at he
    cases he
    exact fatal_fieldFailure f

end Description

/-! ### Documentation -/

/-- Whatever the text of a comment holds, nothing is taken out of the tables, what is saved in the
context stays saved, and errors of directives are shown. -/
def Site.Careful (site : Site) : Prop :=
  ∀ titles text, Render.Respects site Render.Kept Failure.Fatal (Render.docs titles text)

namespace Auto

open Render

variable {K : String → Prop} {site : Site} {R : State → State → Prop} {F : Failure → Prop}

/-- The texts of the parameters and results of a function. -/
def callTexts (c : Callable) : List String :=
  (c.params ++ c.returns).filterMap fun p => given p.comment.read.text

/-- The texts of the comments on an object: its own, and those on its parameters and results. -/
def textsOf (o : Object) : List String :=
  (given o.reading.text).toList ++
    match o.form with
    | .function c => callTexts c
    | _ => []

/-- The texts of the comments on an object respect a relation between states. -/
def TextsRespect (site : Site) (R : State → State → Prop) (F : Failure → Prop) (o : Object) :
    Prop :=
  ∀ titles, ∀ text ∈ textsOf o, Respects site R F (docs titles text)

theorem TextsRespect.call {o : Object} {c : Callable} (h : TextsRespect site R F o)
    (hform : o.form = .function c) :
    ∀ titles, ∀ text ∈ callTexts c, Respects site R F (docs titles text) := by
  intro titles text htext
  refine h titles text ?_
  rw [textsOf, hform]
  exact List.mem_append_right _ htext

theorem textsRespect_of_careful (h : site.Careful) (o : Object) :
    TextsRespect site Kept (fun _ => True) o :=
  fun titles text _ => (h titles text).mono (fun _ _ h => h) fun _ _ => trivial

variable [IsPreorder State R]

theorem respects_textNodes (hmild : ∀ s t, Mild K s t → R s t) {o : Object}
    (hdocs : TextsRespect site R F o) (options : Options) (fullname : Option String) :
    Respects site R F (textNodes o options fullname) := by
  unfold textNodes
  split
  · exact .pure _
  · next text htext =>
    refine .bind (hdocs true text ?_) fun nodes => ?_
    · rw [textsOf, htext]
      exact List.mem_append_left _ (List.mem_singleton_self text)
    split
    · split
      · refine .bind (.modify fun s => hmild _ _
          ⟨⟨rfl, fun _ h => ?_, fun _ h => .inl ?_, fun h => ?_⟩, rfl⟩) fun _ => .pure _
        · exact h.noteSynopsis _ _
        · exact has_noteSynopsis _ _ _ h
        · exact h.noteSynopsis _ _
      · exact .pure _
    · exact .pure _

theorem mild_requirePath (separator : String) :
    Respects site (Mild K) Failure.Fatal (requirePath separator) := by
  refine .bind .context fun c => ?_
  split
  · exact .throw nofun
  · split
    · exact .pure _
    · exact .throw nofun
  · exact .pure _

theorem mild_requireNodes (o : Object) (options : Options) :
    Respects site (Mild K) Failure.Fatal (requireNodes o options) := by
  unfold requireNodes
  dsimp only
  split
  · exact .pure _
  · refine .bind (mild_requirePath _) fun _ => ?_
    split
    · exact .bind .context fun _ => .pure _
    · exact .pure _

/-- The documentation of an object does no more than the texts of its comments. -/
theorem respects_documentation (hmild : ∀ s t, Mild K s t → R s t)
    (hfatal : ∀ e : Failure, e.Fatal → F e) {o : Object} (hdocs : TextsRespect site R F o)
    (t : ObjType) (options : Options) (fullname : Option String) :
    Respects site R F (documentation o t options fullname) := by
  refine .bind (respects_textNodes hmild hdocs options fullname) fun _ => .bind .context fun _ => ?_
  dsimp only
  split
  · exact .bind ((mild_requireNodes o options).mono hmild hfatal) fun _ => .pure _
  · exact .bind (.pure _) fun _ => .pure _

theorem respects_paramFields {p : Param}
    (hdocs : ∀ titles, ∀ text ∈ given p.comment.read.text, Respects site R F (docs titles text))
    (tree : Object) (textKey typeKey unnamed numbered : String) (isSelf : Bool) :
    Respects site R F (paramFields tree textKey typeKey unnamed numbered isSelf p) := by
  unfold paramFields
  dsimp only
  split
  · exact .pure _
  · split
    · exact .pure _
    · next text htext =>
      split
      · exact .pure _
      · split
        · exact .pure _
        · exact .bind (hdocs false text htext) fun _ => .pure _

/-- So do the fields of the parameters and results of a function. -/
theorem respects_withParameters {c : Callable}
    (hdocs : ∀ titles, ∀ text ∈ callTexts c, Respects site R F (docs titles text))
    (tree : Object) (body : List Node) : Respects site R F (withParameters tree c body) := by
  have hparam : ∀ p ∈ c.params ++ c.returns, ∀ titles, ∀ text ∈ given p.comment.read.text,
      Respects site R F (docs titles text) :=
    fun p hp titles text htext => hdocs titles text (List.mem_filterMap.2 ⟨p, hp, htext⟩)
  unfold withParameters callFields
  refine .bind (.bind (.mapM fun p hp => ?_) fun _ => .bind (.mapM fun p hp => ?_)
    fun _ => .pure _) fun _ => .pure _
  · exact respects_paramFields
      (hparam p.1 (List.mem_append_left _ (List.fst_mem_of_mem_zipIdx hp))) ..
  · exact respects_paramFields
      (hparam p.1 (List.mem_append_right _ (List.fst_mem_of_mem_zipIdx hp))) ..

end Auto

end LuaDocs
