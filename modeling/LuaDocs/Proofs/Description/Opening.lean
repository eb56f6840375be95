import LuaDocs.Proofs.Render.Kept

/-!
# How a description opens and closes its body

The headings of a description are read from its signatures. Each name that can be read enters an
object. The last new name is the object in whose context the body is rendered, if the description
nests; if no signature can be read, the body is rendered in the context around the description.

The context of the body is saved above that of the description, and taken away when the body is
done. Nothing takes it away when the body fails.

## Main results

* `Description.ensures_headings`: the objects that the headings enter
* `Description.ensures_render`: what the parts of a description make of the whole
* `Description.kept_render`: a description keeps what is saved in the context
-/

namespace LuaDocs.Description

open Render

variable {K : String → Prop} {site : Site} {s t : State} {E : Failure → State → Prop}
  {sig : ReadSignature} {name : String} {sigs : List ReadSignature}

/-- A signature with the name and the subject that is read in it. -/
abbrev ReadSignature := String × Except Signature.Error (String × Subject)

/-- Adds the name that a signature gives, if it is new. -/
def addName (names : List String) (sig : ReadSignature) : List String :=
  match sig.2 with
  | .ok (name, _) => if names.contains name then names else names ++ [name]
  | .error _ => names

/-- The names that signatures give, without repetition. -/
def namesIn (sigs : List ReadSignature) : List String := sigs.foldl addName []

/-- The names that the signatures of a description give, without repetition. -/
def names (d : Description) : List String := namesIn d.signatures

/-- The names of the objects that the description enters in the context `c`. -/
def namings (d : Description) (c : Context) : List Naming :=
  d.names.map (Naming.ofName d.options c)

/-- The description has a body of its own context: it nests, and one of its names is read. -/
def opens (d : Description) : Bool := d.objtype.family.nests && !d.names.isEmpty

/-- The context of the body of a description in the context `c`. -/
def bodyContext (d : Description) (c : Context) : Context :=
  match (d.namings c).getLast? with
  | some n =>
    if d.objtype.family.nests then
      c.push (inside d.objtype n).1 (inside d.objtype n).2 (d.options.usedModules c)
    else c
  | none => c

/-- The description with its options under their names. -/
def renamed (d : Description) : Description := { d with options := d.options.withCurrentNames }

theorem mem_addName {names : List String} :
    name ∈ addName names sig ↔ name ∈ names ∨ ∃ subject, sig.2 = .ok (name, subject) := by
  obtain ⟨line, read⟩ := sig
  cases read with
  | error e => simp [addName]
  | ok r =>
    obtain ⟨own, subject⟩ := r
    by_cases h : names.contains own
    · simp only [addName, h, if_true, Except.ok.injEq, Prod.mk.injEq, exists_and_left,
        exists_eq', and_true, iff_self_or]
      rintro rfl
      exact List.contains_iff_mem.1 h
    · simp only [addName, h, Bool.false_eq_true, if_false, List.mem_append, List.mem_singleton,
        Except.ok.injEq, Prod.mk.injEq, exists_and_left, exists_eq', and_true]
      exact or_congr_right eq_comm

/-- The names are those that can be read. -/
theorem mem_namesIn :
    name ∈ namesIn sigs ↔ ∃ sig ∈ sigs, ∃ subject, sig.2 = .ok (name, subject) := by
  have hrun : ∀ names : List String, name ∈ sigs.foldl addName names ↔
      name ∈ names ∨ ∃ sig ∈ sigs, ∃ subject, sig.2 = .ok (name, subject) := by
    induction sigs with
    | nil => simp
    | cons sig rest ih =>
      intro names
      rw [List.foldl_cons, ih, mem_addName, or_assoc, List.exists_mem_cons_iff]
  exact (hrun []).trans (or_iff_right List.not_mem_nil)

/-- Signatures that all give one name. -/
theorem namesIn_eq_singleton (hall : ∀ sig ∈ sigs, ∀ r, sig.2 = .ok r → r.1 = name)
    (hread : ∃ sig ∈ sigs, ∃ r, sig.2 = .ok r) : namesIn sigs = [name] := by
  have hrun : namesIn sigs = [] ∨ namesIn sigs = [name] := by
    refine List.foldlRecOn (motive := fun names => names = [] ∨ names = [name]) _ _ (.inl rfl) ?_
    rintro names hnames ⟨line, read⟩ hsig
    cases read with
    | error e => exact hnames
    | ok r =>
      obtain rfl : r.1 = name := hall _ hsig r rfl
      rcases hnames with rfl | rfl <;> simp [addName]
  obtain ⟨sig, hsig, r, hr⟩ := hread
  have hmem : r.1 ∈ namesIn sigs := mem_namesIn.2 ⟨sig, hsig, r.2, hr⟩
  exact hrun.resolve_left (List.ne_nil_of_mem hmem)

/-- A description that nests opens a body if one of its signatures can be read. -/
theorem opens_of_read {d : Description} (hnests : d.objtype.family.nests = true)
    (hsig : sig ∈ d.signatures) {r : String × Subject} (hr : sig.2 = .ok r) : d.opens = true := by
  have hmem : r.1 ∈ d.names := mem_namesIn.2 ⟨sig, hsig, r.2, hr⟩
  simp [opens, hnests, List.ne_nil_of_mem hmem]

theorem naming_name (options : Options) (c : Context) (name : String) :
    (Naming.ofName options c name).name = name := by
  unfold Naming.ofName
  split
  rfl

theorem naming_injective (options : Options) (c : Context) :
    Function.Injective (Naming.ofName options c) := by
  intro a b h
  rw [← naming_name options c a, h, naming_name]

/-! ### Headings -/

/-- The headings that were made so far say what the signatures that were read so far give: `names`
are the names, and unless the description is to be left out of the tables, they are entered. -/
structure HeadingsOf (K : String → Prop) (d : Description) (s : State) (names : List String)
    (h : Headings) (t : State) : Prop where
  mild : Mild K s t
  names : h.names = names.map (Naming.ofName d.options s.page.context)
  listed : d.options.has "no-index" = false → ∀ n ∈ h.names, Listed n.fullname t

theorem contains_namings (options : Options) (c : Context) (ns : List String) (name : String) :
    (ns.map (Naming.ofName options c)).contains (Naming.ofName options c name) =
      ns.contains name := by
  rw [Bool.eq_iff_iff, List.contains_iff_mem, List.contains_iff_mem]
  exact List.mem_map_of_injective (naming_injective options c)

/-- The names under which the headings of a description enter objects are among `K`. -/
def NamedIn (K : String → Prop) (d : Description) (c : Context) : Prop :=
  d.options.has "no-index" = false → ∀ n ∈ d.namings c, K n.fullname

theorem NamedIn.of_read {d : Description} {c : Context} (h : d.NamedIn K c)
    (hidx : d.options.has "no-index" = false) (hsig : sig ∈ d.signatures)
    {r : String × Subject} (hr : sig.2 = .ok r) : K (Naming.ofName d.options c r.1).fullname :=
  h hidx _ (List.mem_map_of_mem (mem_namesIn.2 ⟨sig, hsig, r.2, hr⟩))

theorem ensures_addHeading {d : Description} (hK : d.NamedIn K s.page.context) {ns : List String}
    {h : Headings} (hh : HeadingsOf K d s ns h t) (hsig : sig ∈ d.signatures) :
    (d.addHeading h sig).Ensures site t (fun h' u => HeadingsOf K d s (addName ns sig) h' u)
      fun e u => e = .looseText ∧ Mild K s u := by
  obtain ⟨line, read⟩ := sig
  cases read with
  | error e =>
    -- the signature cannot be read: a warning, and nothing is entered
    simp only [addHeading, addName, ensures_bind, ensures_warn, ensures_pure]
    exact ⟨hh.mild.trans (.of_eq rfl rfl rfl), hh.names, hh.listed⟩
  | ok r =>
    obtain ⟨name, subject⟩ := r
    have hc : t.page.context = s.page.context := hh.mild.context
    simp only [addHeading, addName, ensures_bind, ensures_read, ensures_context, ensures_orFail,
      hc, hh.names, contains_namings]
    refine ⟨fun w _ => ?_, fun _ => ⟨trivial, hh.mild⟩⟩
    by_cases hin : ns.contains name
    · -- the object has a heading already
      simp only [hin, if_true, ensures_pure]
      exact ⟨hh.mild, rfl, hh.names ▸ hh.listed⟩
    · have hnames : ns.map (Naming.ofName d.options s.page.context) ++
          [Naming.ofName d.options s.page.context name] =
            (ns ++ [name]).map (Naming.ofName d.options s.page.context) := by simp
      by_cases hidx : d.options.has "no-index"
      · simp only [hin, hidx, if_true, Bool.false_eq_true, if_false, ensures_pure]
        exact ⟨hh.mild, hnames, fun h => absurd h (by simp [hidx])⟩
      · simp only [hin, hidx, Bool.false_eq_true, if_false, ensures_bind]
        have hname := hK.of_read (Bool.eq_false_iff.2 hidx) hsig rfl
        refine (ensures_enterObject d _ hname).mono (fun id u hu => ?_) fun _ _ h => h.elim
        rw [ensures_pure]
        refine ⟨hh.mild.trans hu.1, hnames, fun h n hn => ?_⟩
        rw [List.mem_append, List.mem_singleton, ← hh.names] at hn
        rcases hn with hn | rfl
        · exact hu.1.listed _ (hh.listed h n hn)
        · exact hu.2

/-- **The headings of a description** leave the context as it is, and enter the objects whose
names are read, unless the description is to be left out of the tables. -/
theorem ensures_headings {d : Description} (hK : d.NamedIn K s.page.context) :
    d.headings.Ensures site s
      (fun h t => Mild K s t ∧ h.names = d.namings s.page.context ∧
        (d.options.has "no-index" = false → ∀ n ∈ h.names, Listed n.fullname t))
      fun e t => e = .looseText ∧ Mild K s t := by
  have hrun : ∀ sigs ⊆ d.signatures, ∀ (ns : List String) (h : Headings) (t : State),
      HeadingsOf K d s ns h t →
      (sigs.foldlM d.addHeading h).Ensures site t
        (fun h' u => HeadingsOf K d s (sigs.foldl addName ns) h' u)
        fun e u => e = .looseText ∧ Mild K s u := by
    intro sigs
    induction sigs with
    | nil =>
      intro _ ns h t hh
      exact (ensures_pure h).2 hh
    | cons sig rest ih =>
      intro hsigs ns h t hh
      obtain ⟨hsig, hrest⟩ := List.cons_subset.1 hsigs
      rw [List.foldlM_cons, ensures_bind]
      exact (ensures_addHeading hK hh hsig).mono (fun h' u hh' => ih hrest _ h' u hh')
        fun _ _ h => h
  have hstart : HeadingsOf K d s [] ⟨[], [], d.bases, []⟩ s :=
    ⟨.refl s, rfl, fun _ _ hn => absurd hn (by simp)⟩
  exact (hrun d.signatures (List.Subset.refl _) [] _ s hstart).mono
    (fun _ _ hh => ⟨hh.mild, hh.names, hh.listed⟩) fun _ _ h => h

/-! ### The body -/

theorem opens_eq_true_iff (d : Description) (c : Context) :
    d.opens = true ↔ d.objtype.family.nests = true ∧ ∃ n, (d.namings c).getLast? = some n := by
  simp [opens, namings, List.getLast?_isSome, ← Option.isSome_iff_exists]

theorem bodyContext_of_opens {d : Description} (h : d.opens = true) (c : Context) :
    ∃ m k u, d.bodyContext c = c.push m k u := by
  obtain ⟨hnests, n, hn⟩ := (d.opens_eq_true_iff c).1 h
  exact ⟨_, _, _, by rw [bodyContext, hn]; exact if_pos hnests⟩

theorem bodyContext_of_not_opens {d : Description} (h : d.opens = false) (c : Context) :
    d.bodyContext c = c := by
  rw [bodyContext]
  split
  · next n hn =>
    refine if_neg fun hnests => ?_
    have := (d.opens_eq_true_iff c).2 ⟨hnests, n, hn⟩
    simp [h] at this
  · rfl

/-- The context of a body lies above that of the description, or is the same. -/
theorem grown_bodyContext (d : Description) (c : Context) : ∃ n, c.Grown n (d.bodyContext c) := by
  cases hopens : d.opens with
  | true =>
    obtain ⟨m, k, u, hpush⟩ := bodyContext_of_opens hopens c
    exact ⟨1, hpush ▸ .push c m k u⟩
  | false => exact ⟨0, (bodyContext_of_not_opens hopens c).symm ▸ .refl c⟩

theorem ensures_openBody {Q : Bool → State → Prop} (d : Description)
    (h : Q d.opens (s.inContext (d.bodyContext s.page.context))) :
    (d.openBody (d.namings s.page.context)).Ensures site s Q E := by
  unfold openBody
  cases hn : (d.namings s.page.context).getLast? with
  | none =>
    have hopens : d.opens = false := by
      rw [Bool.eq_false_iff]
      intro hopens
      obtain ⟨-, n, hn'⟩ := (d.opens_eq_true_iff s.page.context).1 hopens
      rw [hn] at hn'
      cases hn'
    rw [hopens, bodyContext_of_not_opens hopens] at h
    exact (ensures_pure false).2 h
  | some n =>
    by_cases hnests : d.objtype.family.nests = true
    · have hopens : d.opens = true := (d.opens_eq_true_iff s.page.context).2 ⟨hnests, n, hn⟩
      rw [hopens, bodyContext, hn] at h
      simp only [hnests, if_true] at h
      simp only [hnests, if_true, ensures_bind, ensures_context, ensures_pushContext, ensures_pure]
      exact h
    · have hopens : d.opens = false := by simp [opens, hnests]
      rw [hopens, bodyContext_of_not_opens hopens] at h
      simp only [hnests, Bool.false_eq_true, if_false, ensures_pure]
      exact h

/-- The context after the body: the one that was saved, if the body has one of its own. -/
def afterBody (d : Description) (t : State) : State :=
  if d.opens then t.inContext t.page.context.pop else t

/-- **What the parts of a description make of the whole.** A description that fails in its headings
has not changed the context. Otherwise its body is rendered in its context, with the objects
entered; when the body is done the context is restored, and when it fails it is not. -/
theorem ensures_render {Q : State → Prop} {given : Description}
    (hK : given.renamed.NamedIn K s.page.context)
    (hhead : ∀ e t, e.Fatal → Mild K s t → E e t)
    (hbody : ∀ t, Persists K s t → t.page.context = given.renamed.bodyContext s.page.context →
      (given.renamed.options.has "no-index" = false →
        ∀ n ∈ given.renamed.namings s.page.context, Listed n.fullname t) →
      ∀ fullname : Option String,
      (given.body >>= given.complete fullname >>= gatherFields).Ensures site t
        (fun _ u => Q (given.renamed.afterBody u)) E) :
    given.render.Ensures site s (fun _ t => Q t) E := by
  unfold render
  change (given.renamed.headings >>= _).Ensures site s _ E
  refine (ensures_headings hK).bind ?_ ?_
  · rintro h t ⟨hmild, hnames, hlisted⟩
    rw [hnames] at hlisted
    rw [ensures_bind, hnames, ← hmild.context]
    refine ensures_openBody given.renamed ?_
    rw [hmild.context]
    have hopened := hbody (t.inContext (given.renamed.bodyContext s.page.context))
      (hmild.toPersists.trans (.inContext t _)) rfl hlisted
      ((given.renamed.namings s.page.context).getLast?.map Naming.fullname)
    rw [ensures_bind, ensures_bind] at hopened
    refine hopened.bind (fun body u hu => ?_) fun _ _ h => h
    refine hu.bind (fun body u hu => ?_) fun _ _ h => h
    refine hu.bind (fun body u hu => ?_) fun _ _ h => h
    unfold afterBody at hu
    dsimp only
    split
    · next hopens =>
      rw [if_pos hopens] at hu
      rw [ensures_bind, ensures_popContext]
      split <;> exact (ensures_pure _).2 hu
    · next hopens =>
      rw [if_neg hopens] at hu
      split <;> exact (ensures_pure _).2 hu
  · rintro e t ⟨rfl, hmild⟩
    exact hhead _ t nofun hmild

/-! ### What a description keeps -/

/-- The context after a description whose body has restored it: restored as well. -/
theorem tidy_afterBody {d : Description} {u : State} (hst : Persists K s t)
    (hc : t.page.context = d.bodyContext s.page.context) (htu : Tidy K t u) :
    Tidy K s (d.afterBody u) := by
  have hu : u.page.context.settle = (d.bodyContext s.page.context).settle :=
    htu.settled.trans (by rw [hc])
  unfold afterBody
  split
  · next hopens =>
    obtain ⟨m, k, used, hpush⟩ := bodyContext_of_opens hopens s.page.context
    rw [hpush] at hu
    refine ⟨(hst.trans htu.toPersists).trans (.inContext u _), ?_⟩
    rw [State.context_inContext, Context.pop_eq_of_settle_eq hu, Context.settle_pop_push]
  · next hopens =>
    rw [bodyContext_of_not_opens (Bool.eq_false_iff.2 hopens)] at hu
    exact ⟨hst.trans htu.toPersists, hu⟩

/-- A description keeps what is saved in the context and restores it, unless a description in its
body is left open. -/
theorem kept_afterBody {d : Description} {u : State} (hst : Persists (fun _ => True) s t)
    (hc : t.page.context = d.bodyContext s.page.context) (htu : Kept t u) :
    Kept s (d.afterBody u) ∧ (d.opens = true → Guarded s (d.afterBody u)) := by
  unfold afterBody
  cases hopens : d.opens with
  | true =>
    obtain ⟨m, k, used, hpush⟩ := bodyContext_of_opens hopens s.page.context
    have hguarded := htu.guarded_pop hst (hc.trans hpush)
    exact ⟨hguarded.toKept, fun _ => hguarded⟩
  | false =>
    rw [bodyContext_of_not_opens hopens] at hc
    obtain ⟨n, hn⟩ := htu.grown
    rw [hc] at hn
    exact ⟨⟨hst.trans htu.toPersists, n, hn⟩, nofun⟩

/-- A failure in the body of a description leaves what the body has saved, and a body that is
opened is left open. -/
theorem kept_inBody {d : Description} {u : State} (hst : Persists (fun _ => True) s t)
    (hc : t.page.context = d.bodyContext s.page.context) (htu : Kept t u) :
    Kept s u ∧ (d.opens = true → Guarded s u) := by
  obtain ⟨m, hm⟩ := htu.grown
  rw [hc] at hm
  refine ⟨⟨hst.trans htu.toPersists, ?_⟩, fun hopens => ⟨hst.trans htu.toPersists, ?_⟩⟩
  · obtain ⟨n, hn⟩ := d.grown_bodyContext s.page.context
    exact ⟨n + m, hn.trans hm⟩
  · obtain ⟨k, l, used, hpush⟩ := bodyContext_of_opens hopens s.page.context
    rw [hpush] at hm
    refine ⟨1 + m, (Context.Grown.push _ k l used).trans hm, ?_⟩
    intro h
    omega

section Kept

variable {d : Description} (hbody : Respects site Kept (fun _ => True) d.body)
  (hcomplete : ∀ fullname nodes, Respects site Kept (fun _ => True) (d.complete fullname nodes))

include hbody hcomplete

theorem kept_inner (fullname : Option String) :
    Respects site Kept (fun _ => True) (d.body >>= d.complete fullname >>= gatherFields) :=
  .bind (.bind hbody (hcomplete fullname)) fun nodes => (mild_gatherFields nodes).kept

/-- **A description keeps what is saved in the context**, however it ends, if its body does. -/
theorem kept_render : Respects site Kept (fun _ => True) d.render := by
  refine ⟨fun s => ?_⟩
  refine ensures_render (fun _ _ _ => trivial) (fun e t _ h => ⟨trivial, h.toKept⟩) ?_
  intro t hst hc _ fullname
  exact ((kept_inner hbody hcomplete fullname).ensures t).mono
    (fun _ _ htu => (kept_afterBody hst hc htu).1)
    fun _ _ htu => ⟨trivial, (kept_inBody hst hc htu.2).1⟩

/-- A description that opens a body restores the context, unless a description in it, or the
description itself, is left open. -/
theorem guarded_render (hopens : d.renamed.opens = true) :
    Respects site Guarded (fun _ => True) d.render := by
  refine ⟨fun s => ?_⟩
  refine ensures_render (fun _ _ _ => trivial) (fun e t _ h => ⟨trivial, h.toGuarded⟩) ?_
  intro t hst hc _ fullname
  exact ((kept_inner hbody hcomplete fullname).ensures t).mono
    (fun _ _ htu => (kept_afterBody hst hc htu).2 hopens)
    fun _ _ htu => ⟨trivial, (kept_inBody hst hc htu.2).2 hopens⟩

end Kept

/-- A description whose body leaves the context as it found it leaves its own context as it found
it, with the objects entered. -/
theorem ensures_render_tidy {P : State → Prop} {d : Description}
    (hK : d.renamed.NamedIn K s.page.context) (hfatal : ∀ e t, e.Fatal → E e t)
    (hP : ∀ t u, Persists K t u → P t → P u) (hbody : Respects site (Tidy K) Failure.Fatal d.body)
    (hcomplete : ∀ t, Persists K s t →
      t.page.context.settle = (d.renamed.bodyContext s.page.context).settle →
      ∀ fullname nodes,
        (d.complete fullname nodes).Ensures site t (fun _ u => Tidy K t u ∧ P u) E) :
    d.render.Ensures site s
      (fun _ t => Tidy K s t ∧ P t ∧ (d.renamed.options.has "no-index" = false →
        ∀ n ∈ d.renamed.namings s.page.context, Listed n.fullname t)) E := by
  refine ensures_render (Q := fun t => Tidy K s t ∧ P t ∧ _) hK (fun e t he _ => hfatal e t he) ?_
  intro t hst hc hlisted fullname
  rw [ensures_bind, ensures_bind]
  refine (hbody.ensures t).mono (fun nodes u htu => ?_) fun e u he => hfatal e u he.1
  have hcu : u.page.context.settle = (d.renamed.bodyContext s.page.context).settle :=
    htu.settled.trans (by rw [hc])
  refine (hcomplete u (hst.trans htu.toPersists) hcu fullname nodes).mono ?_ fun _ _ h => h
  rintro nodes v ⟨huv, hv⟩
  refine ((mild_gatherFields (K := K) nodes).ensures v).mono ?_
    fun e w he => hfatal e w he.1
  intro nodes w hvw
  have htw : Tidy K t w := (htu.trans huv).trans hvw.toTidy
  have hlast : Persists K w (d.renamed.afterBody w) := by
    unfold afterBody
    split
    · exact .inContext w _
    · exact .refl w
  refine ⟨tidy_afterBody hst hc htw, hP w _ hlast (hP v w hvw.toPersists hv), ?_⟩
  intro hidx n hn
  exact hlast.listed _ (htw.listed _ (hlisted hidx n hn))

end LuaDocs.Description
