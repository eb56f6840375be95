import LuaDocs.Proofs.Analyzer.Modules

/-!
# The order in which modules are listed

A document of EmmyLua lists the modules of a project, and a module may be nested in another one. If
the nested module comes first, a placeholder is made for the outer one, and the entry of the outer
module is later merged into it. The placeholder leads, and what merging takes from the leading
definition only is lost: what requiring the module gives, and that it is at the top.

So the tree does depend on the order. What does not depend on it: whether the modules can be read,
which paths there are, and the files and the modules in use of each object. The objects are the same
in all else wherever no placeholder was in the way, which is everywhere if each module is listed
before the modules that are nested in it.

## Main results

* `EmmyLua.ready_of_outerFirst`: then no placeholder is in the way
* `EmmyLua.headAt?_of_made`: what becomes of a module for which a placeholder was made
* `EmmyLua.modules_of_perm`: what does not depend on the order, and what is lost
-/

namespace LuaDocs.EmmyLua

open Analysis Object Text

variable {project : Path} {data : Json} {s : String × Object} {path : List String} {x y : Head}
  {steps others : List (String × Object)} {function separator : Option String} {a : Analysis}
  {cleanup : Bool}

/-! ### Modules in use -/

/-- Where at most one of the heads uses modules, joining loses none of them. -/
theorem usedModules_joined {ys : List Head} {z : Head} (h : x.Joined ys z)
    (hpair : (x :: ys).Pairwise fun x y =>
      x.details.usedModules = [] ∨ y.details.usedModules = []) :
    z.details.usedModules = (x :: ys).flatMap fun y => y.details.usedModules := by
  induction ys generalizing x with
  | nil =>
    obtain rfl := h
    simp
  | cons y ys ih =>
    obtain ⟨w, hw, h⟩ := h
    rw [List.pairwise_cons, List.pairwise_cons] at hpair
    obtain ⟨hx, hy, hys⟩ := hpair
    have hused : w.details.usedModules = x.details.usedModules ++ y.details.usedModules := by
      rcases hw with ⟨-, rfl⟩ | ⟨-, rfl⟩
      · rfl
      · rcases hx y List.mem_cons_self with hnil | hnil <;> simp [Head.absorb, Details.absorb, hnil]
    rw [ih h, List.flatMap_cons, List.flatMap_cons, List.flatMap_cons, hused, List.append_assoc]
    refine List.pairwise_cons.2 ⟨fun v hv => ?_, hys⟩
    rw [hused, List.append_eq_nil_iff]
    rcases hx v (List.mem_cons_of_mem _ hv) with hnil | hnil
    · rcases hy v hv with hnil' | hnil'
      · exact .inl ⟨hnil, hnil'⟩
      · exact .inr hnil'
    · exact .inr hnil

theorem flatMap_of_perm {α β : Type} {f : α → List β} {xs ys : List α} (hperm : xs.Perm ys)
    (h : xs.Pairwise fun x y => f x = [] ∨ f y = []) : xs.flatMap f = ys.flatMap f := by
  induction hperm with
  | nil => rfl
  | cons x _ ih =>
    rw [List.flatMap_cons, List.flatMap_cons, ih (List.pairwise_cons.1 h).2]
  | swap x y l =>
    have hpair := (List.pairwise_cons.1 h).1 x List.mem_cons_self
    rcases hpair with hnil | hnil <;> simp [hnil]
  | trans hperm' _ ih ih' =>
    rw [ih h, ih' ((hperm'.pairwise_iff fun {a b} => Or.symm).1 h)]

/-- An object uses the modules that its definitions use. -/
theorem usedModules_gathered (h : Modules steps)
    (hx : Gathered (meeting cleanup path steps) (some x)) :
    x.details.usedModules =
      (steps.filterMap (brought path)).flatMap fun y => y.details.usedModules := by
  have hpair := (h.contrast path).imp And.right
  unfold meeting at hx
  split at hx
  · obtain ⟨z, hz, hx⟩ := hx
    cases hz
    have hjoined : (unknown cleanup).head.Joined (steps.filterMap (brought path)) x := hx
    rw [usedModules_joined hjoined (List.pairwise_cons.2 ⟨fun _ _ => .inl rfl, hpair⟩)]
    rfl
  · rw [List.nil_append] at hx
    revert hx hpair
    cases steps.filterMap (brought path) with
    | nil => exact fun _ hx => by cases hx
    | cons y ys =>
      rintro hpair ⟨z, hz, hx⟩
      cases hz
      exact usedModules_joined hx hpair

/-! ### Where no placeholder is in the way -/

/-- A placeholder is made at the path only if nothing defines the object there. -/
def Ready (path : List String) (steps : List (String × Object)) : Prop :=
  made path steps = true → steps.filterMap (brought path) = []

/-- Each module is listed before the modules that are nested in it. -/
def OuterFirst (steps : List (String × Object)) : Prop :=
  steps.Pairwise fun s t => ¬ splitString '.' t.1 <+: splitString '.' s.1

theorem joins_unique {z w : Head} (hne : x.form.priority ≠ y.form.priority) (hz : x.Joins y z)
    (hw : x.Joins y w) : z = w := by
  -- one of the two precedes the other, so that only one can lead
  have hstrict : ¬ (x.precedes y = .ok false ∧ y.precedes x = .ok false) := by
    have hne' := hne.symm
    unfold Head.precedes
    cases x.details.foreign <;> cases y.details.foreign <;> simp [hne, hne'] <;> omega
  rcases hz with ⟨hfirst, rfl⟩ | ⟨hfirst, rfl⟩ <;> rcases hw with ⟨hfirst', rfl⟩ | ⟨hfirst', rfl⟩
  · rfl
  · exact absurd ⟨hfirst', hfirst⟩ hstrict
  · exact absurd ⟨hfirst, hfirst'⟩ hstrict
  · rfl

/-- A module and a member of its name make one object, whichever of them comes first. -/
theorem gathered_unique {xs ys : List Head} {u v : Option Head} (hperm : ys.Perm xs)
    (hpair : xs.Pairwise fun x y => x.form.priority = 0 ↔ y.form.priority ≠ 0)
    (hu : Gathered xs u) (hv : Gathered ys v) : u = v := by
  match xs, hpair with
  | [], _ =>
    obtain rfl := hperm.eq_nil
    exact hu.trans hv.symm
  | [x], _ =>
    obtain rfl := hperm.eq_singleton
    obtain ⟨z, rfl, rfl⟩ := hu
    obtain ⟨w, rfl, rfl⟩ := hv
    rfl
  | [x, y], hpair =>
    have hcontrast : x.form.priority = 0 ↔ y.form.priority ≠ 0 := by simpa using hpair
    obtain ⟨z, rfl, _, hz, rfl⟩ := hu
    obtain ⟨p, q, rfl⟩ := List.length_eq_two.1 hperm.length_eq
    obtain ⟨w, rfl, _, hw, rfl⟩ := hv
    have hjoins : x.Joins y w := by
      have hp : p ∈ [x, y] := hperm.mem_iff.1 List.mem_cons_self
      rcases List.mem_pair.1 hp with rfl | rfl
      · obtain rfl := List.singleton_inj.1 ((List.perm_cons p).1 hperm).eq_singleton
        exact hw
      · have hswap := hperm.trans (List.Perm.swap p x [])
        obtain rfl := List.singleton_inj.1 ((List.perm_cons p).1 hswap).eq_singleton
        exact hw.symm
    exact congrArg some (joins_unique (by omega) hz hjoins)
  | x :: y :: z :: rest, hpair =>
    simp only [List.pairwise_cons, List.mem_cons, forall_eq_or_imp] at hpair
    obtain ⟨⟨hxy, hxz, -⟩, ⟨hyz, -⟩, -⟩ := hpair
    omega

/-- Where no placeholder is in the way, the order makes no difference. -/
theorem head_eq_of_ready (h : Modules steps) (hperm : others.Perm steps)
    (hready : Ready path steps) (hready' : Ready path others)
    (hx : Gathered (meeting cleanup path steps) (some x))
    (hy : Gathered (meeting cleanup path others) (some y)) : x = y := by
  have hdefs : (others.filterMap (brought path)).Perm (steps.filterMap (brought path)) :=
    hperm.filterMap _
  by_cases hnil : steps.filterMap (brought path) = []
  · -- nothing defines the object, which is the placeholder in both orders
    have hnil' : others.filterMap (brought path) = [] := by
      rw [hnil] at hdefs
      exact hdefs.eq_nil
    rw [meeting, hnil, List.append_nil] at hx
    rw [meeting, hnil', List.append_nil] at hy
    split at hx
    · split at hy
      · obtain ⟨_, hz, rfl⟩ := hx
        obtain ⟨_, hw, rfl⟩ := hy
        exact Option.some.inj (hz.trans hw.symm)
      · cases hy
    · cases hx
  · have hmade : made path steps = false := by
      by_contra hmade
      exact hnil (hready (eq_true_of_ne_false hmade))
    have hmade' : made path others = false := by
      by_contra hmade'
      have hnil' := hready' (eq_true_of_ne_false hmade')
      rw [hnil'] at hdefs
      exact hnil hdefs.symm.eq_nil
    rw [meeting, hmade, if_neg Bool.false_ne_true, List.nil_append] at hx
    rw [meeting, hmade', if_neg Bool.false_ne_true, List.nil_append] at hy
    exact Option.some.inj (gathered_unique hdefs ((h.contrast path).imp And.left) hx hy)

/-- **If each module is listed before those nested in it**, no placeholder is in the way. -/
theorem ready_of_outerFirst (h : OuterFirst steps) (path : List String) : Ready path steps := by
  intro hmade
  obtain ⟨before, s, after, rfl, hpass, hbefore⟩ := exists_of_made hmade
  rw [List.filterMap_eq_nil_iff]
  intro t ht
  rcases List.mem_append.1 ht with ht | ht
  · have htouch := hbefore t ht
    rw [touches, Bool.or_eq_false_iff] at htouch
    simpa using htouch.1
  · rcases List.mem_cons.1 ht with rfl | ht
    · exact brought_of_passes hpass
    · -- an outer module would have to be listed before `s`
      have hafter := (List.pairwise_cons.1 (List.pairwise_append.1 h).2.1).1 t ht
      refine if_neg fun habove => hafter (habove.trans hpass.1)

/-! ### What a placeholder loses -/

theorem precedes_of_alike (hforeign : x.details.foreign = y.details.foreign)
    (hform : x.form.priority = y.form.priority) (hx : x.details.line = none)
    (hy : y.details.line = none) : x.precedes y = .ok false := by
  unfold Head.precedes
  rw [hforeign, hform, hx, hy]
  simp [lineBefore]

theorem comment_noted (parts : List String) (o : Object) :
    (noted parts o).details.comment = o.details.comment := by
  unfold noted
  split <;> rfl

theorem foreign_noted (parts : List String) (o : Object) :
    (noted parts o).head.details.foreign = o.details.foreign := by
  unfold noted
  split <;> rfl

/-- The entry of a module of the project, if nothing else defines the object, is merged into the
placeholder that was made for it. -/
theorem headAt?_of_made {root : Object} (h : Modules steps) (hs : s ∈ steps)
    (hproject : s.2.details.foreign = false)
    (honly : ∀ t ∈ steps, t ≠ s → brought (splitString '.' s.1) t = none)
    (hmade : made (splitString '.' s.1) steps = true)
    (hroot : insertAll cleanup (unknown cleanup) steps = .ok root) :
    root.headAt? (splitString '.' s.1) =
      some ((unknown cleanup).head.absorb (noted (splitString '.' s.1) s.2).head) := by
  have hpath := splitString_ne_nil '.' s.1
  have hmodule := isModule_noted (h.modules s hs) (splitString '.' s.1)
  obtain ⟨before, after, rfl⟩ := List.append_of_mem hs
  have hdistinct := List.pairwise_append.1 h.distinct
  have hbefore : before.filterMap (brought (splitString '.' s.1)) = [] := by
    refine List.filterMap_eq_nil_iff.2 fun t ht => honly t (List.mem_append_left _ ht) ?_
    rintro rfl
    exact hdistinct.2.2 t ht t List.mem_cons_self rfl
  have hafter : after.filterMap (brought (splitString '.' s.1)) = [] := by
    refine List.filterMap_eq_nil_iff.2 fun t ht =>
      honly t (List.mem_append_right _ (List.mem_cons_of_mem _ ht)) ?_
    rintro rfl
    exact (List.pairwise_cons.1 hdistinct.2.1).1 t ht rfl
  obtain ⟨root₁, hroot₁, hroot⟩ := insertAll_append.1 hroot
  obtain ⟨root₂, hroot₂, hroot⟩ := insertAll_cons.1 hroot
  -- before the module is added, there is the placeholder
  have hplaceholder : root₁.headAt? (splitString '.' s.1) = some (unknown cleanup).head := by
    have hgathered := gathered_insertAll hroot₁ hpath (headAt?_of_childless rfl hpath)
    rw [made_append_cons_of_brought (brought_self s)] at hmade
    rw [meeting, hmade, if_pos rfl, hbefore] at hgathered
    obtain ⟨z, hz, rfl⟩ := hgathered
    exact hz
  have hmerged : root₂.headAt? (splitString '.' s.1) =
      some ((unknown cleanup).head.absorb (noted (splitString '.' s.1) s.2).head) := by
    obtain ⟨first, hfirst, hhead⟩ := headAt?_insert_self hroot₂ hplaceholder (brought_self s)
    have halike := precedes_of_alike (y := (unknown cleanup).head)
      ((foreign_noted _ _).trans hproject) (congrArg Form.priority hmodule.bare) hmodule.unlined rfl
    rw [halike] at hfirst
    cases hfirst
    exact hhead
  obtain ⟨z, hz, hjoined⟩ := joined_insertAll hroot hpath hmerged
  rw [hafter] at hjoined
  rw [hz, hjoined]

/-! ### Reading modules in another order -/

/-- Modules can be read if their entries can be read and added. -/
theorem exists_modules [FileSystem] {items : List Json} {root : Object}
    (hsteps : items.mapM (moduleEntry project a.requireFunction a.requireSeparator) = .ok steps)
    (hroot : insertAll a.cleanup a.root steps = .ok root) :
    ∃ b, items.foldlM (moduleOf project) a = .ok b := by
  induction items generalizing a steps with
  | nil => exact ⟨a, rfl⟩
  | cons data items ih =>
    rw [List.mapM_cons] at hsteps
    obtain ⟨e, he, hsteps⟩ := Except.ok_of_bind hsteps
    obtain ⟨es, hes, hsteps⟩ := Except.ok_of_bind hsteps
    cases hsteps
    obtain ⟨next, hnext, hroot⟩ := insertAll_cons.1 hroot
    have hadd : moduleOf project a data =
        .ok { notingModule project a data with root := next } := by
      rw [moduleOf_eq, Except.bind_of_ok he]
      refine add_eq_ok_iff.2 ⟨next, ?_, rfl⟩
      rw [notingModule_eq]
      exact hnext
    rw [List.foldlM_cons, Except.bind_of_ok hadd]
    rw [notingModule_eq]
    exact ih hes hroot

theorem modules_of_mapM [FileSystem] {items : List Json}
    (hnames : items.Pairwise fun i j => ∀ name, nameOf i = .ok name → nameOf j ≠ .ok name)
    (h : items.mapM (moduleEntry project function separator) = .ok steps) : Modules steps := by
  refine ⟨fun s hs => ?_, ?_⟩
  · obtain ⟨data, -, hdata⟩ := Except.mem_of_mapM h hs
    exact isModule_moduleEntry hdata
  · rw [Except.eq_filterMap_of_mapM h, List.pairwise_filterMap]
    refine hnames.imp fun hne s hs t ht heq => ?_
    have hname := name_moduleEntry (Except.toOption_eq_some.1 hs)
    have hname' := name_moduleEntry (Except.toOption_eq_some.1 ht)
    exact hne s.1 hname (heq ▸ hname')

theorem perm_of_mapM [FileSystem] {items items' : List Json} (hperm : items'.Perm items)
    (h : items.mapM (moduleEntry project function separator) = .ok steps)
    (h' : items'.mapM (moduleEntry project function separator) = .ok others) :
    others.Perm steps := by
  rw [Except.eq_filterMap_of_mapM h, Except.eq_filterMap_of_mapM h']
  exact hperm.filterMap _

theorem pairwise_names_of_perm {items items' : List Json} (hperm : items'.Perm items)
    (hnames : items.Pairwise fun i j => ∀ name, nameOf i = .ok name → nameOf j ≠ .ok name) :
    items'.Pairwise fun i j => ∀ name, nameOf i = .ok name → nameOf j ≠ .ok name :=
  (hperm.pairwise_iff fun hne name hi hj => hne name hj hi).2 hnames

/-- Modules that can be read in one order can be read in every order. -/
theorem exists_of_perm [FileSystem] {items items' : List Json}
    (hempty : a.root = .unknown a.cleanup)
    (hnames : items.Pairwise fun i j => ∀ name, nameOf i = .ok name → nameOf j ≠ .ok name)
    (hperm : items'.Perm items) (h : ∃ b, items.foldlM (moduleOf project) a = .ok b) :
    ∃ c, items'.foldlM (moduleOf project) a = .ok c := by
  obtain ⟨b, hb⟩ := h
  obtain ⟨steps, hsteps, -⟩ := grown_modules hb
  obtain ⟨others, hothers⟩ := Except.exists_mapM fun data hdata =>
    Except.exists_of_mapM hsteps (hperm.mem_iff.1 hdata)
  have hmodules := modules_of_mapM (pairwise_names_of_perm hperm hnames) hothers
  obtain ⟨root, hroot⟩ : ∃ root, insertAll a.cleanup (unknown a.cleanup) others = .ok root :=
    exists_insertAll hmodules
  rw [← hempty] at hroot
  exact exists_modules hothers hroot

/-- The tree of modules that were read into an empty tree. -/
theorem insertAll_of_modules [FileSystem] {b : Analysis} {items : List Json}
    (hempty : a.root = .unknown a.cleanup) (hb : items.foldlM (moduleOf project) a = .ok b)
    (hsteps : items.mapM (moduleEntry project a.requireFunction a.requireSeparator) = .ok steps) :
    insertAll a.cleanup (unknown a.cleanup) steps = .ok b.root := by
  obtain ⟨es, hes, hgrown⟩ := grown_modules hb
  obtain rfl := Except.ok.inj (hsteps.symm.trans hes)
  rw [← hempty]
  exact hgrown.tree

theorem requireType_moduleEntry [FileSystem] {e : String × Object}
    (h : moduleEntry project function separator data = .ok e) :
    e.2.details.requireType.isSome = true := by
  obtain ⟨_, _, _, _, _, -, -, -, -, he⟩ := ok_of_moduleEntry h
  rw [he]
  rfl

/-- **The order of modules.** Modules of different names are read into an empty tree in two orders.
They can be read in both orders or in none, and there are the same paths, with the same files and
the same modules in use. The objects at a path are the same in everything if in both orders no
placeholder is in the way. Where one was, a module of the project that nothing else defines has lost
what is known of requiring it, and that it is at the top. -/
theorem modules_of_perm [FileSystem] {a : Analysis} {items items' : List Json}
    (hempty : a.root = .unknown a.cleanup)
    (hnames : items.Pairwise fun i j => ∀ name, nameOf i = .ok name → nameOf j ≠ .ok name)
    (hperm : items'.Perm items) :
    ((∃ b, items.foldlM (moduleOf project) a = .ok b) ↔
      ∃ c, items'.foldlM (moduleOf project) a = .ok c) ∧
    ∀ b c steps others, items.foldlM (moduleOf project) a = .ok b →
      items'.foldlM (moduleOf project) a = .ok c →
      items.mapM (moduleEntry project a.requireFunction a.requireSeparator) = .ok steps →
      items'.mapM (moduleEntry project a.requireFunction a.requireSeparator) = .ok others →
      ∀ path, path ≠ [] → (b.root.at? path).isSome = (c.root.at? path).isSome ∧
        ∀ x y, b.root.at? path = some x → c.root.at? path = some y →
          (∀ f, f ∈ x.details.files ↔ f ∈ y.details.files) ∧
          x.details.usedModules = y.details.usedModules ∧
          (Ready path steps → Ready path others → x.head = y.head) ∧
          ∀ s ∈ steps, splitString '.' s.1 = path → s.2.details.foreign = false →
            (∀ t ∈ steps, t ≠ s → brought path t = none) → made path steps = true →
            x.form = .bare ∧ x.details.comment.text = s.2.details.comment.text ∧
            x.details.toplevel = false ∧ x.details.requireType = none ∧
            x.details.requireFunction = none ∧ x.details.requireSeparator = none ∧
            s.2.details.requireType.isSome = true := by
  constructor
  · exact ⟨exists_of_perm hempty hnames hperm,
      exists_of_perm hempty (pairwise_names_of_perm hperm hnames) hperm.symm⟩
  intro b c steps others hb hc hsteps hothers path hpath
  have hmodules := modules_of_mapM hnames hsteps
  have hperm' : others.Perm steps := perm_of_mapM hperm hsteps hothers
  have hroot := insertAll_of_modules hempty hb hsteps
  have hroot' := insertAll_of_modules hempty hc hothers
  have hadd : (Analysis.empty a.cleanup).addAll steps = .ok { Analysis.empty a.cleanup with
    root := b.root } := addAll_of_insertAll hroot
  have hadd' : (Analysis.empty a.cleanup).addAll others = .ok { Analysis.empty a.cleanup with
    root := c.root } := addAll_of_insertAll hroot'
  constructor
  · rw [Bool.eq_iff_iff, isSome_addAll hadd hpath, isSome_addAll hadd' hpath]
    simp only [defines_perm hperm', hperm'.mem_iff]
  intro x y hx hy
  have hgathered := gathered_insertAll hroot hpath (headAt?_of_childless rfl hpath)
  have hgathered' := gathered_insertAll hroot' hpath (headAt?_of_childless rfl hpath)
  rw [headAt?, hx] at hgathered
  rw [headAt?, hy] at hgathered'
  refine ⟨fun f => ?_, ?_, fun hready hready' => ?_, ?_⟩
  · have hunknown : f ∉ (Details.unknown a.cleanup).files := List.not_mem_nil
    rw [holds_addAll (collected_file f) hunknown hadd hpath hx,
      holds_addAll (collected_file f) hunknown hadd' hpath hy]
    simp only [defines_perm hperm']
  · have hused := usedModules_gathered hmodules hgathered
    have hused' := usedModules_gathered (hmodules.perm hperm') hgathered'
    refine hused.trans (Eq.trans ?_ hused'.symm)
    exact flatMap_of_perm (hperm'.symm.filterMap _) ((hmodules.contrast path).imp And.right)
  · exact head_eq_of_ready hmodules hperm' hready hready' hgathered hgathered'
  · rintro s hs rfl hproject honly hmade
    have hlost := headAt?_of_made hmodules hs hproject honly hmade hroot
    rw [headAt?, hx, Option.map_some, Option.some.injEq] at hlost
    obtain ⟨data, -, hdata⟩ := Except.mem_of_mapM hsteps hs
    have hform : x.form = .bare := congrArg Head.form hlost
    have hdetails : x.details = (Details.unknown a.cleanup).absorb
      (noted (splitString '.' s.1) s.2).details := congrArg Head.details hlost
    rw [hdetails]
    refine ⟨hform, ?_, rfl, rfl, rfl, rfl, requireType_moduleEntry hdata⟩
    have htext := congrArg Comment.text (comment_noted (splitString '.' s.1) s.2)
    exact htext

/-- The entry of a module in a file of the project, without members. -/
def moduleData (name file : String) (used : List String) : Json :=
  .obj [("name", .str name), ("file", .str file), ("description", .str "A module."),
    ("visibility", .null), ("deprecated", .bool false), ("deprecation_reason", .null),
    ("members", .arr []), ("using", .arr (used.map .str)), ("typ", .str "table")]

/-- A module that is nested in another one, before that one. -/
def nestedFirst : List Json :=
  [moduleData "m.inner" "m/inner.lua" [], moduleData "m" "m.lua" ["m.inner"]]

attribute [local instance] FileSystem.linkless

/-- The two modules can be read in both orders. The nested module is the same in both. The outer one
uses the same modules, but has lost its type if it comes last. -/
theorem lost_type_of_nestedFirst :
    ∃ b c x y, nestedFirst.foldlM (moduleOf ⟨"/", ["p"]⟩) (.start .emmyLua) = .ok b ∧
      nestedFirst.reverse.foldlM (moduleOf ⟨"/", ["p"]⟩) (.start .emmyLua) = .ok c ∧
      b.root.headAt? ["m", "inner"] = c.root.headAt? ["m", "inner"] ∧
      b.root.at? ["m"] = some x ∧ c.root.at? ["m"] = some y ∧
      x.details.usedModules = y.details.usedModules ∧ x.details.requireType = none ∧
      y.details.requireType = some "table" := by
  have hinner : nameOf (moduleData "m.inner" "m/inner.lua" []) = .ok "m.inner" := rfl
  have houter : nameOf (moduleData "m" "m.lua" ["m.inner"]) = .ok "m" := rfl
  have hnames : nestedFirst.Pairwise fun i j =>
      ∀ name, nameOf i = .ok name → nameOf j ≠ .ok name := by
    refine List.pairwise_cons.2 ⟨fun j hj name h h' => ?_, List.pairwise_singleton _ _⟩
    obtain rfl := List.mem_singleton.1 hj
    rw [hinner] at h
    rw [houter, ← h] at h'
    exact absurd (Except.ok.inj h') (by decide)
  obtain ⟨hread, hsame⟩ := @modules_of_perm ⟨"/", ["p"]⟩ _ (.start .emmyLua) nestedFirst
    nestedFirst.reverse rfl hnames (List.reverse_perm _)
  obtain ⟨b, hb⟩ : ∃ b, nestedFirst.foldlM (moduleOf ⟨"/", ["p"]⟩) (.start .emmyLua) = .ok b :=
    Except.exists_of_isOk (by decide +kernel)
  obtain ⟨c, hc⟩ := hread.1 ⟨b, hb⟩
  -- the entries in both orders
  obtain ⟨e, he⟩ : ∃ e, moduleEntry ⟨"/", ["p"]⟩ none none
      (moduleData "m.inner" "m/inner.lua" []) = .ok e := Except.exists_of_isOk (by decide +kernel)
  obtain ⟨f, hf⟩ : ∃ f, moduleEntry ⟨"/", ["p"]⟩ none none (moduleData "m" "m.lua" ["m.inner"]) =
      .ok f := Except.exists_of_isOk (by decide +kernel)
  have hepath : splitString '.' e.1 = ["m", "inner"] := by
    rw [← Except.ok.inj (hinner.symm.trans (name_moduleEntry he))]
    decide
  have hfpath : splitString '.' f.1 = ["m"] := by
    rw [← Except.ok.inj (houter.symm.trans (name_moduleEntry hf))]
    decide
  have hforeign : f.2.details.foreign = false := by
    have hcheck : ((moduleEntry ⟨"/", ["p"]⟩ none none
      (moduleData "m" "m.lua" ["m.inner"])).toOption.map fun f => f.2.details.foreign) =
        some false := by decide +kernel
    rw [hf] at hcheck
    exact Option.some.inj hcheck
  have hsteps : nestedFirst.mapM (moduleEntry ⟨"/", ["p"]⟩ none none) = .ok [e, f] := by
    rw [nestedFirst, List.mapM_cons, Except.bind_of_ok he, List.mapM_cons, Except.bind_of_ok hf]
    rfl
  have hothers : nestedFirst.reverse.mapM (moduleEntry ⟨"/", ["p"]⟩ none none) = .ok [f, e] := by
    rw [nestedFirst, List.reverse_cons, List.reverse_singleton, List.singleton_append,
      List.mapM_cons, Except.bind_of_ok hf, List.mapM_cons, Except.bind_of_ok he]
    rfl
  have hall := hsame b c [e, f] [f, e] hb hc hsteps hothers
  have htype : ((nestedFirst.reverse.foldlM (moduleOf ⟨"/", ["p"]⟩) (.start .emmyLua)).toOption.bind
      fun c => (c.root.at? ["m"]).map fun y => y.details.requireType) = some (some "table") := by
    decide +kernel
  rw [hc] at htype
  obtain ⟨y, hy, htype⟩ := Option.map_eq_some_iff.1 htype
  obtain ⟨hsome, houterSame⟩ := hall ["m"] (List.cons_ne_nil _ _)
  rw [hy, Option.isSome_some] at hsome
  obtain ⟨x, hx⟩ := Option.isSome_iff_exists.1 hsome
  obtain ⟨-, hused, -, hlost⟩ := houterSame x y hx hy
  -- the outer module, for which a placeholder was made
  have hmade : made ["m"] [e, f] = true :=
    made_cons_of_passes (by rw [Passes, hepath]; decide)
  have honly : ∀ t ∈ [e, f], t ≠ f → brought ["m"] t = none := by
    intro t ht hne
    obtain rfl : t = e := (List.mem_pair.1 ht).resolve_right hne
    exact if_neg (by rw [hepath]; decide)
  obtain ⟨-, -, -, hnone, -⟩ := hlost f (List.mem_cons_of_mem _ (List.mem_singleton_self f)) hfpath
    hforeign honly hmade
  -- the nested one, for which none was made
  have hready : Ready ["m", "inner"] [e, f] := by
    intro hmade'
    rw [← hepath, made_cons_of_brought (brought_self e)] at hmade'
    cases hmade'
  have hready' : Ready ["m", "inner"] [f, e] := by
    refine ready_of_outerFirst
      (List.pairwise_cons.2 ⟨fun t ht => ?_, List.pairwise_singleton _ _⟩) _
    obtain rfl := List.mem_singleton.1 ht
    rw [hepath, hfpath]
    decide
  have hinnerSame : b.root.headAt? ["m", "inner"] = c.root.headAt? ["m", "inner"] := by
    obtain ⟨hsome', hsame'⟩ := hall ["m", "inner"] (List.cons_ne_nil _ _)
    rw [headAt?, headAt?]
    cases hv : b.root.at? ["m", "inner"] with
    | none =>
      rw [hv, Option.isSome_none, eq_comm, Option.isSome_eq_false_iff, Option.isNone_iff_eq_none]
        at hsome'
      rw [hsome']
    | some v =>
      rw [hv, Option.isSome_some, eq_comm] at hsome'
      obtain ⟨w, hw⟩ := Option.isSome_iff_exists.1 hsome'
      obtain ⟨-, -, hhead, -⟩ := hsame' v w hv hw
      rw [hw, Option.map_some, Option.map_some, hhead hready hready']
  exact ⟨b, c, x, y, hb, hc, hinnerSame, hx, hy, hused, hnone, htype⟩

end LuaDocs.EmmyLua
