import LuaDocs.Apidoc
import LuaDocs.Proofs.Except
import LuaDocs.Proofs.Table
import Mathlib.Logic.Relation

/-!
# The pages of a run

Pages are written one after the other while they are made. Here a run is described by the list of
the pages that it writes, and a page by what it is made from: the object, the options of its
documentation, the members that are listed, and how they are divided between the page and pages of
their own.

A run that ends well has written all pages of this list, the last page with a file name stays, every
page that is listed below another one is written as well, and every page is reached from the first
one through pages that list the next.

## Main results

* `Apidoc.exists_layout`, `Apidoc.pageOf_of_layout`: what every page is made from
* `Apidoc.mem_keys_below_iff`, `Apidoc.excluded_cases`: how members are divided
* `Apidoc.exists_pages_of_files`: the files of a run that ends well
* `Apidoc.exists_sheet_of_mem_below`, `Apidoc.reaches_of_mem_pages`: the tree of pages
-/

namespace LuaDocs.Apidoc

open Text

variable {tree : Object} {ignoreFiles deeper isGlobal first : Bool} {s : Settings}
  {parentModule : Option String} {fullname : String}

/-! ### What a page is made from -/

/-- What a page is made from. -/
structure Layout (tree : Object) (ignoreFiles : Bool) (s : Settings) (deeper : Bool)
    (fullname : String) where
  object : Object
  /-- The options with those of the documentation of the object. -/
  options : Options
  members : List Member
  /-- The names that were excluded before members got pages. -/
  start : OptionValue
  /-- The names that are excluded, and the pages below. -/
  division : Division
  found : findObject tree fullname = .ok object
  settled : object.reading.options.foldlM (Options.addSetting fullname) s.options = .ok options
  started : exclusions options = .ok start
  listed : if deeper && object.kind? == some .module_ then
      Members.list tree ignoreFiles (splitString '.' fullname) object none options true =
        .ok members
    else members = []
  divided : members.foldlM (divide s fullname) ⟨start, []⟩ = .ok division

/-- The page that is made. -/
def Layout.page (l : Layout tree ignoreFiles s deeper fullname) (isGlobal : Bool)
    (parentModule : Option String) : Page :=
  let options : Table String :=
    (l.options.set "exclude-members" l.division.excluded).map fun row => (row.1, optionText row.2)
  ⟨label isGlobal l.object, fullname, parentModule,
    if isGlobal then (options.set "global" "").set "module" "" else options, l.division.below.keys⟩

/-- Every page is made so. -/
theorem exists_layout {page : Page} {below : Table Bool}
    (h : pageOf tree ignoreFiles s deeper isGlobal parentModule fullname = .ok (page, below)) :
    ∃ l : Layout tree ignoreFiles s deeper fullname,
      page = l.page isGlobal parentModule ∧ below = l.division.below := by
  unfold pageOf at h
  obtain ⟨object, hfound, h⟩ := Except.ok_of_bind h
  obtain ⟨options, hsettled, h⟩ := Except.ok_of_bind h
  obtain ⟨start, hstarted, h⟩ := Except.ok_of_bind h
  dsimp only at h
  split at h
  · next hdeeper =>
    obtain ⟨members, hlisted, h⟩ := Except.ok_of_bind h
    obtain ⟨division, hdivided, h⟩ := Except.ok_of_bind h
    obtain ⟨hpage, hbelow⟩ := Prod.mk.inj (Except.ok.inj h)
    refine ⟨⟨object, options, members, start, division, hfound, Except.ok_of_mapError hsettled,
      hstarted, ?_, hdivided⟩, hpage.symm, hbelow.symm⟩
    rw [if_pos hdeeper]
    exact Except.ok_of_mapError hlisted
  · next hdeeper =>
    obtain ⟨hpage, hbelow⟩ := Prod.mk.inj (Except.ok.inj h)
    refine ⟨⟨object, options, [], start, ⟨start, []⟩, hfound, Except.ok_of_mapError hsettled,
      hstarted, ?_, rfl⟩, hpage.symm, hbelow.symm⟩
    rw [if_neg hdeeper]

/-- Every page that is laid out can be made. -/
theorem pageOf_of_layout (l : Layout tree ignoreFiles s deeper fullname) (isGlobal : Bool)
    (parentModule : Option String) :
    pageOf tree ignoreFiles s deeper isGlobal parentModule fullname =
      .ok (l.page isGlobal parentModule, l.division.below) := by
  have hlisted := l.listed
  have hdivided := l.divided
  unfold pageOf
  refine (Except.bind_of_ok l.found _).trans ?_
  refine (Except.bind_of_ok (congrArg (Except.mapError Error.setting) l.settled) _).trans ?_
  refine (Except.bind_of_ok l.started _).trans ?_
  dsimp only
  split at hlisted
  · next hdeeper =>
    rw [if_pos hdeeper]
    refine (Except.bind_of_ok (congrArg (Except.mapError Error.members) hlisted) _).trans ?_
    exact Except.bind_of_ok hdivided _
  · next hdeeper =>
    rw [hlisted] at hdivided
    rw [if_neg hdeeper, Layout.page, ← Except.ok.inj hdivided]
    rfl

/-- There is one way to make a page. -/
theorem Layout.unique (l l' : Layout tree ignoreFiles s deeper fullname) : l = l' := by
  obtain ⟨object, options, members, start, division, hfound, hsettled, hstarted, hlisted,
    hdivided⟩ := l
  obtain ⟨object', options', members', start', division', hfound', hsettled', hstarted', hlisted',
    hdivided'⟩ := l'
  obtain rfl : object = object' := Except.ok.inj (hfound.symm.trans hfound')
  obtain rfl : options = options' := Except.ok.inj (hsettled.symm.trans hsettled')
  obtain rfl : start = start' := Except.ok.inj (hstarted.symm.trans hstarted')
  obtain rfl : members = members' := by
    split at hlisted
    · next hdeeper =>
      rw [if_pos hdeeper] at hlisted'
      exact Except.ok.inj (hlisted.symm.trans hlisted')
    · next hdeeper =>
      rw [if_neg hdeeper] at hlisted'
      exact hlisted.trans hlisted'.symm
  obtain rfl : division = division' := Except.ok.inj (hdivided.symm.trans hdivided')
  rfl

theorem Layout.below_eq_nil (l : Layout tree ignoreFiles s deeper fullname) (h : l.members = []) :
    l.division.below = [] := by
  have hdivided := l.divided
  rw [h] at hdivided
  rw [← Except.ok.inj hdivided]

/-! ### How members are divided -/

/-- The member is not described on the page of the module. -/
def separates (s : Settings) (m : Member) : Bool :=
  m.object.kind? == some .module_ || s.separateMembers

/-- The full name of a member. -/
def childName (fullname : String) (m : Member) : String :=
  if m.object.details.toplevel then m.name else fullname ++ "." ++ m.name

/-- The object of the name gets no page. -/
def isIgnored (s : Settings) (name : String) : Bool := s.ignored.any fun p => Glob.fits p name

/-- What one member does. -/
theorem divide_cases {d d' : Division} {m : Member} (h : divide s fullname d m = .ok d') :
    separates s m = false ∧ d' = d ∨ separates s m = true ∧ ∃ items, d.excluded = .nameSet items ∧
      d' = ⟨.nameSet (if items.contains m.name then items else items ++ [m.name]),
        if isIgnored s (childName fullname m) then d.below
          else d.below.set (childName fullname m) m.object.details.toplevel⟩ := by
  unfold divide at h
  split at h
  · next hkind =>
    refine .inl ⟨?_, (Except.ok.inj h).symm⟩
    simpa [separates] using hkind
  · next hkind =>
    obtain ⟨excluded, hexclude, h⟩ := Except.ok_of_bind h
    refine .inr ⟨by simpa [separates, or_iff_not_imp_left] using hkind, ?_⟩
    unfold exclude at hexclude
    split at hexclude
    · next items hitems =>
      obtain rfl := Except.ok.inj hexclude
      exact ⟨items, hitems, (Except.ok.inj h).symm⟩
    · cases hexclude

variable {d d' : Division} {members : List Member}

/-- Names can be added to those that are excluded if they stand in no order. -/
theorem exists_divided (fullname : String) (members : List Member) (items : List String)
    (below : Table Bool) :
    ∃ d, members.foldlM (divide s fullname) ⟨.nameSet items, below⟩ = .ok d := by
  induction members generalizing items below with
  | nil => exact ⟨_, rfl⟩
  | cons m members ih =>
    rw [List.foldlM_cons]
    unfold divide
    split
    · exact ih items below
    · exact ih _ _

/-- What one member does to the pages below. -/
theorem mem_keys_divide_iff {m : Member} (h : divide s fullname d m = .ok d') {name : String} :
    name ∈ d'.below.keys ↔ name ∈ d.below.keys ∨ separates s m = true ∧
      childName fullname m = name ∧ isIgnored s name = false := by
  rcases divide_cases h with ⟨hsep, rfl⟩ | ⟨hsep, items, -, rfl⟩
  · simp [hsep]
  · dsimp only
    split
    · next hignored =>
      refine ⟨.inl, fun hmem => hmem.resolve_right ?_⟩
      rintro ⟨-, rfl, hnot⟩
      rw [hignored] at hnot
      cases hnot
    · next hignored =>
      rw [Table.mem_keys_set, or_comm]
      refine or_congr_right ⟨?_, fun hname => hname.2.1.symm⟩
      rintro rfl
      exact ⟨hsep, rfl, by simpa using hignored⟩

/-- The pages below are those of the members that are not described on the page of the module. -/
theorem mem_keys_below_iff (h : members.foldlM (divide s fullname) d = .ok d') {name : String} :
    name ∈ d'.below.keys ↔ name ∈ d.below.keys ∨ ∃ m ∈ members, separates s m = true ∧
      childName fullname m = name ∧ isIgnored s name = false := by
  induction members generalizing d with
  | nil =>
    obtain rfl := Except.ok.inj h
    simp
  | cons m members ih =>
    rw [List.foldlM_cons] at h
    obtain ⟨middle, hm, hrest⟩ := Except.ok_of_bind h
    rw [ih hrest, mem_keys_divide_iff hm, List.exists_mem_cons_iff, or_assoc]

/-- A page below is that of a member, and a page of a global exactly if the member is one. -/
theorem exists_member_of_get?_below (h : members.foldlM (divide s fullname) d = .ok d')
    {name : String} {g : Bool} (hname : d'.below.get? name = some g) :
    d.below.get? name = some g ∨ ∃ m ∈ members, separates s m = true ∧
      childName fullname m = name ∧ m.object.details.toplevel = g := by
  induction members generalizing d with
  | nil =>
    obtain rfl := Except.ok.inj h
    exact .inl hname
  | cons m members ih =>
    rw [List.foldlM_cons] at h
    obtain ⟨middle, hm, hrest⟩ := Except.ok_of_bind h
    rcases ih hrest with hmiddle | ⟨m', hm', hrest⟩
    · rcases divide_cases hm with ⟨-, rfl⟩ | ⟨hsep, items, -, rfl⟩
      · exact .inl hmiddle
      · dsimp only at hmiddle
        split at hmiddle
        · exact .inl hmiddle
        · rw [Table.get?_set] at hmiddle
          split at hmiddle
          · next heq => exact .inr ⟨m, List.mem_cons_self, hsep, heq, Option.some.inj hmiddle⟩
          · exact .inl hmiddle
    · exact .inr ⟨m', List.mem_cons_of_mem _ hm', hrest⟩

theorem keyed_below (h : members.foldlM (divide s fullname) d = .ok d')
    (hd : Table.Keyed d.below) : Table.Keyed d'.below := by
  refine Except.foldlM_induction (P := fun d => Table.Keyed d.below) hd ?_ h
  intro m _ d d' hd hm
  rcases divide_cases hm with ⟨-, rfl⟩ | ⟨-, items, -, rfl⟩
  · exact hd
  · dsimp only
    split
    · exact hd
    · exact Table.keyed_set hd _ _

/-- The names that are excluded: those that were, and those of the members that are not described on
the page of the module. -/
theorem excluded_cases (h : members.foldlM (divide s fullname) d = .ok d') :
    (∀ m ∈ members, separates s m = false) ∧ d'.excluded = d.excluded ∨
      ∃ items items', d.excluded = .nameSet items ∧ d'.excluded = .nameSet items' ∧
        ∀ name, name ∈ items' ↔
          name ∈ items ∨ ∃ m ∈ members, separates s m = true ∧ m.name = name := by
  induction members generalizing d with
  | nil =>
    obtain rfl := Except.ok.inj h
    exact .inl ⟨List.forall_mem_nil _, rfl⟩
  | cons m members ih =>
    rw [List.foldlM_cons] at h
    obtain ⟨middle, hm, hrest⟩ := Except.ok_of_bind h
    rcases divide_cases hm with ⟨hsep, rfl⟩ | ⟨hsep, items, hitems, rfl⟩
    · rcases ih hrest with ⟨hnone, hsame⟩ | ⟨items, items', hitems, hitems', hmem⟩
      · exact .inl ⟨List.forall_mem_cons.2 ⟨hsep, hnone⟩, hsame⟩
      · refine .inr ⟨items, items', hitems, hitems', fun name => ?_⟩
        rw [hmem, List.exists_mem_cons_iff]
        simp [hsep]
    · have hadd : ∀ name, name ∈ (if items.contains m.name then items else items ++ [m.name]) ↔
          name ∈ items ∨ m.name = name := by
        intro name
        split
        · next hknown =>
          refine ⟨.inl, fun hor => hor.elim id fun heq => ?_⟩
          rw [← heq]
          simpa using hknown
        · rw [List.mem_append, List.mem_singleton, eq_comm]
      rcases ih hrest with ⟨hnone, hsame⟩ | ⟨items₁, items', hitems₁, hitems', hmem⟩
      · refine .inr ⟨items, _, hitems, hsame, fun name => ?_⟩
        have hno : ¬ ∃ m ∈ members, separates s m = true ∧ m.name = name := by
          rintro ⟨m', hm', hsep', -⟩
          rw [hnone m' hm'] at hsep'
          cases hsep'
        rw [hadd, List.exists_mem_cons_iff, or_iff_left hno]
        simp [hsep]
      · obtain rfl := OptionValue.nameSet.inj hitems₁
        refine .inr ⟨items, items', hitems, hitems', fun name => ?_⟩
        rw [hmem, hadd, List.exists_mem_cons_iff, or_assoc]
        simp [hsep]

/-! ### The pages of a run -/

/-- What a page is asked for: the page of an object, as the first one or below another page, and how
many levels of pages may follow. -/
structure Visit where
  /-- How many levels of pages may follow. -/
  depth : Nat
  first : Bool
  isGlobal : Bool
  /-- The current module on the page. -/
  parentModule : Option String
  fullname : String

/-- What a page below another one is asked for. -/
def Visit.child (v : Visit) (c : String × Bool) : Visit :=
  ⟨v.depth - 1, false, c.2, if c.2 then some v.fullname else v.parentModule, c.1⟩

/-- A page that is written. -/
structure Sheet extends Visit where
  page : Page
  /-- The pages below it, with whether they are about globals. -/
  below : Table Bool
  text : String

/-- The name of the file in which a page is written. -/
def Sheet.file (format : String) (w : Sheet) : String :=
  (if w.first then "index" else fileName w.fullname) ++ "." ++ format

/-- The page is what it was asked for. -/
structure Sheet.Made (tree : Object) (ignoreFiles : Bool) (s : Settings) (w : Sheet) : Prop where
  page : pageOf tree ignoreFiles s (0 < w.depth) w.isGlobal w.parentModule w.fullname =
    .ok (w.page, w.below)
  text : pageText s.format w.page = .ok w.text

/-- The pages that are written for an object and below it, in order. -/
def pages (tree : Object) (ignoreFiles : Bool) (s : Settings) (depth : Nat)
    (first isGlobal : Bool) (parentModule : Option String) (fullname : String) :
    Except Error (List Sheet) := do
  let made ← pageOf tree ignoreFiles s (0 < depth) isGlobal parentModule fullname
  let text ← pageText s.format made.1
  let sheet : Sheet := ⟨⟨depth, first, isGlobal, parentModule, fullname⟩, made.1, made.2, text⟩
  match depth with
  | 0 => return [sheet]
  | depth + 1 => do
    let rest ← made.2.mapM fun child =>
      pages tree ignoreFiles s depth false child.2
        (if child.2 then some fullname else parentModule) child.1
    return sheet :: rest.flatten

/-- The pages of a run, from what the first of them is asked for. -/
def Visit.pages (tree : Object) (ignoreFiles : Bool) (s : Settings) (v : Visit) :
    Except Error (List Sheet) :=
  Apidoc.pages tree ignoreFiles s v.depth v.first v.isGlobal v.parentModule v.fullname

/-- The first page of a run and what follows it. -/
theorem pages_cases {v : Visit} {ws : List Sheet}
    (h : v.pages tree ignoreFiles s = .ok ws) : ∃ w rest, ws = w :: rest.flatten ∧ w.toVisit = v ∧
      w.Made tree ignoreFiles s ∧ (v.depth = 0 ∧ rest = [] ∨ v.depth ≠ 0 ∧
        w.below.mapM (fun c => (v.child c).pages tree ignoreFiles s) = .ok rest) := by
  obtain ⟨depth, first, isGlobal, parentModule, fullname⟩ := v
  unfold Visit.pages at h
  cases depth with
  | zero =>
    rw [pages] at h
    obtain ⟨made, hmade, h⟩ := Except.ok_of_bind h
    obtain ⟨text, htext, h⟩ := Except.ok_of_bind h
    obtain rfl := Except.ok.inj h
    exact ⟨_, [], rfl, rfl, ⟨hmade, htext⟩, .inl ⟨rfl, rfl⟩⟩
  | succ depth =>
    rw [pages] at h
    obtain ⟨made, hmade, h⟩ := Except.ok_of_bind h
    obtain ⟨text, htext, h⟩ := Except.ok_of_bind h
    obtain ⟨rest, hrest, h⟩ := Except.ok_of_bind h
    obtain rfl := Except.ok.inj h
    exact ⟨_, rest, rfl, rfl, ⟨hmade, htext⟩, .inr ⟨Nat.succ_ne_zero depth, hrest⟩⟩

/-- No page stands below one that nothing may follow. -/
theorem Sheet.Made.below_of_depth {w : Sheet} (h : w.Made tree ignoreFiles s)
    (hdepth : w.depth = 0) : w.below = [] := by
  obtain ⟨l, -, hbelow⟩ := exists_layout h.page
  rw [hbelow, l.below_eq_nil]
  have hlisted := l.listed
  rwa [if_neg (by simp [hdepth])] at hlisted

/-- What follows the pages below holds of all pages: induction over the levels of a run. -/
theorem pages_induction {P : Visit → List Sheet → Prop}
    (hstep : ∀ (w : Sheet) (rest : List (List Sheet)), w.Made tree ignoreFiles s →
      (∀ c ∈ w.below, ∃ ws ∈ rest, (w.child c).pages tree ignoreFiles s = .ok ws) →
      (∀ ws ∈ rest, ∃ c ∈ w.below, (w.child c).pages tree ignoreFiles s = .ok ws ∧
        P (w.child c) ws) →
      P w.toVisit (w :: rest.flatten))
    {v : Visit} {ws : List Sheet} (h : v.pages tree ignoreFiles s = .ok ws) : P v ws := by
  induction hn : v.depth generalizing v ws with
  | zero =>
    obtain ⟨w, rest, rfl, rfl, hmade, ⟨-, rfl⟩ | ⟨hne, -⟩⟩ := pages_cases h
    · refine hstep w [] hmade ?_ (List.forall_mem_nil _)
      rw [hmade.below_of_depth hn]
      exact List.forall_mem_nil _
    · exact absurd hn hne
  | succ n ih =>
    obtain ⟨w, rest, rfl, rfl, hmade, ⟨hzero, -⟩ | ⟨-, hrest⟩⟩ := pages_cases h
    · omega
    · refine hstep w rest hmade (fun c hc => ?_) fun ws hws => ?_
      · obtain ⟨ws, hws⟩ := Except.exists_of_mapM hrest hc
        refine ⟨ws, ?_, hws⟩
        rw [Except.eq_filterMap_of_mapM hrest, List.mem_filterMap]
        exact ⟨c, hc, Except.toOption_eq_some.2 hws⟩
      · obtain ⟨c, hc, hpages⟩ := Except.mem_of_mapM hrest hws
        exact ⟨c, hc, hpages, ih hpages (by simp [Visit.child, hn])⟩

/-- The page lists the other one. -/
def Sheet.Lists (w w' : Sheet) : Prop := ∃ c ∈ w.below, w'.toVisit = w.child c

variable {v : Visit} {ws : List Sheet}

theorem made_of_mem_pages (h : v.pages tree ignoreFiles s = .ok ws) :
    ∀ w ∈ ws, w.Made tree ignoreFiles s := by
  refine pages_induction (P := fun _ ws => ∀ w ∈ ws, w.Made tree ignoreFiles s) ?_ h
  intro w rest hmade _ hrest
  refine List.forall_mem_cons.2 ⟨hmade, fun w' hw' => ?_⟩
  obtain ⟨ws', hws', hmem⟩ := List.mem_flatten.1 hw'
  obtain ⟨c, -, -, hall⟩ := hrest ws' hws'
  exact hall w' hmem

/-- The first page of a run is the one that was asked for. No other page is written as the first,
and fewer levels may follow the others. -/
theorem rest_pages (h : v.pages tree ignoreFiles s = .ok ws) :
    ∃ root rest, ws = root :: rest ∧ root.toVisit = v ∧
      ∀ w ∈ rest, w.first = false ∧ w.depth < v.depth := by
  refine pages_induction (P := fun v ws => ∃ root rest, ws = root :: rest ∧ root.toVisit = v ∧
    ∀ w ∈ rest, w.first = false ∧ w.depth < v.depth) ?_ h
  intro w rest hmade _ hrest
  refine ⟨w, rest.flatten, rfl, rfl, fun w' hw' => ?_⟩
  obtain ⟨ws', hws', hmem⟩ := List.mem_flatten.1 hw'
  obtain ⟨c, hc, -, root, others, rfl, hvisit, hall⟩ := hrest ws' hws'
  have hdepth : (w.child c).depth < w.depth := by
    have hpos : w.depth ≠ 0 := fun hzero => by
      rw [hmade.below_of_depth hzero] at hc
      cases hc
    show w.depth - 1 < w.depth
    omega
  rcases List.mem_cons.1 hmem with rfl | hother
  · rw [hvisit]
    exact ⟨rfl, hdepth⟩
  · exact ⟨(hall w' hother).1, Nat.lt_trans (hall w' hother).2 hdepth⟩

/-- Every page that is listed is written. -/
theorem exists_sheet_of_mem_below (h : v.pages tree ignoreFiles s = .ok ws) :
    ∀ w ∈ ws, ∀ c ∈ w.below, ∃ w' ∈ ws, w'.toVisit = w.child c := by
  refine pages_induction
    (P := fun _ ws => ∀ w ∈ ws, ∀ c ∈ w.below, ∃ w' ∈ ws, w'.toVisit = w.child c) ?_ h
  intro w rest _ hbelow hrest
  refine List.forall_mem_cons.2 ⟨fun c hc => ?_, fun w' hw' c hc => ?_⟩
  · obtain ⟨ws', hws', hpages⟩ := hbelow c hc
    obtain ⟨first, others, rfl, hvisit, -⟩ := rest_pages hpages
    exact ⟨first, List.mem_cons_of_mem _ (List.mem_flatten.2 ⟨_, hws', List.mem_cons_self⟩), hvisit⟩
  · obtain ⟨ws', hws', hmem⟩ := List.mem_flatten.1 hw'
    obtain ⟨d, -, -, hall⟩ := hrest ws' hws'
    obtain ⟨w'', hw'', hvisit⟩ := hall w' hmem c hc
    exact ⟨w'', List.mem_cons_of_mem _ (List.mem_flatten.2 ⟨ws', hws', hw''⟩), hvisit⟩

/-- Every page is reached from the first one through pages that list the next. -/
theorem reaches_of_mem_pages (h : v.pages tree ignoreFiles s = .ok ws) :
    ∃ root rest, ws = root :: rest ∧ root.toVisit = v ∧ ∀ w ∈ ws,
      Relation.ReflTransGen (fun a b => a ∈ ws ∧ b ∈ ws ∧ a.Lists b) root w := by
  refine pages_induction (P := fun v ws => ∃ root rest, ws = root :: rest ∧ root.toVisit = v ∧
    ∀ w ∈ ws, Relation.ReflTransGen (fun a b => a ∈ ws ∧ b ∈ ws ∧ a.Lists b) root w) ?_ h
  intro w rest _ _ hrest
  refine ⟨w, rest.flatten, rfl, rfl, List.forall_mem_cons.2 ⟨.refl, fun w' hw' => ?_⟩⟩
  obtain ⟨ws', hws', hmem⟩ := List.mem_flatten.1 hw'
  obtain ⟨c, hc, -, root, others, rfl, hvisit, hall⟩ := hrest ws' hws'
  have hsub : ∀ a ∈ root :: others, a ∈ w :: rest.flatten := fun a ha =>
    List.mem_cons_of_mem _ (List.mem_flatten.2 ⟨_, hws', ha⟩)
  refine .head ⟨List.mem_cons_self, hsub root List.mem_cons_self, c, hc, hvisit⟩ ?_
  refine Relation.ReflTransGen.mono ?_ _ _ (hall w' hmem)
  exact fun a b hab => ⟨hsub a hab.1, hsub b hab.2.1, hab.2.2⟩

/-! ### The files of a run -/

/-- The row of files that a page makes. -/
def Sheet.row (format : String) (w : Sheet) : File := (w.file format, w.text)

/-- The files that pages make when they are written one after the other. -/
def filesOf (format : String) (ws : List Sheet) : List File :=
  Table.update [] (ws.map (Sheet.row format))

/-- Generating does what the list of pages says: it writes the pages, or fails as the list does. -/
structure Writes (format : String) (r : Except Error (List Sheet)) (x : Generation Unit) :
    Prop where
  ok : ∀ ws, r = .ok ws → ∀ files,
    x.run.run files = (.ok (), Table.update files (ws.map (Sheet.row format)))
  error : ∀ e, r = .error e → ∀ files, (x.run.run files).1 = .error e

theorem run_bind_error {α : Type} {x : Generation α} {files : List File} {e : Error}
    (h : (x.run.run files).1 = .error e) (f : α → Generation Unit) :
    ((x >>= f).run.run files).1 = .error e := by
  obtain ⟨files', hx⟩ : ∃ files', x.run.run files = (.error e, files') := ⟨_, Prod.ext h rfl⟩
  rw [ExceptT.run_bind_of_error hx]

/-- Pages one after the other. -/
theorem writes_forM {format : String} {f : String × Bool → Except Error (List Sheet)}
    {g : String × Bool → Generation Unit} (h : ∀ c, Writes format (f c) (g c))
    (below : Table Bool) :
    Writes format ((below.mapM f).map List.flatten) (below.forM g) := by
  induction below with
  | nil =>
    refine ⟨fun ws hws files => ?_, fun e he => ?_⟩
    · obtain rfl := Except.ok.inj hws
      rfl
    · cases he
  | cons c below ih =>
    have hforM : (c :: below).forM g = g c >>= fun _ => below.forM g := rfl
    rw [List.mapM_cons, hforM]
    refine ⟨fun ws hws files => ?_, fun e he files => ?_⟩
    · obtain ⟨rest, hrest, rfl⟩ := Except.ok_of_map hws
      obtain ⟨own, hown, hrest⟩ := Except.ok_of_bind hrest
      obtain ⟨others, hothers, hrest⟩ := Except.ok_of_bind hrest
      obtain rfl := Except.ok.inj hrest
      rw [ExceptT.run_bind_of_ok ((h c).ok own hown files),
        ih.ok others.flatten (by rw [hothers]; rfl), List.flatten_cons, List.map_append]
      simp only [Table.update, List.foldl_append]
    · cases hown : f c with
      | error e' =>
        rw [hown] at he
        obtain rfl : e' = e := Except.error.inj he
        exact run_bind_error ((h c).error e' hown files) _
      | ok own =>
        rw [ExceptT.run_bind_of_ok ((h c).ok own hown files)]
        refine ih.error e ?_ _
        rw [hown] at he
        cases hothers : below.mapM f with
        | error e' =>
          rw [hothers] at he
          exact he
        | ok others =>
          rw [hothers] at he
          cases he

theorem writes_liftExcept {α : Type} {format : String} {r : Except Error α}
    {k : α → Except Error (List Sheet)} {x : α → Generation Unit}
    (h : ∀ a, r = .ok a → Writes format (k a) (x a)) :
    Writes format (r >>= k) (generate.liftExcept r >>= x) := by
  cases r with
  | error e =>
    refine ⟨fun ws hws => ?_, fun e' he files => ?_⟩
    · cases hws
    · obtain rfl : e = e' := Except.error.inj he
      rfl
  | ok a => exact h a rfl

/-- One page and those that follow it. -/
theorem writes_write {format : String} {r : Except Error (List Sheet)} {x : Generation Unit}
    (w : Sheet) (h : Writes format r x) :
    Writes format (r.map (w :: ·)) (write (w.file format) w.text >>= fun _ => x) := by
  have hwrite : ∀ files, (write (w.file format) w.text).run.run files =
      (.ok (), Table.set files (w.file format) w.text) := fun _ => rfl
  refine ⟨fun ws hws files => ?_, fun e he files => ?_⟩
  · obtain ⟨rest, hrest, rfl⟩ := Except.ok_of_map hws
    rw [ExceptT.run_bind_of_ok (hwrite files), h.ok rest hrest]
    rfl
  · rw [ExceptT.run_bind_of_ok (hwrite files)]
    refine h.error e ?_ _
    cases r with
    | error e' => exact he
    | ok ws => cases he

/-- Generating does what the list of pages says. -/
theorem writes_generate (tree : Object) (ignoreFiles : Bool) (s : Settings) (depth : Nat)
    (first isGlobal : Bool) (parentModule : Option String) (fullname : String) :
    Writes s.format (pages tree ignoreFiles s depth first isGlobal parentModule fullname)
      (generate tree ignoreFiles s depth first isGlobal parentModule fullname) := by
  induction depth generalizing first isGlobal parentModule fullname with
  | zero =>
    rw [pages, generate]
    refine writes_liftExcept fun made _ => writes_liftExcept fun text _ => ?_
    have hend : Writes s.format (.ok []) (pure ()) :=
      ⟨fun ws hws files => by obtain rfl := Except.ok.inj hws; rfl, fun e he => by cases he⟩
    exact writes_write
      ⟨⟨0, first, isGlobal, parentModule, fullname⟩, made.1, made.2, text⟩ hend
  | succ depth ih =>
    rw [pages, generate]
    refine writes_liftExcept fun made _ => writes_liftExcept fun text _ => ?_
    have hsame : ∀ (w : Sheet) (r : Except Error (List (List Sheet))),
        (r.map List.flatten).map (w :: ·) = r >>= fun rest => pure (w :: rest.flatten) := by
      intro w r
      cases r <;> rfl
    have hall := writes_write
      ⟨⟨depth + 1, first, isGlobal, parentModule, fullname⟩, made.1, made.2, text⟩
      (writes_forM (fun c => ih false c.2 (if c.2 then some fullname else parentModule) c.1) made.2)
    rw [hsame] at hall
    exact hall

/-- **A run that ends well has written the pages of its list.** -/
theorem exists_pages_of_files {generated : List File}
    (h : files tree ignoreFiles s fullname = (generated, none)) :
    ∃ ws, Visit.pages tree ignoreFiles { s with options := withPageDefaults s.options }
        ⟨s.depth.toNat, true, false, none, fullname⟩ = .ok ws ∧
      generated = filesOf s.format ws := by
  have hwrites := writes_generate tree ignoreFiles
    { s with options := withPageDefaults s.options } s.depth.toNat true false none fullname
  unfold files at h
  dsimp only at h
  unfold Visit.pages
  cases hpages : pages tree ignoreFiles { s with options := withPageDefaults s.options }
      s.depth.toNat true false none fullname with
  | ok ws =>
    rw [hwrites.ok ws hpages] at h
    exact ⟨ws, rfl, (Prod.mk.inj h).1.symm⟩
  | error e =>
    have herror := hwrites.error e hpages []
    split at h
    · next hrun =>
      rw [hrun] at herror
      cases herror
    · cases h

/-- **A run for which there is a list of pages writes them.** -/
theorem files_of_pages {ws : List Sheet}
    (h : Visit.pages tree ignoreFiles { s with options := withPageDefaults s.options }
      ⟨s.depth.toNat, true, false, none, fullname⟩ = .ok ws) :
    files tree ignoreFiles s fullname = (filesOf s.format ws, none) := by
  have hwrites := writes_generate tree ignoreFiles
    { s with options := withPageDefaults s.options } s.depth.toNat true false none fullname
  unfold files
  dsimp only
  rw [hwrites.ok ws h]
  rfl

end LuaDocs.Apidoc
