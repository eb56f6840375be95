import LuaDocs.Proofs.Auto.Paths

/-!
# Directives enter objects under their paths

A directive finds the object that it names somewhere in the tree, and sets the context to the
module and the class there before it describes the object. So the scene of the object starts with
the invariant on paths, and every member that is described keeps it. An object that is moved by its
own documentation is entered elsewhere, and the members in it with it.

A global stays in the module in which its directive stands. That has no part in the name of a
variable or a function, but it has in that of a module.
-/

namespace LuaDocs

open Text Index Render Relation

namespace Auto

variable {site : Site} {c : Context} {options : Options} {argument : String} {target : Target}
  {signatures : Option (List String)}

/-! ### The object that a directive names -/

theorem Target.homeName_of_local (h : target.member.object.details.toplevel = false) :
    (target.context c).homeName =
      joinGiven [some target.location.moduleName, some target.location.className] := by
  rw [Target.context, Context.homeName_push, Target.home, h]
  rfl

theorem Target.homeName_of_global (h : target.member.object.details.toplevel = true) :
    (target.context c).homeName = joinGiven [c.moduleName.get?] := by
  rw [Target.context, Context.homeName_push, Target.home, h]
  exact joinGiven_erase [_] []

/-- The object that a directive names does not depend on the module in which the directive stands:
it is not a module that is a global, or there is no such module. -/
def Target.Independent (target : Target) (c : Context) : Prop :=
  target.member.object.details.toplevel = true →
    target.member.object.kind? = some .module_ → Context.nonEmpty c.moduleName.get? = none

/-- **The object that a directive names is at its path**, in the context that the directive sets. -/
theorem Target.wellPlaced_scene (hsite : site.Plain)
    (h : resolve site c options argument = .ok (target, signatures)) (ho : Visible options)
    (hput : target.member.object.StaysPut) (hfree : target.Independent c) (wanted : Option ObjType)
    (body : Render (List Node))
    (hlegible : signatures ≠ none →
      (target.scene c argument options wanted signatures body).Legible site) :
    (target.scene c argument options wanted signatures body).WellPlaced site := by
  obtain ⟨hentry, ⟨m, k, hparent, hm, hk⟩, hsignatures⟩ := target_of_resolve h
  have hplain := hsite.names _ hentry
  have hne : ∀ name ∈ m ++ k, name ≠ "" := fun name hmem =>
    Name.ne_empty_of_isPlain (hplain name (by rw [hparent]; exact List.mem_append_left _ hmem))
  refine ⟨hentry, ⟨m ++ k, hparent, ?_⟩, ho, hput, ?_, hlegible⟩
  · cases htop : target.member.object.details.toplevel with
    | false =>
      rw [if_neg (by simp [Scene.object, Scene.member, Target.scene, htop]),
        Target.scene, Context.homeName_settle, Target.homeName_of_local htop, hm, hk,
        joinGiven_join hne]
    | true =>
      have hroot : m ++ k = [] := by
        have hlength := hsite.globals _ hentry htop
        rw [hparent, List.length_append, List.length_singleton] at hlength
        exact List.eq_nil_of_length_eq_zero (by omega)
      rw [hroot]
      split
      · rfl
      · next hpage =>
        have hmodule : target.member.object.kind? = some .module_ := by
          simpa [Scene.onPage, Scene.object, Scene.member, Target.scene, htop] using hpage
        rw [Target.scene, Context.homeName_settle, Target.homeName_of_global htop, joinGiven_eq,
          List.filterMap_cons_none (hfree htop hmodule)]
        rfl
  · intro sigs hsigs sig hsig
    obtain ⟨line, own, after, hline, rfl⟩ := hsignatures sigs hsigs sig hsig
    have hown : Name.isPlain target.member.name = true :=
      hplain target.member.name (by rw [hparent]; simp)
    exact Signature.readName_append hline (Name.isComponent_of_isPlain hown)

/-! ### The objects that are described with it -/

namespace Scene

variable {a z : Scene}

/-- The object is entered where it stands in the tree: its documentation does not move it, and it is
marked as a global if it is one. -/
def Ordinary (z : Scene) : Prop :=
  z.object.StaysPut ∧ (z.member.path.length = 1 → z.object.details.toplevel = true)

instance (z : Scene) : Decidable z.Ordinary :=
  inferInstanceAs (Decidable (_ ∧ (_ → _)))

/-- The object of the second scene is described with that of the first one, through ordinary
objects, and is one itself. -/
def InPlace (site : Site) : Scene → Scene → Prop :=
  ReflTransGen fun a z => z ∈ a.members site ∧ z.Ordinary

theorem InPlace.described (h : a.InPlace site z) : a.Described site z :=
  ReflTransGen.mono (fun _ _ hstep => hstep.1) _ _ h

/-- The object of the second scene is, or is below, the constructor of a class or an object that is
not ordinary. -/
def Displaced (site : Site) (a z : Scene) : Prop :=
  ∃ x y, a.InPlace site x ∧ Step site x y ∧ ¬ (y ∈ x.members site ∧ y.Ordinary) ∧
    y.Attempted site z

/-- A scene is reached through ordinary objects, or there is a first step that is not. -/
theorem inPlace_or_displaced (h : a.Attempted site z) :
    a.InPlace site z ∨ a.Displaced site z := by
  induction h with
  | refl => exact .inl .refl
  | @tail w z _ hstep ih =>
    rcases ih with hw | ⟨x, y, hx, hxy, hnot, hy⟩
    · by_cases hz : z ∈ w.members site ∧ z.Ordinary
      · exact .inl (hw.tail hz)
      · exact .inr ⟨w, z, hw, hstep, hz, .refl⟩
    · exact .inr ⟨x, y, hx, hxy, hnot, hy.tail hstep⟩

/-- **Objects that are described with one at its path, through ordinary objects, are at their
paths.** -/
theorem wellPlaced_of_inPlace (hsite : site.Plain) (ha : a.WellPlaced site)
    (hadmitted : ∀ z, a.Described site z → ∃ kind options, z.Admitted kind options)
    (h : a.InPlace site z) : z.WellPlaced site := by
  induction h with
  | refl => exact ha
  | tail hy hstep ih =>
    obtain ⟨kind, options, hy'⟩ := hadmitted _ (InPlace.described hy)
    exact wellPlaced_member ih hsite hy' hstep.1 hstep.2.1 hstep.2.2

end Scene

end Auto

namespace Directive

open Auto

section Run

variable {site : Site} {s t : State} {wanted : Option ObjType} {argument : String}
  {options : Options} {items : List Item} {K : String → Prop} {nodes : List Node}

/-- What a directive that ends well has entered: the objects that are described with the one that it
names, and nothing but these, what its body and the comments enter, and what is below them. -/
theorem entered_of_run (hcareful : site.Careful) (hbody : KeepsContext site (Item.renderAll items))
    (henter : EntersOnly site K (Item.renderAll items))
    (hdocs : CommentsHave (fun x => KeepsContext site x ∧ EntersOnly site K x) site s.page.context
      options argument wanted (Item.renderAll items))
    (hrun : ((Directive.auto wanted).run (some argument) options (Item.renderAll items)).runOn
      site s = (.ok nodes, t)) :
    ∃ target signatures a,
      resolve site s.page.context options argument = .ok (target, signatures) ∧
      a = target.scene s.page.context argument options wanted signatures (Item.renderAll items) ∧
      a.Entered site t ∧
      ∀ key, t.index.objects.has key = true → s.index.objects.has key = true ∨ K key ∨
        ∃ z, a.Attempted site z ∧ key ∈ z.keys site := by
  let L : String → Prop := fun key => K key ∨ ∃ target signatures z,
    resolve site s.page.context options argument = .ok (target, signatures) ∧
    (target.scene s.page.context argument options wanted signatures
      (Item.renderAll items)).Attempted site z ∧ key ∈ z.keys site
  have hitems : Respects site (Tidy L) Failure.Fatal (Item.renderAll items) :=
    (Item.kept_renderAll hcareful items).tidy hbody (henter.mono fun _ => .inl)
  have hin : ∀ text target signatures, some argument = some text →
      resolve site s.page.context options text = .ok (target, signatures) →
      (target.scene s.page.context text options wanted signatures
        (Item.renderAll items)).Within site L := by
    rintro text target signatures ⟨⟩ hresolve
    refine ⟨fun z hz key hkey => .inr ⟨target, signatures, z, hresolve, hz, hkey⟩,
      fun z hz titles own hown => ?_⟩
    obtain ⟨hkeeps, hown⟩ := hdocs target signatures hresolve z hz titles own hown
    exact (hcareful titles own).tidy hkeeps (hown.mono fun _ => .inl)
  obtain ⟨hst, text, target, signatures, htext, hresolve, hentered⟩ :=
    (Auto.ensures_run wanted (some argument) options hitems hin).of_ok hrun
  cases htext
  refine ⟨target, signatures, _, hresolve, rfl, hentered, fun key hkey => ?_⟩
  refine (hst.entered key hkey).imp_right (Or.imp_right ?_)
  rintro ⟨target', signatures', z, hresolve', hz⟩
  rw [hresolve] at hresolve'
  cases hresolve'
  exact ⟨z, hz⟩

/-- **A directive enters objects under their paths.** If a directive ends well that is not told to
leave objects out of the tables, and if its body and the comments on the objects that it tries to
describe leave the context as they found it, then it has found the object that it names. If the
documentation of the object does not move it, then this object, and every object that is described
with it through ordinary ones, is entered under its path in the tree and under no other name,
whatever the context of the directive is. Nothing else is entered, except by the body, by comments
and for objects that are displaced. -/
theorem listed_under_path (hsite : site.Plain) (hcareful : site.Careful)
    {given : List (String × Option String)}
    (hoptions : (Directive.auto wanted).readOptions given = .ok options)
    (hindex : options.has "no-index" = false) (holder : options.has "noindex" = false)
    (hbody : KeepsContext site (Item.renderAll items))
    (henter : EntersOnly site K (Item.renderAll items))
    (hdocs : CommentsHave (fun x => KeepsContext site x ∧ EntersOnly site K x) site s.page.context
      options argument wanted (Item.renderAll items))
    (hrun : ((Directive.auto wanted).run (some argument) options (Item.renderAll items)).runOn
      site s = (.ok nodes, t)) :
    ∃ target signatures a,
      resolve site s.page.context options argument = .ok (target, signatures) ∧
      a = target.scene s.page.context argument options wanted signatures (Item.renderAll items) ∧
      (target.member.object.StaysPut → target.Independent s.page.context →
        (signatures ≠ none → a.Legible site) →
        (∀ z, a.InPlace site z →
          (z.member.path, z.object) ∈ site.tree.entries ∧
          z.keys site = [joinStrings '.' z.member.path] ∧
          Listed (joinStrings '.' z.member.path) t) ∧
        ∀ key, t.index.objects.has key = true →
          s.index.objects.has key = true ∨ K key ∨
          (∃ z, a.InPlace site z ∧ key = joinStrings '.' z.member.path) ∨
          ∃ z, a.Displaced site z ∧ key ∈ z.keys site) := by
  have hvisible : Visible options :=
    ⟨by simpa [Table.has] using hindex, by simpa [Table.has] using holder,
      worded_readOptions hoptions⟩
  obtain ⟨target, signatures, a, hresolve, ha, hentered, hnew⟩ :=
    entered_of_run hcareful hbody henter hdocs hrun
  refine ⟨target, signatures, a, hresolve, ha, fun hput hfree hlegible => ?_⟩
  have hkeys : ∀ z, a.InPlace site z → (z.member.path, z.object) ∈ site.tree.entries ∧
      z.keys site = [joinStrings '.' z.member.path] := by
    intro z hz
    rw [ha] at hlegible
    have hw : a.WellPlaced site := ha ▸ Target.wellPlaced_scene hsite hresolve hvisible hput
      hfree wanted (Item.renderAll items) hlegible
    have hplaced := Scene.wellPlaced_of_inPlace hsite hw (fun y hy => (hentered y hy).1) hz
    obtain ⟨⟨kind, own, hadmitted⟩, -⟩ := hentered z hz.described
    exact ⟨hplaced.entry, Scene.keys_eq hplaced hsite hadmitted⟩
  refine ⟨fun z hz => ?_, fun key hkey => ?_⟩
  · obtain ⟨hentry, heq⟩ := hkeys z hz
    refine ⟨hentry, heq, (hentered z hz.described).2 _ ?_⟩
    rw [heq]
    exact List.mem_singleton_self _
  · refine (hnew key hkey).imp_right (Or.imp_right ?_)
    rintro ⟨z, hz, hmem⟩
    refine (Scene.inPlace_or_displaced hz).imp (fun hz' => ⟨z, hz', ?_⟩) fun hz' => ⟨z, hz', hmem⟩
    rw [(hkeys z hz').2] at hmem
    exact List.mem_singleton.1 hmem

end Run

/-- A variable of which nothing is known. -/
def unknownVariable : Object := ⟨.unknown false, .data none none, []⟩

/-- All members are described. -/
def allMembers : Options := [("members", .all), ("undoc-members", .all)]

/-- The module `m` holds the table `t`, which holds the variable `x`. -/
def nestedTree : Object :=
  let table : Object := ⟨.unknown false, .table, [("x", unknownVariable)]⟩
  ⟨.unknown false, .bare, [("m", ⟨.unknown false, .bare, [("t", table)]⟩)]⟩

/-- What comes of describing the table `m.t` in a class of another module. -/
def nestedOutcome : Except Failure (List Node) × State :=
  ((Directive.auto none).run (some "m.t") allMembers (Item.renderAll [])).runOn
    (Site.ofTree nestedTree) (State.inContext ⟨.empty, .new "index", []⟩
      (Context.empty.push (some "other") (some "K") none))

/-- The table and the variable in it are entered under their paths. -/
theorem listed_from_other_class :
    (Site.ofTree nestedTree).Plain ∧
    (Directive.auto none).readOptions [("members", none), ("undoc-members", none)] =
      .ok allMembers ∧
    allMembers.has "no-index" = false ∧ allMembers.has "noindex" = false ∧
    (Site.ofTree nestedTree).Careful ∧
    KeepsContext (Site.ofTree nestedTree) (Item.renderAll []) ∧
    EntersOnly (Site.ofTree nestedTree) (fun _ => False) (Item.renderAll []) ∧
    nestedOutcome.1.isOk = true ∧
    Listed "m.t" nestedOutcome.2 ∧ Listed "m.t.x" nestedOutcome.2 := by
  have hsite : (Site.ofTree nestedTree).Plain :=
    ⟨by decide +kernel, by decide +kernel, ⟨"", .none, rfl⟩, rfl⟩
  have hoptions : (Directive.auto none).readOptions [("members", none), ("undoc-members", none)] =
      .ok allMembers := rfl
  have hcareful := Site.careful_ofTree nestedTree
  have hbody : KeepsContext (Site.ofTree nestedTree) (Item.renderAll []) :=
    fun _ => Context.restored_iff.2 rfl
  have henter : EntersOnly (Site.ofTree nestedTree) (fun _ => False) (Item.renderAll []) :=
    fun _ _ => .inl
  have hok : nestedOutcome.1.isOk = true := by decide +kernel
  refine ⟨hsite, hoptions, rfl, rfl, hcareful, hbody, henter, hok, ?_⟩
  obtain ⟨nodes, hnodes⟩ : ∃ nodes, nestedOutcome.1 = .ok nodes := by
    cases h : nestedOutcome.1 with
    | ok nodes => exact ⟨nodes, rfl⟩
    | error e =>
      rw [h] at hok
      cases hok
  have hrun : ((Directive.auto none).run (some "m.t") allMembers (Item.renderAll [])).runOn
      (Site.ofTree nestedTree) (State.inContext ⟨.empty, .new "index", []⟩
        (Context.empty.push (some "other") (some "K") none)) = (.ok nodes, nestedOutcome.2) :=
    Prod.ext hnodes rfl
  obtain ⟨target, signatures, a, hresolve, ha, hlisted⟩ :=
    listed_under_path hsite hcareful hoptions rfl rfl hbody henter
      (fun _ _ _ _ _ titles text _ => Site.harmless_ofTree nestedTree titles text) hrun
  have hfound : (match resolve (Site.ofTree nestedTree)
        (Context.empty.push (some "other") (some "K") none) allMembers "m.t" with
      | .ok (target, signatures) =>
        decide (target.member.path = ["m", "t"] ∧ target.member.object.StaysPut ∧
          target.member.object.details.toplevel = false ∧ signatures = none ∧
          ∃ z ∈ (target.scene (Context.empty.push (some "other") (some "K") none) "m.t" allMembers
            none signatures (Item.renderAll [])).members (Site.ofTree nestedTree),
            z.member.path = ["m", "t", "x"] ∧ z.Ordinary)
      | .error _ => false) = true := by decide +kernel
  rw [show resolve (Site.ofTree nestedTree) (Context.empty.push (some "other") (some "K") none)
    allMembers "m.t" = .ok (target, signatures) from hresolve] at hfound
  obtain ⟨hpath, hput, hlocal, hnone, z, hz, hzpath, hzordinary⟩ := of_decide_eq_true hfound
  have hall := (hlisted hput (fun htop => by simp [hlocal] at htop) fun h => absurd hnone h).1
  have htable := (hall a .refl).2.2
  have hvariable := (hall z (.single ⟨ha ▸ hz, hzordinary⟩)).2.2
  rw [hzpath] at hvariable
  have hpath' : a.member.path = ["m", "t"] := by rw [ha]; exact hpath
  rw [hpath'] at htable
  exact ⟨htable, hvariable⟩

/-- The table `A` holds a variable whose documentation moves it to another module. -/
def movedTree : Object :=
  let comment : Comment :=
    { Comment.none false with text := some "d", options := [("module", "other")] }
  let x : Object := ⟨{ Object.Details.unknown false with comment }, .data none none, []⟩
  ⟨.unknown false, .bare, [("A", ⟨.unknown false, .table, [("x", x)]⟩)]⟩

/-- What comes of describing the table `A` in an empty document. -/
def movedOutcome : Except Failure (List Node) × State :=
  ((Directive.auto none).run (some "A") allMembers (Item.renderAll [])).runOn
    (Site.ofTree movedTree) ⟨.empty, .new "index", []⟩

/-- A variable that is moved by its documentation is not entered under its path. -/
theorem moved_variable_elsewhere :
    (Site.ofTree movedTree).Plain ∧ (movedTree.at? ["A", "x"]).isSome = true ∧
    movedOutcome.1.isOk = true ∧ movedOutcome.2.index.objects.keys = ["A", "other.x"] :=
  ⟨⟨by decide +kernel, by decide +kernel, ⟨"", .none, rfl⟩, rfl⟩, rfl, by decide +kernel,
    by decide +kernel⟩

end Directive

end LuaDocs
