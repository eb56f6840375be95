import LuaDocs.Document
import LuaDocs.Proofs.Auto.Descent
import LuaDocs.Proofs.Auto.Saved

/-!
# Nested directives and the context

The items of a document are rendered one after the other, and directives may have items as their
body. Errors of directives are shown in their place, so that an item never fails with one. What is
saved in the context before an item stays saved.

A directive that describes an object gives the context back when it ends well. When an error stops
it while a member is described, the directive gives back the context that was saved last, which is
not its own if a description around the member has opened a body.
-/

namespace LuaDocs

open Render

variable {site : Site} {body : Render (List Node)}

/-- A site with the given tree, without defaults of options. Texts of comments are paragraphs. -/
def Site.ofTree (tree : Object) : Site where
  sources := ""
  defaults := []
  lineLimit := none
  luaVersion := none
  analyzed := true
  parens := false
  tocEntries := false
  tocParents := .hide
  dropBackslashes := false
  tree
  vagueAliases := false
  depth := 100
  docs := fun _ text s => (.ok [.leaf .paragraph text], s)

namespace Directive

variable {K : String → Prop}

theorem kept_describeObject (t : ObjType) (argument : Option String) (options : Options)
    (hbody : Respects site Kept (fun _ => True) body) :
    Respects site Kept (fun _ => True) (describeObject t argument options body) := by
  unfold describeObject
  refine .bind_read (.bind (.orFail trivial argument) fun text => ?_)
  exact Description.kept_render hbody fun _ _ => .pure _

theorem mild_memberTablePlace (argument : Option String) :
    Respects site (Mild K) (fun _ => True) (memberTablePlace argument) := by
  unfold memberTablePlace
  refine .bind .context fun c => ?_
  dsimp only
  split
  · exact .bind (.throw trivial) fun _ => .pure _
  · exact .pure _

theorem mild_inheritedPlace (argument : Option String) :
    Respects site (Mild K) (fun _ => True) (inheritedPlace argument) := by
  unfold inheritedPlace
  refine .bind .context fun c => ?_
  dsimp only
  split
  · exact .bind (.throw trivial) fun _ => .pure _
  · exact .pure _

/-- Every directive keeps what is saved in the context. -/
theorem kept_run (hsite : site.Careful) (d : Directive) (argument : Option String)
    (options : Options) (hbody : Respects site Kept (fun _ => True) body) :
    Respects site Kept (fun _ => True) (d.run argument options body) := by
  cases d with
  | describe t => exact kept_describeObject t argument options hbody
  | startModule => exact .bind_read (ModuleDirective.kept_start argument _)
  | setModule => exact ModuleDirective.kept_setCurrent argument
  | auto wanted =>
    exact (Auto.guarded_run hsite wanted argument options hbody).mono
      (fun _ _ => Guarded.toKept) fun _ h => h
  | memberTable => exact (mild_memberTablePlace argument).kept
  | inheritedMembers => exact (mild_inheritedPlace argument).kept

/-- An error of a directive is shown, so that what fails is fatal. -/
theorem kept_showError {x : Render (List Node)} (hx : Respects site Kept (fun _ => True) x) :
    Respects site Kept Failure.Fatal (showError x) := by
  refine .tryCatch hx fun e _ => ?_
  split
  · exact .pure _
  · next hother => exact .throw fun severity message h => hother severity message h

end Directive

namespace Item

/-- The item is a directive. -/
def isDirective : Item → Bool
  | .directive _ _ _ _ => true
  | .paragraph _ | .fields _ | .role _ _ => false

/-- An item that is no directive changes nothing. -/
theorem respects_render {R : State → State → Prop} [IsPreorder State R] {F : Failure → Prop}
    {item : Item} (h : item.isDirective = false) : Respects site R F item.render := by
  cases item with
  | directive => cases h
  | paragraph text | fields rows =>
    rw [Item.render]
    exact .pure _
  | role name text =>
    rw [Item.render]
    exact .bind .context fun _ => .pure _

theorem respects_renderAll {R : State → State → Prop} [IsPreorder State R] {F : Failure → Prop}
    {items : List Item} (h : ∀ item ∈ items, item.isDirective = false) :
    Respects site R F (renderAll items) := by
  induction items with
  | nil =>
    rw [renderAll]
    exact .pure _
  | cons item rest ih =>
    rw [List.forall_mem_cons] at h
    rw [renderAll]
    exact .bind (respects_render h.1) fun _ => .bind (ih h.2) fun _ => .pure _

mutual

theorem kept_render (hsite : site.Careful) :
    (item : Item) → Respects site Kept Failure.Fatal item.render
  | .paragraph _ | .fields _ | .role _ _ => respects_render rfl
  | .directive name argument options body => by
    rw [Item.render]
    refine Directive.kept_showError ?_
    have hbody : Respects site Kept (fun _ => True) (renderAll body) :=
      (kept_renderAll hsite body).mono (fun _ _ h => h) fun _ _ => trivial
    split
    · exact .throw trivial
    · next d _ =>
      exact .bind (.lift fun _ _ => trivial) fun options =>
        d.kept_run hsite argument options hbody

/-- Items keep what is saved in the context, and show errors of directives. -/
theorem kept_renderAll (hsite : site.Careful) :
    (items : List Item) → Respects site Kept Failure.Fatal (renderAll items)
  | [] => by
    rw [renderAll]
    exact .pure _
  | item :: rest => by
    rw [renderAll]
    exact .bind (kept_render hsite item) fun _ => .bind (kept_renderAll hsite rest) fun _ => .pure _

end

end Item

/-! ### Comments -/

/-- What another rendering does in the place of the text of a comment. -/
theorem Render.respects_docs {other : Site} {titles : Bool} {text : String} {x : Render (List Node)}
    {R : State → State → Prop} {F : Failure → Prop}
    (h : ∀ s, site.docs titles text s = x.runOn other s) (hx : Respects other R F x) :
    Respects site R F (docs titles text) :=
  ⟨fun s => .intro (fun _ _ ht => (hx.ensures s).of_ok ((h s).symm.trans ht))
    fun _ _ ht => (hx.ensures s).of_error ((h s).symm.trans ht)⟩

/-- **Comments that are made of items** keep what is saved in the context, as documents do, however
deep comments are nested. -/
theorem Site.careful_reading (site : Site) (markup : Bool → String → List Item) (depth : Nat) :
    (site.reading markup depth).Careful := by
  induction depth with
  | zero =>
    have hdepth : Respects site Kept Failure.Fatal (throw Failure.depth : Render (List Node)) :=
      .throw nofun
    exact fun _ _ => respects_docs (fun _ => rfl) hdepth
  | succ depth ih =>
    exact fun titles text =>
      respects_docs (fun _ => rfl) (Item.kept_renderAll ih (markup titles text))

/-- Comments that are paragraphs change nothing. -/
theorem Site.respects_ofTree (tree : Object) {R : State → State → Prop} [IsPreorder State R]
    {F : Failure → Prop} (titles : Bool) (text : String) :
    Respects (Site.ofTree tree) R F (Render.docs titles text) := by
  have hparagraph : Respects (Site.ofTree tree) R F (pure [Node.leaf .paragraph text]) := .pure _
  exact respects_docs (fun _ => rfl) hparagraph

theorem Site.careful_ofTree (tree : Object) : (Site.ofTree tree).Careful :=
  Site.respects_ofTree tree

/-- A rendering that changes nothing leaves the context and enters no names. -/
theorem Render.Respects.harmless {x : Render (List Node)}
    (h : Respects site (· = ·) (fun _ => True) x) :
    KeepsContext site x ∧ EntersOnly site (fun _ => False) x := by
  have hsame : ∀ s, s = (x.runOn site s).2 := fun s =>
    ((h.ensures s).mono (fun _ _ h => h) fun _ _ h => h.2).runOn
  refine ⟨fun s => ?_, fun s key hkey => .inl ?_⟩
  · rw [← hsame]
    exact Context.restored_iff.2 rfl
  · rwa [← hsame] at hkey

theorem Site.harmless_ofTree (tree : Object) (titles : Bool) (text : String) :
    KeepsContext (Site.ofTree tree) (Render.docs titles text) ∧
      EntersOnly (Site.ofTree tree) (fun _ => False) (Render.docs titles text) :=
  (Site.respects_ofTree tree titles text).harmless

/-- So do comments without directives. -/
theorem Site.harmless_reading (site : Site) {markup : Bool → String → List Item} {titles : Bool}
    {text : String} (h : ∀ item ∈ markup titles text, item.isDirective = false) (depth : Nat) :
    KeepsContext (site.reading markup (depth + 1)) (Render.docs titles text) ∧
      EntersOnly (site.reading markup (depth + 1)) (fun _ => False) (Render.docs titles text) := by
  have hitems : Respects (site.reading markup depth) (· = ·) (fun _ => True)
      (Item.renderAll (markup titles text)) := Item.respects_renderAll h
  exact (respects_docs (fun _ => rfl) hitems).harmless

namespace Directive

variable {d : Directive}

/-- The directive has the members of an object in its body. -/
def nests : Directive → Bool
  | .describe t => t.family.nests
  | .auto _ => true
  | .startModule | .setModule | .memberTable | .inheritedMembers => false

/-- The directive saves the context around its body: one that describes an object of the tree
always does, and another one does if it nests and a signature of its argument can be read. -/
def Saves (site : Site) (argument : Option String) : Directive → Prop
  | .describe t => t.family.nests = true ∧ ∀ text, argument = some text →
      ∃ line ∈ Description.signatureLines site text, ∃ r, t.family.read text line = .ok r
  | .auto _ => True
  | .startModule | .setModule | .memberTable | .inheritedMembers => False

/-- A directive that saves the context restores it, however it ends, unless a description is left
open. -/
theorem guarded_run (hsite : site.Careful) {argument : Option String}
    (hd : d.Saves site argument) (options : Options)
    (hbody : Respects site Kept (fun _ => True) body) (s : State) :
    (d.run argument options body).Ensures site s (fun _ t => Guarded s t)
      fun _ t => Guarded s t := by
  cases d with
  | auto wanted =>
    exact ((Auto.guarded_run hsite wanted argument options hbody).ensures s).mono
      (fun _ _ h => h) fun _ _ h => h.2
  | describe t =>
    obtain ⟨hnests, hread⟩ := hd
    unfold run describeObject
    rw [ensures_bind, ensures_read, ensures_bind, ensures_orFail]
    refine ⟨fun text htext => ?_, fun _ => (Mild.refl s).toGuarded⟩
    obtain ⟨line, hline, r, hr⟩ := hread text htext
    refine ((Description.guarded_render hbody (fun _ _ => .pure _) ?_).ensures s).mono
      (fun _ _ h => h) fun _ _ h => h.2
    exact Description.opens_of_read hnests (List.mem_map_of_mem hline) hr
  | startModule => exact hd.elim
  | setModule => exact hd.elim
  | memberTable => exact hd.elim
  | inheritedMembers => exact hd.elim

/-- A directive that describes an object that is not taken from the tree has restored the context
when it ends, if its body leaves the context as it found it. -/
theorem tidy_describeObject (t : ObjType) (argument : Option String) (options : Options)
    (hbody : Respects site (Tidy fun _ => True) Failure.Fatal body) (s : State) :
    (describeObject t argument options body).Ensures site s (fun _ t => Tidy (fun _ => True) s t)
      fun e _ => e.Fatal := by
  unfold describeObject
  rw [ensures_bind, ensures_read, ensures_bind, ensures_orFail]
  refine ⟨fun text _ => ?_, fun _ => nofun⟩
  refine (Description.ensures_render_tidy (P := fun _ => True) (fun _ _ _ => trivial)
    (fun _ _ h => h) (fun _ _ _ h => h) hbody fun t _ _ fullname nodes => ?_).mono
    (fun _ _ h => h.1) fun _ _ h => h
  exact (ensures_pure nodes).2 ⟨.refl t, trivial⟩

/-- A directive that nests has restored the context when it ends well, if its body leaves the
context as it found it. When an error stops it, the context is restored or a description is left
open. -/
theorem ensures_run (hd : d.nests = true) (argument : Option String)
    (options : Options) (hbody : Respects site (Tidy fun _ => True) Failure.Fatal body)
    (s : State) (hdocs : ∀ wanted text, d = .auto wanted → argument = some text →
      Auto.CommentsHave (Respects site (Tidy fun _ => True) Failure.Fatal) site s.page.context
        options text wanted body) :
    (d.run argument options body).Ensures site s
      (fun _ t => s.page.context.Restored t.page.context)
      fun e t => e.Fatal ∨ s.page.context.Restored t.page.context ∨
        ∃ wanted text target signatures, d = .auto wanted ∧ argument = some text ∧
          Auto.resolve site s.page.context options text = .ok (target, signatures) ∧
          (target.scene s.page.context text options wanted signatures body).LeftOpen site e
            t.page.context ∧
          ∃ n, 0 < n ∧ s.page.context.Grown n t.page.context := by
  cases d with
  | describe t =>
    refine (tidy_describeObject t argument options hbody s).mono ?_ fun _ _ he => .inl he
    exact fun _ _ h => Context.restored_iff.2 h.settled
  | auto wanted =>
    refine (Auto.ensures_run wanted argument options hbody fun text target signatures htext h =>
      ⟨fun _ _ _ _ => trivial, hdocs wanted text rfl htext target signatures h⟩).mono ?_ ?_
    · exact fun _ _ h => Context.restored_iff.2 h.1.settled
    · rintro e t (he | rfl | ⟨text, target, signatures, htext, hresolve, z, hz, hrefused, ht⟩)
      · exact .inl he
      · exact .inr (.inl (Context.restored_iff.2 rfl))
      · right
        rw [ht]
        refine (Auto.Target.restored_or_leftOpen hz hrefused).imp_right ?_
        rintro ⟨hopen, hgrown⟩
        exact ⟨wanted, text, target, signatures, rfl, htext, hresolve, hopen, hgrown⟩
  | startModule => cases hd
  | setModule => cases hd
  | memberTable => cases hd
  | inheritedMembers => cases hd

/-- **The context after a directive.** A directive that saves the context has restored it when it
ends, however it ends, unless something was left above what it saved. If its body leaves the context
as it found it, and the comments on the objects that it tries to describe do, then a directive that
nests restores the context whenever it ends well. An error of a directive leaves the context
restored as well, or else it comes from an object that is described in the body of another one: the
description around it is left open, the context is the one in which that description stands, and
what it had saved is never taken away. -/
theorem context_after_run {site : Site} (hsite : site.Careful) {s t : State} {d : Directive}
    (hd : d.nests = true) (argument : Option String) (options : Options) (items : List Item)
    {result : Except Failure (List Node)}
    (hrun : (d.run argument options (Item.renderAll items)).runOn site s = (result, t)) :
    (d.Saves site argument → ∃ n, s.page.context.Grown n t.page.context ∧
      (n = 0 → s.page.context.Restored t.page.context)) ∧
    (KeepsContext site (Item.renderAll items) →
      (∀ wanted text, d = .auto wanted → argument = some text →
        Auto.CommentsHave (KeepsContext site) site s.page.context options text wanted
          (Item.renderAll items)) →
      (∀ nodes, result = .ok nodes → s.page.context.Restored t.page.context) ∧
      ∀ severity message, result = .error (.directive severity message) →
        s.page.context.Restored t.page.context ∨
        ∃ wanted text target signatures, d = .auto wanted ∧ argument = some text ∧
          Auto.resolve site s.page.context options text = .ok (target, signatures) ∧
          (target.scene s.page.context text options wanted signatures
            (Item.renderAll items)).LeftOpen site (.directive severity message) t.page.context ∧
          ∃ n, 0 < n ∧ s.page.context.Grown n t.page.context) := by
  refine ⟨fun hsaves => ?_, fun hitems hdocs => ⟨?_, ?_⟩⟩
  · have hkept : Respects site Kept (fun _ => True) (Item.renderAll items) :=
      (Item.kept_renderAll hsite items).mono (fun _ _ h => h) fun _ _ => trivial
    have hguarded := (guarded_run hsite hsaves options hkept s).runOn
    rw [hrun] at hguarded
    obtain ⟨n, hn, hzero⟩ := hguarded.grown
    exact ⟨n, hn, fun h => Context.restored_iff.2 (hzero h)⟩
  all_goals
    have hbody : Respects site (Tidy fun _ => True) Failure.Fatal (Item.renderAll items) :=
      (Item.kept_renderAll hsite items).tidy hitems fun _ _ _ => .inr trivial
    have hall := ensures_run hd argument options hbody s fun wanted text hauto htext target
      signatures hfound z hz titles own hown =>
        (hsite titles own).tidy (hdocs wanted text hauto htext target signatures hfound z hz titles
          own hown) fun _ _ _ => .inr trivial
  · rintro nodes rfl
    exact hall.of_ok hrun
  · rintro severity message rfl
    exact (hall.of_error hrun).resolve_left fun hfatal => hfatal severity message rfl

/-- The table `A` holds the table `B`, in which a variable is to be described as a method. -/
def misfitTree : Object :=
  let misfit : Object := ⟨{ Object.Details.unknown false with
    comment := { Comment.none false with doctype := some "method" } }, .data none none, []⟩
  let nested : Object := ⟨.unknown false, .table, [("y", misfit)]⟩
  let outer : Object := ⟨.unknown false, .table, [("B", nested)]⟩
  ⟨.unknown false, .bare, [("A", outer)]⟩

/-- All members are described, and members of these in turn, without being entered. -/
def misfitOptions : Options :=
  [("members", .all), ("undoc-members", .all), ("recursive", .flag), ("no-index", .flag)]

/-- What comes of describing the table `A` in an empty document. -/
def misfitOutcome : Except Failure (List Node) × State :=
  ((Directive.auto none).run (some "A") misfitOptions (Item.renderAll [])).runOn
    (Site.ofTree misfitTree) ⟨.empty, .new "index", []⟩

theorem failed_misfitOutcome : (match misfitOutcome.1 with
    | .error (.directive _ _) => true
    | _ => false) = true := by
  decide +kernel

theorem current_misfitOutcome :
    misfitOutcome.2.page.context.current = (none, some "A", none) := by
  decide +kernel

/-- The variable cannot be described as a method. The description of `B` around it is left open:
the document goes on inside the table `A`. -/
theorem inside_table_after_misfit :
    (Site.ofTree misfitTree).Careful ∧ (Directive.auto none).nests = true ∧
    KeepsContext (Site.ofTree misfitTree) (Item.renderAll []) ∧
    misfitOutcome.2.page.context.current = (none, some "A", none) ∧
    ∃ severity message, misfitOutcome.1 = .error (.directive severity message) ∧
      ∃ target signatures,
        Auto.resolve (Site.ofTree misfitTree) .empty misfitOptions "A" =
          .ok (target, signatures) ∧
        (target.scene .empty "A" misfitOptions none signatures (Item.renderAll [])).LeftOpen
          (Site.ofTree misfitTree) (.directive severity message) misfitOutcome.2.page.context ∧
        ∃ n, 0 < n ∧ Context.empty.Grown n misfitOutcome.2.page.context := by
  have hitems : KeepsContext (Site.ofTree misfitTree) (Item.renderAll []) :=
    fun _ => Context.restored_iff.2 rfl
  have hsite := Site.careful_ofTree misfitTree
  refine ⟨hsite, rfl, hitems, current_misfitOutcome, ?_⟩
  have hfailed := failed_misfitOutcome
  split at hfailed
  · next severity message hresult =>
    refine ⟨severity, message, hresult, ?_⟩
    have hrun : ((Directive.auto none).run (some "A") misfitOptions (Item.renderAll [])).runOn
        (Site.ofTree misfitTree) ⟨.empty, .new "index", []⟩ =
          (misfitOutcome.1, misfitOutcome.2) := rfl
    rcases ((context_after_run hsite rfl (some "A") misfitOptions [] hrun).2 hitems
      fun _ _ _ _ _ _ _ _ _ titles text _ => (Site.harmless_ofTree misfitTree titles text).1).2
      severity message hresult with
      hrestored | ⟨wanted, text, target, signatures, hwanted, htext, hrest⟩
    · have hsame : misfitOutcome.2.page.context.current = Context.empty.current := hrestored.1
      rw [current_misfitOutcome] at hsame
      cases hsame
    · cases hwanted
      cases htext
      exact ⟨target, signatures, hrest⟩
  · cases hfailed

end Directive

end LuaDocs
