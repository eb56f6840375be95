import LuaDocs.Build
import LuaDocs.Proofs.Auto.Normal
import LuaDocs.Proofs.Document.Nesting
import LuaDocs.Proofs.Index.Lookup

/-!
# Objects are found by their full names

An object is looked up by what its name means, with keys in normal form, but it is entered under a
name that is put together as it comes. The two meet for names that directives write themselves: the
keys in a signature are brought into normal form when it is read, so that it does not matter how
they are spelled. They meet for the names in the tree only if these are normal already.
-/

namespace LuaDocs

open Render

/-! ### Directives -/

namespace Directive

/-- The names that the directive gives are clear, and its options name a normal module. A directive
for an object of the tree takes the names from the tree. -/
def NamesClearly (site : Site) (argument : Option String)
    (options : List (String × Option String)) : Directive → Prop
  | .describe t =>
    (∀ text ∈ argument, ∀ line ∈ Description.signatureLines site text,
      Name.StartsClear (t.family.named text line)) ∧
    ∀ row ∈ options, row.1 = "module" → Name.NormalIfGiven row.2
  | .startModule | .setModule => ∀ text ∈ argument, Name.StartsClear text
  | .auto _ | .memberTable | .inheritedMembers => True

variable {site : Site} {argument : Option String}

theorem normalModule_readOptions {t : ObjType} {given : List (String × Option String)}
    {options : Options} (hgiven : ∀ row ∈ given, row.1 = "module" → Name.NormalIfGiven row.2)
    (h : (Directive.describe t).readOptions given = .ok options) : options.NormalModule := by
  refine Except.foldlM_induction (P := Options.NormalModule) (.of_none rfl) ?_ h
  rintro ⟨key, value⟩ hrow o o' ho hstep
  dsimp only at hstep
  split at hstep
  · cases hstep
  · next c hc =>
    split at hstep
    · next v hv =>
      obtain rfl := Except.ok.inj hstep
      refine ho.set_read ?_ (hgiven _ hrow) hv
      rintro rfl
      have hspec : Options.objectSpec.get? "module" = some .text := by decide +kernel
      exact Option.some.inj (hc.symm.trans hspec)
    · cases hstep

theorem normal_describeObject (hsite : site.Normal) {t : ObjType}
    (hnames : ∀ text ∈ argument, ∀ line ∈ Description.signatureLines site text,
      Name.StartsClear (t.family.named text line))
    {options : Options} (hoptions : options.NormalModule) {body : Render (List Node)}
    (hbody : KeepsNormal site body) :
    KeepsNormal site (describeObject t argument options body) := by
  refine .bind .read fun other hother => ?_
  obtain rfl := hother
  refine .bind (.orFail fun text htext => htext) fun text htext => ?_
  refine Description.normal_render (fun name hname => ?_) (hoptions.withDefaults hsite) hbody
    fun _ _ => .pure trivial
  obtain ⟨sig, hsig, subject, hread⟩ := Description.mem_namesIn.1 hname
  obtain ⟨line, hline, rfl⟩ := List.mem_map.1 hsig
  obtain ⟨after, hafter⟩ := Family.readName_of_read hread
  exact Name.isNormal_of_readName (hnames text htext line hline) hafter

theorem isNormal_nameIn? {text name : String} (h : Name.StartsClear text)
    (hname : ModuleDirective.nameIn? text = some name) : Name.IsNormal name := by
  unfold ModuleDirective.nameIn? at hname
  split at hname
  · next own rest hread =>
    split at hname
    · obtain rfl := Option.some.inj hname
      exact Name.isNormal_of_readName h hread
    · cases hname
  · cases hname

/-- Every directive enters normal names, if the names that it gives are clear. -/
theorem normal_run (hsite : site.Normal) {d : Directive}
    {given : List (String × Option String)} (hd : d.NamesClearly site argument given)
    {options : Options} (hoptions : d.readOptions given = .ok options)
    {body : Render (List Node)} (hbody : KeepsNormal site body) :
    KeepsNormal site (d.run argument options body) := by
  cases d with
  | describe t =>
    exact normal_describeObject hsite hd.1 (normalModule_readOptions hd.2 hoptions) hbody
  | startModule =>
    exact .bind .read fun _ _ =>
      ModuleDirective.normal_start (fun text htext _ => isNormal_nameIn? (hd text htext)) _
  | setModule =>
    exact ModuleDirective.normal_setCurrent fun text htext _ => isNormal_nameIn? (hd text htext)
  | auto wanted => exact Auto.normal_run hsite wanted argument options hbody
  | memberTable => exact keepsNormal_of_mild (mild_memberTablePlace argument)
  | inheritedMembers => exact keepsNormal_of_mild (mild_inheritedPlace argument)

theorem normal_showError {x : Render (List Node)} (hx : KeepsNormal site x) :
    KeepsNormal site (showError x) := by
  refine .tryCatch hx fun e => ?_
  split
  · exact .pure trivial
  · exact .throw _

end Directive

/-! ### Items -/

namespace Item

mutual

/-- The directives in the item, and in its body, give clear names. -/
def NamesClearly (site : Site) : Item → Prop
  | .directive name argument options body =>
    (∀ d, Directive.ofName? name = some d → d.NamesClearly site argument options) ∧
      NameClearly site body
  | .paragraph _ | .fields _ | .role _ _ => True

/-- The directives in the items give clear names. -/
def NameClearly (site : Site) : List Item → Prop
  | [] => True
  | item :: rest => item.NamesClearly site ∧ NameClearly site rest

end

variable {site : Site}

mutual

theorem normal_render (hsite : site.Normal) :
    (item : Item) → item.NamesClearly site → KeepsNormal site item.render
  | .paragraph _, _ | .fields _, _ | .role _ _, _ =>
    keepsNormal_of_mild (F := Failure.Fatal) (respects_render rfl)
  | .directive name argument options body, h => by
    rw [NamesClearly] at h
    rw [Item.render]
    refine Directive.normal_showError ?_
    have hbody := normal_renderAll hsite body h.2
    split
    · exact .throw _
    · next d hd =>
      exact .bind (.lift fun _ h => h) fun own hown => d.normal_run hsite (h.1 d hd) hown hbody

/-- **Items enter normal names**, if their directives give clear names. -/
theorem normal_renderAll (hsite : site.Normal) :
    (items : List Item) → NameClearly site items → KeepsNormal site (renderAll items)
  | [], _ => by
    rw [renderAll]
    exact .pure trivial
  | item :: rest, h => by
    rw [NameClearly] at h
    rw [renderAll]
    exact (normal_render hsite item h.1).bind fun _ _ =>
      (normal_renderAll hsite rest h.2).bind fun _ _ => .pure trivial

end

mutual

/-- Which names are clear does not depend on the comments of the tree. -/
theorem namesClearly_reading (markup : Bool → String → List Item) (depth : Nat) :
    (item : Item) → item.NamesClearly (site.reading markup depth) ↔ item.NamesClearly site
  | .paragraph _ | .fields _ | .role _ _ => by rw [NamesClearly, NamesClearly]
  | .directive name argument options body => by
    rw [NamesClearly, NamesClearly, nameClearly_reading markup depth body]
    rfl

theorem nameClearly_reading (markup : Bool → String → List Item) (depth : Nat) :
    (items : List Item) → NameClearly (site.reading markup depth) items ↔ NameClearly site items
  | [] => by rw [NameClearly, NameClearly]
  | item :: rest => by
    rw [NameClearly, NameClearly, namesClearly_reading markup depth item,
      nameClearly_reading markup depth rest]

end

end Item

/-- **Comments that are made of items enter normal names**, however deep they are nested, if their
directives give clear names. -/
theorem Site.normal_reading {site : Site} (hsite : site.NamesNormal)
    {markup : Bool → String → List Item}
    (hclear : ∀ e ∈ site.tree.entries, ∀ titles, ∀ text ∈ e.2.commentTexts,
      Item.NameClearly site (markup titles text)) (depth : Nat) :
    (site.reading markup depth).Normal := by
  refine ⟨⟨hsite.names, hsite.settings, hsite.makers, hsite.configured⟩, ?_⟩
  induction depth with
  | zero =>
    intro e _ titles text _
    exact ⟨fun s hs => .intro (fun _ _ ht => by cases ht) fun _ _ ht => (Prod.mk.inj ht).2 ▸ hs⟩
  | succ depth ih =>
    intro e he titles text htext
    have hnormal : (site.reading markup depth).Normal :=
      ⟨⟨hsite.names, hsite.settings, hsite.makers, hsite.configured⟩, ih⟩
    have hitems := Item.normal_renderAll hnormal (markup titles text)
      ((Item.nameClearly_reading markup depth _).2 (hclear e he titles text htext))
    exact .of_respects (respects_docs (fun _ => rfl) hitems.respects) fun _ _ h => h

/-! ### Documents -/

/-- Reading the items of a document upholds that names are normal. -/
theorem Document.normal_readFrom {site : Site} (hsite : site.Normal) {items : List Item}
    (h : Item.NameClearly site items) {s : State} (hs : s.Normal) :
    (readFrom site s items).state.Normal := by
  induction items generalizing s with
  | nil => exact hs
  | cons item rest ih =>
    rw [Item.NameClearly] at h
    have hitem := (Item.normal_render hsite item h.1).ensures s hs
    rw [readFrom]
    split
    · next e t ht => exact hitem.of_error ht
    · next nodes t ht => exact ih h.2 (hitem.of_ok ht).2

namespace Build

variable {site : Site} {docs : List (String × List Item)}

/-- Reads documents one after the other. -/
def readAll (site : Site) (docs : List (String × List Item)) : Build :=
  docs.foldl (fun b doc => (b.read site doc.1 doc.2).2) .empty

/-- What is entered by documents that are read has a normal name. -/
theorem isNormal_of_readAll (hsite : site.Normal)
    (hdocs : ∀ doc ∈ docs, Item.NameClearly site doc.2) {key : String}
    (hkey : (readAll site docs).index.objects.has key = true) : Name.IsNormal key := by
  have hrun : ∀ key, (readAll site docs).index.objects.has key = true → Name.IsNormal key := by
    refine List.foldlRecOn (motive := fun b : Build =>
      ∀ key, b.index.objects.has key = true → Name.IsNormal key) _ _ nofun fun b hb doc hdoc => ?_
    have hstart : State.Normal ⟨b.index, .new doc.1, []⟩ := ⟨Context.normal_empty, hb⟩
    exact (Document.normal_readFrom hsite (hdocs doc hdoc) hstart).objects
  exact hrun key hkey

/-- **When an object is found by its full name.** After any documents are read, an object is found
by its full name exactly if the name is not empty and means itself: if taking parentheses and outer
blanks away and bringing keys into normal form leave it as it is. All objects are found if the names
in the tree are normal and the directives, in documents and in comments, give clear names, however
these are spelled. -/
theorem find?_self_readAll (site : Site) (docs : List (String × List Item)) {key : String}
    {row : Index.ObjectRow} (h : (readAll site docs).index.objects.get? key = some row) :
    ((readAll site docs).index.find? ⟨some "", some "", none⟩ (some "obj") key =
        .ok (some (key, row)) ↔ key ≠ "" ∧ Index.referredName key = key) ∧
      (site.Normal → (∀ doc ∈ docs, Item.NameClearly site doc.2) →
        (readAll site docs).index.find? ⟨some "", some "", none⟩ (some "obj") key =
          .ok (some (key, row))) := by
  have hfound := Index.find?_self_iff h (some "obj")
  refine ⟨hfound, fun hsite hdocs => hfound.2 ?_⟩
  have hnormal : Name.IsNormal key :=
    isNormal_of_readAll hsite hdocs (by rw [Table.has, h, Option.isSome_some])
  exact ⟨hnormal.ne_empty, Index.referredName_of_isNormal hnormal⟩

/-- The table `A` holds a variable under a key in the given spelling. -/
def keyedTree (key : String) : Object :=
  let x : Object := ⟨.unknown false, .data none none, []⟩
  ⟨.unknown false, .bare, [("A", ⟨.unknown false, .table, [(key, x)]⟩)]⟩

/-- The table `A` with its members, and a variable of the table `B` under a key without blanks. -/
def keyedDocs : List (String × List Item) :=
  [("index", [.directive "autoobject" (some "A") [("members", none), ("undoc-members", none)] [],
    .directive "data" (some "B.[string|integer]") [] []])]

theorem normal_keyedTree : (Site.ofTree (keyedTree "[string | integer]")).Normal := by
  have hkey : Name.IsComponent "[string | integer]".toList := by
    have hspelled : "[string | integer]".toList = Name.key "string|integer".toList := by
      decide +kernel
    rw [hspelled]
    exact .inr (Name.isKey_key (by decide +kernel))
  refine ⟨⟨fun e he name hname => ?_, fun e he setting hsetting hmodule => ?_,
    fun e he info maker hform => ?_, "", .none, rfl⟩, fun _ _ titles text _ =>
      .of_respects (Site.respects_ofTree (F := fun _ => True) _ titles text) fun _ _ h => h⟩
  · have hnames : ∀ e ∈ (keyedTree "[string | integer]").entries, ∀ name ∈ e.1,
        name = "A" ∨ name = "[string | integer]" := by decide +kernel
    rcases hnames e he name hname with rfl | rfl
    · exact Name.isComponent_of_isPlain (by decide +kernel)
    · exact hkey
  · have hnone : ∀ e ∈ (keyedTree "[string | integer]").entries, e.2.reading.options = [] := by
      decide +kernel
    rw [hnone e he] at hsetting
    cases hsetting
  · have hnone : ∀ e ∈ (keyedTree "[string | integer]").entries, e.2.form.name ≠ "class" := by
      decide +kernel
    exact absurd (congrArg Object.Form.name hform) (hnone e he)

theorem clear_keyedDocs (site : Site) (hsite : site.dropBackslashes = false) :
    ∀ doc ∈ keyedDocs, Item.NameClearly site doc.2 := by
  intro doc hdoc
  obtain rfl := List.mem_singleton.1 hdoc
  simp only [Item.NameClearly, Item.NamesClearly, and_true]
  refine ⟨fun d hd => ?_, fun d hd => ?_⟩
  · obtain rfl : .auto none = d := Option.some.inj hd
    trivial
  · obtain rfl : .describe .data = d := Option.some.inj hd
    refine ⟨?_, nofun⟩
    rintro text ⟨⟩
    simp only [Description.signatureLines, hsite]
    decide +kernel

/-- A key in a directive may be spelled without blanks, but one in the tree may not. -/
theorem found_under_keys :
    (readAll (Site.ofTree (keyedTree "[string | integer]")) keyedDocs).index.objects.keys =
      ["A", "A.[string | integer]", "B.[string | integer]"] ∧
    (∀ key row,
      (readAll (Site.ofTree (keyedTree "[string | integer]")) keyedDocs).index.objects.get? key =
        some row →
      (readAll (Site.ofTree (keyedTree "[string | integer]")) keyedDocs).index.find?
        ⟨some "", some "", none⟩ (some "obj") key = .ok (some (key, row))) ∧
    ∃ row, (readAll (Site.ofTree (keyedTree "[string|integer]")) keyedDocs).index.objects.get?
        "A.[string|integer]" = some row ∧
      (readAll (Site.ofTree (keyedTree "[string|integer]")) keyedDocs).index.find?
        ⟨some "", some "", none⟩ (some "obj") "A.[string|integer]" ≠
          .ok (some ("A.[string|integer]", row)) := by
  have hdocs := clear_keyedDocs (Site.ofTree (keyedTree "[string | integer]")) rfl
  refine ⟨by decide +kernel, fun key row h => ?_, ?_⟩
  · exact (find?_self_readAll _ _ h).2 normal_keyedTree hdocs
  have hentered :
      ((readAll (Site.ofTree (keyedTree "[string|integer]")) keyedDocs).index.objects.get?
        "A.[string|integer]").isSome = true := by decide +kernel
  obtain ⟨row, hrow⟩ := Option.isSome_iff_exists.1 hentered
  refine ⟨row, hrow, fun hfound => ?_⟩
  have hspelled := ((find?_self_readAll _ _ hrow).1.1 hfound).2
  revert hspelled
  decide +kernel

end Build

end LuaDocs
