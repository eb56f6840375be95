import LuaDocs.Proofs.Auto.Descent
import LuaDocs.Proofs.Auto.Signatures
import LuaDocs.Proofs.Document.Nesting
import LuaDocs.Proofs.Object.Find

/-!
# Objects are entered under their paths

The full name under which an object is entered is put together from the module and the class in the
context, the module that an option names, and the name that its signature gives. For an object of
the tree all of them come from the tree: a directive sets the context to the module and the class
in which it finds the object, and the context of a body is one name longer than that of the
description. So the full name is the path of the object, whatever the context of the directive was.

This is an invariant of scenes: the module and the class in the context of a scene make the path of
the parent of its object. Globals are the exception: they are entered under their name alone.
-/

namespace LuaDocs

open Text Index

namespace Context

/-- The module and the class in a context as one name. -/
def homeName (c : Context) : String := joinGiven [c.moduleName.get?, c.className.get?]

theorem homeName_settle (c : Context) : c.settle.homeName = c.homeName := by
  rw [homeName, homeName, get?_moduleName_settle, get?_className_settle]

theorem homeName_push (c : Context) (m k : Option String) (u : Option Selection) :
    (c.push m k u).homeName = joinGiven [m, k] := by
  have hm : (c.push m k u).moduleName.get? = nonEmpty m := Scoped.get?_push _ _
  have hk : (c.push m k u).className.get? = nonEmpty k := Scoped.get?_push _ _
  rw [homeName, hm, hk, joinGiven_eq, joinGiven_eq]
  simp only [List.filterMap_cons, nonEmpty_nonEmpty, List.filterMap_nil]

theorem homeName_of_no_class {c : Context} (h : nonEmpty c.className.get? = none) :
    c.homeName = joinGiven [c.moduleName.get?] := by
  rw [homeName, joinGiven_eq, joinGiven_eq]
  simp only [List.filterMap_cons, h, List.filterMap_nil]

theorem homeName_withModule {c : Context} (h : nonEmpty c.className.get? = none) (name : String) :
    (c.withModule name).homeName = joinGiven [some name] :=
  homeName_of_no_class h

end Context

namespace Description

/-- The module and the class in the body of an object make its full name. -/
theorem joinGiven_insideHome {name : String} (hname : name ≠ "") (t : ObjType)
    (home : Option String × Option String) :
    joinGiven [(insideHome t home name).1, (insideHome t home name).2] =
      joinGiven [home.1, home.2, some name] := by
  unfold insideHome
  split
  · next h =>
    simp only [Bool.and_eq_true, Option.isNone_iff_eq_none] at h
    rw [h.2, below_eq hname]
    calc joinGiven [some (joinGiven [home.1, some name]), none]
        = joinGiven [some (joinGiven [home.1, some name])] := joinGiven_erase [_] []
      _ = joinGiven [home.1, some name] := joinGiven_joinGiven _
      _ = joinGiven [home.1, none, some name] := (joinGiven_erase [_] [_]).symm
  · rw [below_eq hname, ← joinGiven_cons]

end Description

/-- What is asked of a site: the names in its tree are plain, only children of the root are globals,
and its defaults come from a configuration and do not leave objects out of the tables. -/
structure Site.Plain (site : Site) : Prop where
  names : site.tree.PlainNames
  globals : site.tree.GlobalsAtRoot
  configured : ∃ name value, Config.options name value = .ok site.defaults
  indexed : site.defaults.has "no-index" = false

theorem Site.Plain.modest {site : Site} (h : site.Plain) : Auto.Modest site.defaults := by
  obtain ⟨name, value, hconfig⟩ := h.configured
  exact Auto.modest_of_config hconfig h.indexed

namespace Auto

open Context

namespace Scene

variable {site : Site} {a z : Scene} {kind : Kind} {options : Options}

/-- The module and the class in the context make the path of the parent of the object, or the object
is a global, which does not depend on the context unless it is a module with a page. -/
def AtPath (a : Scene) : Prop :=
  ∃ parent, a.member.path = parent ++ [a.member.name] ∧
    if a.object.details.toplevel && !a.onPage then parent = []
    else a.context.homeName = joinStrings '.' parent

/-- The module and the class that the object is entered under make the path of its parent. -/
theorem joinGiven_home {o : Options} {parent : List String} (hp : a.onPage = false)
    (hparent : if a.object.details.toplevel && !a.onPage then parent = []
      else a.context.homeName = joinStrings '.' parent)
    (ho : Placed (ownModule a.object) o) :
    joinGiven [(Naming.home o a.context).1, (Naming.home o a.context).2] =
      joinStrings '.' parent := by
  have hmodule := ho.module_
  unfold Naming.home
  rw [hmodule, ownModule]
  cases htop : a.object.details.toplevel with
  | true =>
    simp only [htop, hp, Bool.not_false, Bool.and_self, if_true] at hparent
    rw [hparent]
    rfl
  | false =>
    simp only [htop, Bool.false_and, Bool.false_eq_true, if_false] at hparent ⊢
    rw [← hparent, Context.homeName, joinGiven_eq, joinGiven_eq]
    simp only [List.filterMap_cons, nonEmpty_nonEmpty, List.filterMap_nil]

/-- A page does not stand in a class. -/
theorem Admitted.no_class_of_page (ha : a.Admitted kind options) (hp : a.onPage = true) :
    nonEmpty a.context.className.get? = none := by
  by_contra h
  exact ha.paged ⟨hp, .inr (.inl h)⟩

/-! ### Objects with members -/

/-- Only a class that is documented as a class is of the kind of classes. -/
theorem doctype_of_kind?_class {info : Object.ClassInfo} {name : String}
    (h : (Object.Form.class_ info).kind? (some name) = some .class_) : name = "class" := by
  have hvariable : Kind.ofVariable? name ≠ some .class_ := by
    unfold Kind.ofVariable?
    split <;> nofun
  by_contra hne
  refine hvariable ?_
  rw [← h, Object.Form.kind?]
  · nofun
  · intro info' _
    simpa using hne
  · nofun
  · nofun

/-- What is described of a class as a class has its type. -/
theorem typeOf_class {info : Object.ClassInfo} (ha : a.Admitted .class_ options)
    (hform : a.object.form = .class_ info) : typeOf a.request .class_ = .class_ := by
  have hasked : ∀ t, askedType? a.request = some t → t = .class_ := by
    intro t ht
    unfold askedType? at ht
    split at ht
    · next wanted hwanted =>
      cases ht
      have hkindOf : kindOf t = .class_ := by
        by_contra h
        exact ha.named ⟨.class_, t, ha.kind, hwanted, .inl h⟩
      cases t <;> first | rfl | cases hkindOf
    · obtain ⟨name, hname, rfl⟩ := Option.map_eq_some_iff.1 ht
      have hdoctype : a.object.reading.doctype = some name :=
        (Option.filter_eq_some_iff.1 hname).1
      have hkind := ha.kind
      rw [Object.kind?, hform, hdoctype] at hkind
      rw [doctype_of_kind?_class hkind]
      rfl
  unfold typeOf
  dsimp only
  cases h : askedType? a.request with
  | none => rfl
  | some t => exact hasked t h

theorem objtype_of_class {info : Object.ClassInfo} (hform : a.object.form = .class_ info) :
    (a.description site .class_ options).objtype = typeOf a.request .class_ := by
  have hdescribe : describe site a.context noMembers a.request .class_ options =
      classDescription site noMembers a.request info (typeOf a.request .class_) options := by
    unfold describe
    rw [show a.request.member.object.form = .class_ info from hform]
  rw [description, hdescribe]
  rfl

theorem objtype_of_plain (hfunction : ∀ c, a.object.form ≠ .function c)
    (hclass : ∀ info, a.object.form = .class_ info → kind ≠ .class_) :
    (a.description site kind options).objtype = typeOf a.request kind := by
  have hdescribe : describe site a.context noMembers a.request kind options =
      plainDescription site noMembers a.request (typeOf a.request kind) options := by
    unfold describe
    split
    · next c hform => exact absurd hform (hfunction c)
    · next info hform => exact absurd rfl (hclass info hform)
    · rfl
  rw [description, hdescribe]
  rfl

/-- An object whose members are described with it opens a body. -/
theorem nests_of_listing? {all : Options} (ha : a.Admitted kind options)
    (h : a.listing? site kind options = some all) :
    (a.description site kind options).objtype.family.nests = true := by
  unfold listing? at h
  split at h
  · cases h
  · next info hform =>
    rw [objtype_of_class hform, typeOf_class ha hform]
    rfl
  · next hfunction hclass =>
    rw [objtype_of_plain hfunction hclass]
    split at h
    · next hnests => exact hnests
    · cases h

/-! ### Objects at their paths -/

/-- An object of the tree in a scene in which it is entered under its path. -/
structure WellPlaced (site : Site) (a : Scene) : Prop where
  entry : (a.member.path, a.object) ∈ site.tree.entries
  atPath : a.AtPath
  visible : Visible a.frame.options
  staysPut : a.object.StaysPut
  spelt : a.request.Spelt
  legible : a.request.signatures ≠ none → a.Legible site

section WellPlaced

variable (hw : a.WellPlaced site) (hsite : site.Plain)

include hw hsite

theorem isPlain_path : ∀ name ∈ a.member.path, Name.isPlain name = true :=
  hsite.names _ hw.entry

theorem isPlain_name : Name.isPlain a.member.name = true := by
  obtain ⟨parent, hpath, -⟩ := hw.atPath
  exact isPlain_path hw hsite _ (by rw [hpath]; simp)

theorem path_ne_empty : ∀ name ∈ a.member.path, name ≠ "" :=
  fun name hname => Name.ne_empty_of_isPlain (isPlain_path hw hsite name hname)

omit hsite in
theorem placed_options (ha : a.Admitted kind options) : Placed (ownModule a.object) options :=
  placed_memberOptions hw.visible hw.staysPut ha.options

/-- The signatures of the object give its name and no other. -/
theorem names_description (ha : a.Admitted kind options) :
    (a.description site kind options).names = [a.member.name] := by
  have hplaced := placed_options hw ha
  refine Description.namesIn_eq_singleton
    (gives_signatures (Name.isComponent_of_isPlain (isPlain_name hw hsite)) hw.spelt kind
      options) ?_
  by_cases hmade : a.request.signatures = none
  · exact someRead_of_made hmade hplaced hsite.modest kind
  · exact hw.legible hmade kind options ha

/-! ### Descriptions -/

/-- The full name of the object is its path. -/
theorem fullname_eq (hp : a.onPage = false) {o : Options} (ho : Placed (ownModule a.object) o) :
    joinGiven [(Naming.home o a.context).1, (Naming.home o a.context).2, some a.member.name] =
      joinStrings '.' a.member.path := by
  obtain ⟨parent, hpath, hparent⟩ := hw.atPath
  have hne := path_ne_empty hw hsite
  rw [hpath] at hne ⊢
  exact joinGiven_below hne (joinGiven_home hp hparent ho)

theorem keys_eq_of_description (ha : a.Admitted kind options) (hp : a.onPage = false) :
    a.keys site = [joinStrings '.' a.member.path] := by
  have ho := placed_description (placed_options hw ha) hsite.modest a kind
  have hindex : (a.description site kind options).options.has "no-index" = false := by
    rw [Table.has, ho.index]
    rfl
  rw [keys_of_description ⟨ha.kind, ha.options, hp⟩, hindex, Description.namings,
    names_description hw hsite ha]
  simp only [Bool.false_eq_true, if_false, List.map_cons, List.map_nil, Naming.fullname_ofName]
  rw [fullname_eq hw hsite hp ho]

/-- The context of the body of a description is one name longer than its own. -/
theorem homeName_inner (ha : a.Admitted kind options) (hp : a.onPage = false)
    (hnests : (a.description site kind options).objtype.family.nests = true) :
    (a.inner site kind options).homeName = joinStrings '.' a.member.path := by
  have ho := placed_description (placed_options hw ha) hsite.modest a kind
  have hname : a.member.name ≠ "" := Name.ne_empty_of_isPlain (isPlain_name hw hsite)
  rw [inner, homeName_settle, Description.bodyContext_eq, names_description hw hsite ha]
  simp only [List.getLast?_singleton, hnests, if_true]
  rw [homeName_push, Description.joinGiven_insideHome hname, fullname_eq hw hsite hp ho]

/-! ### Pages -/

/-- The name of a module with a page is its path. -/
theorem pageName?_eq (ha : a.Admitted kind options) (hp : a.onPage = true) :
    a.pageName? = some (joinStrings '.' a.member.path) := by
  obtain ⟨parent, hpath, hparent⟩ := hw.atPath
  have hne := path_ne_empty hw hsite
  have hclass := ha.no_class_of_page hp
  simp only [hp, Bool.not_true, Bool.and_false, Bool.false_eq_true, if_false] at hparent
  rw [homeName_of_no_class hclass] at hparent
  have hgiven : a.givenName = joinStrings '.' a.member.path := by
    rw [hpath] at hne ⊢
    exact joinGiven_below hne hparent
  have hnormal : Name.IsNormal (joinStrings '.' a.member.path) :=
    Name.isNormal_joinStrings (by rw [hpath]; simp) fun name hname =>
      Name.isNormal_of_isComponent (Name.isComponent_of_isPlain (isPlain_path hw hsite name hname))
  rw [pageName?, hgiven, ModuleDirective.nameIn?, Name.readName_of_isNormal hnormal]
  rfl

theorem keys_eq_of_page (ha : a.Admitted kind options) (hp : a.onPage = true) :
    a.keys site = [joinStrings '.' a.member.path] := by
  have ho := (placed_options hw ha).withDefaults hsite.modest
  have hindex : (options.withDefaults site.defaults).has "no-index" = false := by
    rw [Table.has, ho.index]
    rfl
  rw [keys_of_page ha.options hp, hindex, pageName?_eq hw hsite ha hp]
  rfl

/-- **An object at its path is entered under its path.** -/
theorem keys_eq (ha : a.Admitted kind options) :
    a.keys site = [joinStrings '.' a.member.path] := by
  cases hp : a.onPage with
  | false => exact keys_eq_of_description hw hsite ha hp
  | true => exact keys_eq_of_page hw hsite ha hp

/-! ### Members -/

/-- The scene of a member: its context is that of the body of the object. -/
theorem scene_of_member (ha : a.Admitted kind options) (hz : z ∈ a.members site) :
    z.frame.options = options ∧ (∃ m, z.request = .ofMember m) ∧
      z.context.homeName = joinStrings '.' a.member.path ∧
      ((∃ c ∈ a.object.children, z.member = ⟨c.1, a.member.path ++ [c.1], c.2⟩) ∨
        ∃ c ∈ site.tree.children, z.member = ⟨c.1, [c.1], c.2⟩) := by
  have hlisted : ∀ (c : Context) (all : Options), ∀ m ∈ listed site c a.member all,
      (∃ c ∈ a.object.children, m = ⟨c.1, a.member.path ++ [c.1], c.2⟩) ∨
        ∃ c ∈ site.tree.children, m = ⟨c.1, [c.1], c.2⟩ := by
    intro c all m hm
    unfold listed at hm
    split at hm
    · next ms hms => exact mem_of_listMembers hms hm
    · cases hm
  cases hp : a.onPage with
  | true =>
    rw [members_of_page ha.options hp, pageMembers, pageName?_eq hw hsite ha hp] at hz
    obtain ⟨m, hm, rfl⟩ := List.mem_map.1 hz
    refine ⟨rfl, ⟨m, rfl⟩, ?_, hlisted _ _ m hm⟩
    have hclass := ha.no_class_of_page hp
    rw [homeName_withModule hclass, ← joinGiven_path (path_ne_empty hw hsite), joinGiven_joinGiven]
  | false =>
    rw [members_of_description ⟨ha.kind, ha.options, hp⟩, nestedMembers] at hz
    split at hz
    · next all hall =>
      obtain ⟨m, hm, rfl⟩ := List.mem_map.1 hz
      exact ⟨rfl, ⟨m, rfl⟩, homeName_inner hw hsite ha hp (nests_of_listing? ha hall),
        hlisted _ _ m hm⟩
    · cases hz

/-- The members of an object at its path are at theirs. -/
theorem wellPlaced_member (ha : a.Admitted kind options) (hz : z ∈ a.members site)
    (hput : z.object.StaysPut)
    (hglobal : z.member.path.length = 1 → z.object.details.toplevel = true) :
    z.WellPlaced site := by
  obtain ⟨hframe, ⟨m, hrequest⟩, hhome, hmember⟩ := scene_of_member hw hsite ha hz
  have hpage : z.onPage = false := by simp [onPage, hrequest, Request.ofMember]
  have hmade : z.request.signatures = none := by rw [hrequest]; rfl
  refine ⟨?_, ?_, ?_, hput, Request.spelt_of_made hmade, fun h => absurd hmade h⟩
  · rcases hmember with ⟨c, hc, hm⟩ | ⟨c, hc, hm⟩
    · rw [object, hm]
      exact Object.mem_entries_child hw.entry hc
    · rw [object, hm]
      exact Object.mem_entries_root hc
  · rcases hmember with ⟨c, hc, hm⟩ | ⟨c, hc, hm⟩
    · -- the path of a child has more than one name, so it is not a global
      have hlocal : z.object.details.toplevel = false := by
        rw [Bool.eq_false_iff]
        intro htop
        rw [object, hm] at htop
        have hlength := hsite.globals _ (Object.mem_entries_child hw.entry hc) htop
        obtain ⟨parent, hpath, -⟩ := hw.atPath
        simp [hpath] at hlength
      refine ⟨a.member.path, by rw [hm], ?_⟩
      rw [hlocal]
      exact hhome
    · refine ⟨[], by rw [hm]; rfl, ?_⟩
      rw [hglobal (by rw [hm]; rfl), hpage]
      rfl
  · rw [hframe]
    exact (placed_options hw ha).toVisible

end WellPlaced

end Scene

end Auto

end LuaDocs
