import LuaDocs.Auto
import LuaDocs.Proofs.Description.Settled
import LuaDocs.Proofs.Members
import LuaDocs.Proofs.Render.Module
import Mathlib.Logic.Relation

/-!
# Scenes

A directive that describes an object of the tree describes members of the object with it, and
members of these in turn. Which objects are described, with which options and in which context, can
be told without rendering anything: it follows from the object, the description that it is made
from, and the context in which it is described. These three are a **scene**, and the scenes of its
members are computed from it.

The context of a scene is settled, so that what happens between the descriptions of two members
does not count.
-/

namespace LuaDocs.Auto

/-- The members that are listed are children of the object or globals. -/
theorem mem_of_listMembers {site : Site} {c : Context} {m n : Member} {options : Options}
    {ms : List Member} (h : listMembers site c m options = .ok ms) (hn : n ∈ ms) :
    (∃ c ∈ m.object.children, n = ⟨c.1, m.path ++ [c.1], c.2⟩) ∨
      ∃ c ∈ site.tree.children, n = ⟨c.1, [c.1], c.2⟩ := by
  rcases ((Members.mem_list_iff (Except.ok_of_mapError h)).1 hn).1 with hn | ⟨-, hn⟩
  · exact .inl (Members.mem_children_iff.1 hn)
  · obtain ⟨c, hc, -, rfl⟩ := Members.exists_of_mem_globals hn
    exact .inr ⟨c, hc, rfl⟩

/-- An object where it is described. -/
structure Scene where
  /-- The description that it is made from. -/
  frame : Frame
  request : Request
  context : Context

/-- Describes no members. -/
def noMembers : MemberRenderer := fun _ _ => pure []

namespace Scene

/-- The object with its name and path. -/
def member (a : Scene) : Member := a.request.member

/-- The object. -/
def object (a : Scene) : Object := a.member.object

/-- A directive names a module, which is described on a page and not in a description. -/
def onPage (a : Scene) : Bool := a.object.kind? == some .module_ && a.request.direct

/-- The options of the description. -/
def options? (a : Scene) : Except Failure Options :=
  memberOptions a.frame a.request.direct a.object

/-- The name of the module that is described on a page, as it is given to its directive. -/
def givenName (a : Scene) : String :=
  Index.joinGiven [a.context.moduleName.get?, some a.member.name]

/-- The name of the module that is described on a page. -/
def pageName? (a : Scene) : Option String := ModuleDirective.nameIn? a.givenName

/-- The context after the object has been described: a page sets the module. -/
def after (a : Scene) : Context :=
  match a.onPage, a.pageName? with
  | true, some name => a.context.withModule name
  | _, _ => a.context

/-- What is described of an object of the given kind that is not on a page. -/
def description (site : Site) (a : Scene) (kind : Kind) (options : Options) : Description :=
  (describe site a.context noMembers a.request kind options).renamed

/-- The names under which the object is entered into the index tables. -/
def keys (site : Site) (a : Scene) : List String :=
  match a.object.kind?, a.options? with
  | some kind, .ok options =>
    if a.onPage then
      if (options.withDefaults site.defaults).has "no-index" then [] else a.pageName?.toList
    else
      let d := a.description site kind options
      if d.options.has "no-index" then [] else (d.namings a.context).map Naming.fullname
  | _, _ => []

/-- The members that are listed in the context, if they can be listed. -/
def listed (site : Site) (c : Context) (m : Member) (options : Options) : List Member :=
  match listMembers site c m options with
  | .ok ms => ms
  | .error _ => []

/-- The context of the members of an object that is not on a page. -/
def inner (site : Site) (a : Scene) (kind : Kind) (options : Options) : Context :=
  ((a.description site kind options).bodyContext a.context).settle

/-- The scenes of the members on the page of a module. -/
def pageMembers (site : Site) (a : Scene) (options : Options) : List Scene :=
  match a.pageName? with
  | some name =>
    let c := a.context.withModule name
    (listed site c a.member (options.withDefaults site.defaults)).map fun m =>
      ⟨⟨a.givenName, options⟩, .ofMember m, c⟩
  | none => []

/-- The options by which the members of an object that is not on a page are listed; none if the
object has no members that are described with it. -/
def listing? (site : Site) (a : Scene) (kind : Kind) (options : Options) : Option Options :=
  match a.object.form, kind with
  | .function _, _ => none
  | .class_ info, .class_ => some (classOptions site a.request info options)
  | _, _ =>
    if (typeOf a.request kind).family.nests then some (options.withDefaults site.defaults)
    else none

/-- The scenes of the members in a description. -/
def nestedMembers (site : Site) (a : Scene) (kind : Kind) (options : Options) : List Scene :=
  match a.listing? site kind options with
  | some all =>
    (listed site (a.inner site kind options) a.member all).map fun m =>
      ⟨⟨a.member.name, options⟩, .ofMember m, a.inner site kind options⟩
  | none => []

/-- The scenes of the members that are described with the object. -/
def members (site : Site) (a : Scene) : List Scene :=
  match a.object.kind?, a.options? with
  | some kind, .ok options =>
    if a.onPage then a.pageMembers site options else a.nestedMembers site kind options
  | _, _ => []

/-- The scene of the constructor of a class, if it adds to the description of the class. -/
def makers (site : Site) (a : Scene) : List Scene :=
  match a.object.kind?, a.options?, a.object.form with
  | some .class_, .ok options, .class_ info =>
    match info.maker with
    | some maker =>
      if ["class", "none"].contains (docSource (classOptions site a.request info options)) then []
      else [⟨⟨a.member.name, options⟩, .ofMember (constructorMember a.member.path info maker),
        a.inner site .class_ options⟩]
    | none => []
  | _, _, _ => []

/-- The second scene is one step below the first one: that of a member or of the constructor. -/
def Step (site : Site) (a z : Scene) : Prop := z ∈ a.members site ∨ z ∈ a.makers site

/-- The second scene is below the first one or is the first one. -/
def Attempted (site : Site) : Scene → Scene → Prop := Relation.ReflTransGen (Step site)

/-- The names under which objects are entered in the scene and below it are among `K`, and the texts
of the comments on these objects leave the context as they found it and enter no other names. -/
structure Within (site : Site) (K : String → Prop) (a : Scene) : Prop where
  named : ∀ z, a.Attempted site z → ∀ key ∈ z.keys site, K key
  tidy : ∀ z, a.Attempted site z → TextsRespect site (Render.Tidy K) Failure.Fatal z.object

section Within

variable {site : Site} {K : String → Prop} {a z : Scene}

theorem Within.keys (h : a.Within site K) : ∀ key ∈ a.keys site, K key := h.named a .refl

theorem Within.texts (h : a.Within site K) :
    TextsRespect site (Render.Tidy K) Failure.Fatal a.object := h.tidy a .refl

theorem Within.step (h : a.Within site K) (hz : Step site a z) : z.Within site K :=
  ⟨fun y hy => h.named y (.head hz hy), fun y hy => h.tidy y (.head hz hy)⟩

end Within

/-- The directive is for objects of another type. -/
def Misnamed (a : Scene) : Prop :=
  ∃ kind t, a.object.kind? = some kind ∧ a.request.wanted = some t ∧
    (kindOf t ≠ kind ∨ ∃ name, given a.object.reading.doctype = some name ∧ name ≠ t.name)

/-- A page has no signatures, does not stand in a class, and its module has a name. -/
def Pageless (a : Scene) : Prop :=
  a.onPage = true ∧ (a.request.signatures.isSome ∨
    Context.nonEmpty a.context.className.get? ≠ none ∨ a.pageName? = none)

/-- Why an object cannot be described where it stands. -/
inductive Refused (a : Scene) (e : Failure) : Prop where
  /-- Its documentation gives it a type that it cannot have. -/
  | kind (h : a.object.kind? = none)
  /-- The directive is for another type. -/
  | wanted (h : a.Misnamed)
  /-- Its documentation sets an option that does not exist, or sets one to a wrong value. -/
  | options (h : a.options? = .error e)
  /-- It is a module that cannot have a page there. -/
  | page (h : a.Pageless)

/-- The object can be described where it stands, as an object of the given kind and with the given
options. -/
structure Admitted (a : Scene) (kind : Kind) (options : Options) : Prop where
  kind : a.object.kind? = some kind
  options : a.options? = .ok options
  named : ¬ a.Misnamed
  paged : ¬ a.Pageless

/-- The object is of the given kind and has the given options, and it is not on a page. -/
structure OffPage (a : Scene) (kind : Kind) (options : Options) : Prop where
  kind : a.object.kind? = some kind
  options : a.options? = .ok options
  offPage : a.onPage = false

/-! ### Scenes in descriptions and on pages -/

section Views

variable {site : Site} {a : Scene} {kind : Kind} {options : Options}

theorem keys_of_description (ha : a.OffPage kind options) :
    a.keys site = if (a.description site kind options).options.has "no-index" then []
      else ((a.description site kind options).namings a.context).map Naming.fullname := by
  simp [keys, ha.kind, ha.options, ha.offPage]

theorem members_of_description (ha : a.OffPage kind options) :
    a.members site = a.nestedMembers site kind options := by
  simp [members, ha.kind, ha.options, ha.offPage]

theorem keys_of_page (ho : a.options? = .ok options) (hp : a.onPage = true) :
    a.keys site = if (options.withDefaults site.defaults).has "no-index" then []
      else a.pageName?.toList := by
  have hk : a.object.kind? = some .module_ := by
    simp only [onPage, Bool.and_eq_true, beq_iff_eq] at hp
    exact hp.1
  simp [keys, hk, ho, hp]

theorem members_of_page (ho : a.options? = .ok options) (hp : a.onPage = true) :
    a.members site = a.pageMembers site options := by
  have hk : a.object.kind? = some .module_ := by
    simp only [onPage, Bool.and_eq_true, beq_iff_eq] at hp
    exact hp.1
  simp [members, hk, ho, hp]

theorem mem_makers {info : Object.ClassInfo} {maker : Object.Constructor}
    (ha : a.OffPage .class_ options) (hf : a.object.form = .class_ info)
    (hm : info.maker = some maker)
    (hd : ["class", "none"].contains (docSource (classOptions site a.request info options)) =
      false) :
    ⟨⟨a.member.name, options⟩, .ofMember (constructorMember a.member.path info maker),
      a.inner site .class_ options⟩ ∈ a.makers site := by
  simp only [makers, ha.kind, ha.options, hf, hm, hd]
  simp

end Views

end Scene

end LuaDocs.Auto
