import LuaDocs.Analyzer.LuaLs
import LuaDocs.Proofs.Object.Earliest
import Mathlib.Data.List.Forall2

/-!
# The bases of a class that is defined several times

Classes that are merged are all of one priority, and their bases belong to their form. So the bases
of the merged class are those of one of its definitions, the one that leads, and nothing is added to
them: a base that only other definitions name is lost. No base is lost exactly if the leading
definition names all of them.

The definitions of a class meet in two ways. The entries that a document of the Lua language server
has for one name are merged into one object, and objects that are added under one path are merged in
the tree.
-/

namespace LuaDocs

open Text

namespace Object

/-- The bases that an object names; only classes name any. -/
def Form.bases : Form → List String
  | .class_ info => info.bases
  | _ => []

/-- The object is a class. -/
def Form.IsClass (f : Form) : Prop := ∃ info, f = .class_ info

theorem Form.IsClass.priority_eq {f : Form} (h : f.IsClass) : f.priority = 2 := by
  obtain ⟨info, rfl⟩ := h
  rfl

/-- The object `z` has all bases that the definitions of a list name. -/
def NoBaseLost (xs : List Head) (z : Head) : Prop := ∀ x ∈ xs, x.form.bases ⊆ z.form.bases

variable {xs : List Head} {o z : Head}

theorem Leads.noBaseLost_iff (h : Leads xs o z) : NoBaseLost xs z ↔ NoBaseLost xs o := by
  unfold NoBaseLost
  rw [h.form]

end Object

namespace LuaLs

open Analysis Object

variable [FileSystem] {project : Path} {a a' : Analysis} {j first : Json} {js rest : List Json}
  {o : Object} {s s' : Analysis × Object}

/-- The entry defines a class. -/
def DefinesClass (j : Json) : Prop :=
  ∃ members, j = .obj members ∧ Table.get? members "type" = some (.str "doc.class")

/-- The entry is read as the object. -/
def ReadsAs (project : Path) (j : Json) (o : Object) : Prop :=
  ∃ a a', definition project a j = .ok (a', o)

/-- What an entry that defines a class is read as is a class with the bases of the entry. -/
theorem ReadsAs.class_ (h : ReadsAs project j o) (hclass : DefinesClass j) :
    o.form.IsClass ∧ basesOf j = .ok o.form.bases := by
  obtain ⟨members, rfl, htype⟩ := hclass
  obtain ⟨a, a', h⟩ := h
  have hlook : look ((Json.obj members).entryOr "type" .null) = .ok (.str "doc.class") := by
    unfold Json.entryOr Json.entry?
    dsimp only
    rw [htype]
    rfl
  unfold definition at h
  rw [Except.bind_of_ok hlook] at h
  obtain ⟨bases, hbases, h⟩ := Except.ok_of_bind h
  obtain ⟨text, -, h⟩ := Except.ok_of_bind h
  obtain ⟨d, -, h⟩ := Except.ok_of_bind h
  cases h
  exact ⟨⟨_, rfl⟩, hbases⟩

theorem classes_of_readsAs {os : List Object} (h : List.Forall₂ (ReadsAs project) js os)
    (hclass : ∀ j ∈ js, DefinesClass j) : (∀ x ∈ os, x.form.IsClass) ∧
      List.Forall₂ (fun j x => basesOf j = .ok x.form.bases) js os := by
  induction h with
  | nil => exact ⟨fun x hx => absurd hx List.not_mem_nil, .nil⟩
  | cons hread _ ih =>
    rw [List.forall_mem_cons] at hclass
    obtain ⟨hform, hbases⟩ := hread.class_ hclass.1
    obtain ⟨hforms, hrest⟩ := ih hclass.2
    exact ⟨List.forall_mem_cons.2 ⟨hform, hforms⟩, .cons hbases hrest⟩

/-- Reads one more entry of a name and merges it with what those before it have made. -/
def mergeEntry (project : Path) (s : Analysis × Object) (j : Json) :
    Reader (Analysis × Object) := do
  let r ← definition project s.1 j
  return (r.1, ← merging (s.2.merge r.2))

theorem definitions_cons (project : Path) (a : Analysis) (first : Json) (rest : List Json) :
    definitions project a (.arr (first :: rest)) =
      definition project a first >>= fun s => rest.foldlM (mergeEntry project) s := rfl

theorem takesAll_foldlM (h : rest.foldlM (mergeEntry project) s = .ok s') :
    ∃ os, List.Forall₂ (ReadsAs project) rest os ∧
      s.2.head.TakesAll (os.map head) s'.2.head := by
  induction rest generalizing s with
  | nil =>
    cases h
    exact ⟨[], .nil, rfl⟩
  | cons j rest ih =>
    rw [List.foldlM_cons] at h
    obtain ⟨next, hnext, h⟩ := Except.ok_of_bind h
    obtain ⟨⟨b, x⟩, hread, hnext⟩ := Except.ok_of_bind hnext
    obtain ⟨merged, hmerged, hnext⟩ := Except.ok_of_bind hnext
    cases hnext
    obtain ⟨os, hos, htakes⟩ := ih h
    exact ⟨x :: os, .cons ⟨s.1, b, hread⟩ hos, merged.head,
      takes_of_merge (Except.ok_of_mapError hmerged), htakes⟩

/-- The entries of a name are read one by one, and each is put to what those before it have
made. -/
theorem takesAll_definitions (h : definitions project a (.arr (first :: rest)) = .ok (a', o)) :
    ∃ x os, ReadsAs project first x ∧ List.Forall₂ (ReadsAs project) rest os ∧
      x.head.TakesAll (os.map head) o.head := by
  rw [definitions_cons] at h
  obtain ⟨⟨b, x⟩, hread, h⟩ := Except.ok_of_bind h
  obtain ⟨os, hos, htakes⟩ := takesAll_foldlM h
  exact ⟨x, os, ⟨a, b, hread⟩, hos, htakes⟩

end LuaLs

namespace Analysis

open Object

/-- **Whose bases a class has.** The definitions of a class are entries of one name in a document of
the Lua language server, or classes that are added to an empty tree under one path, between objects
that go elsewhere. If they can be merged, the class in the end has the form of one of them, the
leading one, and so its bases: it has all bases that the definitions name exactly if the leading
one names them all. That one is a contender, the first of those with the earliest line. -/
theorem bases_of_leading [FileSystem] (project : Path) (cleanup : Bool) :
    (∀ a a' js o, js ≠ [] → (∀ j ∈ js, LuaLs.DefinesClass j) →
      LuaLs.definitions project a (.arr js) = .ok (a', o) →
      ∃ os lead, List.Forall₂ (LuaLs.ReadsAs project) js os ∧
        List.Forall₂ (fun j x => LuaLs.basesOf j = .ok x.form.bases) js os ∧
        Leads (os.map head) lead o.head ∧
        (NoBaseLost (os.map head) o.head ↔ NoBaseLost (os.map head) lead)) ∧
    ∀ steps a path, (empty cleanup).addAll steps = .ok a → path ≠ [] →
      meeting cleanup path steps ≠ [] →
      (∀ x ∈ meeting cleanup path steps, x.form.IsClass) →
      (∀ s ∈ steps, (brought path s).isSome = true → splitString '.' s.1 = path) →
      ∃ x lead, a.root.at? path = some x ∧ Leads (meeting cleanup path steps) lead x.head ∧
        (NoBaseLost (meeting cleanup path steps) x.head ↔
          NoBaseLost (meeting cleanup path steps) lead) := by
  constructor
  · intro a a' js o hne hclass h
    obtain ⟨first, rest, rfl⟩ := List.exists_cons_of_ne_nil hne
    obtain ⟨x, os, hx, hos, htakes⟩ := LuaLs.takesAll_definitions h
    have hread : List.Forall₂ (LuaLs.ReadsAs project) (first :: rest) (x :: os) := .cons hx hos
    obtain ⟨hforms, hbases⟩ := LuaLs.classes_of_readsAs hread hclass
    obtain ⟨lead, hlead⟩ := exists_leads htakes fun y hy => by
      obtain ⟨u, hu, rfl⟩ := List.mem_map.1 (List.map_cons ▸ hy)
      exact (hforms u hu).priority_eq
    exact ⟨x :: os, lead, hread, hbases, hlead, hlead.noBaseLost_iff⟩
  · intro steps a path h hpath hmet hclass hdirect
    have hgathered := gatheredBy_insertAll (insertAll_of_addAll h) hpath (brings_takes hdirect)
      (headAt?_of_childless rfl hpath)
    obtain ⟨y, ys, hcons⟩ := List.exists_cons_of_ne_nil hmet
    have hcons' : meeting (empty cleanup).cleanup path steps = y :: ys := hcons
    rw [hcons'] at hgathered
    rw [hcons] at hclass ⊢
    obtain ⟨z, hz, htakes⟩ := hgathered
    obtain ⟨x, hx, rfl⟩ := Option.map_eq_some_iff.1 hz
    obtain ⟨lead, hlead⟩ := exists_leads htakes fun u hu => (hclass u hu).priority_eq
    exact ⟨x, lead, hx, hlead, hlead.noBaseLost_iff⟩

/-- A class with one base, on a line. -/
def derivedClass (line : Int) (base : String) : Object :=
  ⟨{ Details.unknown true with line := some line }, .class_ ⟨[base], [], none, none⟩, []⟩

/-- An entry for a class with one base, on a line. -/
def derivedEntry (line : Int) (base : String) : Json :=
  .obj [("type", .str "doc.class"), ("start", .arr [.int line, .int 0]),
    ("extends", .arr [.obj [("view", .str base)]])]

attribute [local instance] FileSystem.linkless

/-- Of two bases that a class has on two lines one is lost, in a document and in the tree. -/
theorem bases_of_derivedClass :
    (∃ a o os, LuaLs.definitions (Path.ofString "/p") (empty true)
        (.arr [derivedEntry 2 "c", derivedEntry 1 "b"]) = .ok (a, o) ∧
      List.Forall₂ (LuaLs.ReadsAs (Path.ofString "/p"))
        [derivedEntry 2 "c", derivedEntry 1 "b"] os ∧ ¬ NoBaseLost (os.map head) o.head) ∧
    ∃ a x, (empty true).addAll [("a", derivedClass 2 "c"), ("a", derivedClass 1 "b")] = .ok a ∧
      a.root.at? ["a"] = some x ∧ x.form.bases = ["b"] := by
  obtain ⟨hentries, hadded⟩ := bases_of_leading (Path.ofString "/p") true
  constructor
  · have hok : (LuaLs.definitions (Path.ofString "/p") (empty true)
        (.arr [derivedEntry 2 "c", derivedEntry 1 "b"])).isOk = true := by
      decide +kernel
    obtain ⟨⟨a, o⟩, ho⟩ := Except.exists_of_isOk hok
    obtain ⟨os, lead, hread, hbases, hlead, hiff⟩ := hentries (empty true) a _ o
      (List.cons_ne_nil _ _) (by
        rw [List.forall_mem_cons, List.forall_mem_singleton]
        exact ⟨⟨_, rfl, rfl⟩, ⟨_, rfl, rfl⟩⟩) ho
    refine ⟨a, o, os, ho, hread, fun hkept => ?_⟩
    have hc : LuaLs.basesOf (derivedEntry 2 "c") = .ok ["c"] :=
      Except.toOption_eq_some.1 (by decide +kernel)
    have hb : LuaLs.basesOf (derivedEntry 1 "b") = .ok ["b"] :=
      Except.toOption_eq_some.1 (by decide +kernel)
    obtain ⟨x, others, hx, hothers, rfl⟩ := List.forall₂_cons_left_iff.1 hbases
    obtain ⟨y, others, hy, hnil, rfl⟩ := List.forall₂_cons_left_iff.1 hothers
    obtain rfl := List.forall₂_nil_left_iff.1 hnil
    have hxbases : x.head.form.bases = ["c"] := Except.ok.inj (hx.symm.trans hc)
    have hybases : y.head.form.bases = ["b"] := Except.ok.inj (hy.symm.trans hb)
    -- whichever of the two leads, it lacks the base of the other one
    have hall := hiff.1 hkept
    simp only [NoBaseLost, List.map_cons, List.map_nil, List.forall_mem_cons, hxbases, hybases]
      at hall
    have hlead : lead = x.head ∨ lead = y.head := by simpa using hlead.contends.mem
    rcases hlead with rfl | rfl
    · simp [hxbases] at hall
    · simp [hybases] at hall
  · have hok : ((empty true).addAll
        [("a", derivedClass 2 "c"), ("a", derivedClass 1 "b")]).isOk = true := by
      decide +kernel
    obtain ⟨a, ha⟩ := Except.exists_of_isOk hok
    have hmeeting : meeting true ["a"] [("a", derivedClass 2 "c"), ("a", derivedClass 1 "b")] =
        [(noted ["a"] (derivedClass 2 "c")).head, (noted ["a"] (derivedClass 1 "b")).head] := by
      decide +kernel
    obtain ⟨x, lead, hx, hlead, -⟩ := hadded _ a ["a"] ha (List.cons_ne_nil _ _)
      (by rw [hmeeting]; exact List.cons_ne_nil _ _)
      (by
        rw [hmeeting, List.forall_mem_cons, List.forall_mem_singleton]
        exact ⟨⟨_, rfl⟩, ⟨_, rfl⟩⟩)
      (by decide +kernel)
    rw [hmeeting] at hlead
    obtain ⟨before, after, heq, -, hafter⟩ := hlead.earliest false (by
      rw [List.forall_mem_cons, List.forall_mem_singleton]
      exact ⟨rfl, rfl⟩)
    refine ⟨a, x, ha, hx, ?_⟩
    cases before with
    | nil =>
      -- the class on the second line would lead the one on the first
      obtain ⟨rfl, rfl⟩ := List.cons.inj heq
      exact absurd ⟨1, 2, rfl, rfl, by decide⟩ (hafter _ List.mem_cons_self)
    | cons other before =>
      obtain ⟨-, heq⟩ := List.cons.inj heq
      have hmem : lead ∈ [(noted ["a"] (derivedClass 1 "b")).head] :=
        heq ▸ List.mem_append_right before List.mem_cons_self
      obtain rfl := List.mem_singleton.1 hmem
      exact congrArg Form.bases hlead.form

end Analysis

end LuaDocs
