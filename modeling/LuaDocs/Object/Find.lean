import LuaDocs.Object

/-!
# Finding objects

Objects are found by the path of names that leads to them from the root of a tree. The part of the
path that runs through modules names the module of the object; the rest names its class and the
object itself.
-/

namespace LuaDocs.Object

open Text

/-- The object at the end of a path. -/
def at? (root : Object) : List String → Option Object
  | [] => some root
  | name :: rest =>
    match root.child? name with
    | some c => c.at? rest
    | none => none

/-- The object with the given path of names separated by dots. -/
def find? (root : Object) (path : String) : Option Object := root.at? (splitString '.' path)

/-- Where a path leads. -/
structure Location where
  object : Option Object
  /-- The path of the module. -/
  moduleName : String
  /-- The path of the class below the module. -/
  className : String
  /-- The name of the object, or the first name that leads nowhere. -/
  name : String

/-- The object and the names on the way to it: those of modules and those from the first name that
is no module; both with the last name first. If a name leads nowhere, it is given instead of the
object. -/
def walk (root : Object) (modules classes : List String) :
    List String → Except String Object × List String × List String
  | [] => (.ok root, modules, classes)
  | name :: rest =>
    match root.child? name with
    | none => (.error name, modules, classes)
    | some c =>
      if !classes.isEmpty || c.kind? != some .module_ then
        c.walk modules (name :: classes) rest
      else c.walk (name :: modules) classes rest

/-- Joins names, the last of which comes first. -/
def dotted (names : List String) : String := joinStrings '.' names.reverse

/-- Where a path of names separated by dots leads. -/
def locate (root : Object) (path : String) : Location :=
  match root.walk [] [] (splitString '.' path) with
  | (.error name, modules, classes) => ⟨none, dotted modules, dotted classes, name⟩
  | (.ok o, modules, name :: classes) => ⟨some o, dotted modules, dotted classes, name⟩
  | (.ok o, name :: modules, []) => ⟨some o, dotted modules, "", name⟩
  | (.ok o, [], []) => ⟨some o, "", "", ""⟩

/-- All objects below an object with their paths, parents before their children. -/
def entries (o : Object) : List (List String × Object) :=
  o.children.attach.flatMap fun ⟨(name, c), _⟩ =>
    ([name], c) :: c.entries.map fun e => (name :: e.1, e.2)
termination_by sizeOf o
decreasing_by exact sizeOf_lt_of_mem ‹_›

/-- The names of the bases of a class. -/
def baseNames (o : Object) : List String :=
  match o.form with
  | .class_ info => info.bases
  | _ => []

/-- The entry with the given path. -/
def entry? (pool : List (List String × Object)) (path : List String) : Option Object :=
  (pool.find? fun e => e.1 == path).map Prod.snd

/-- The entries without those at the given path. -/
def dropEntry (pool : List (List String × Object)) (path : List String) :
    List (List String × Object) :=
  pool.filter fun e => e.1 != path

theorem length_dropEntry_lt {pool : List (List String × Object)} {path : List String}
    {o : Object} (h : entry? pool path = some o) :
    (dropEntry pool path).length < pool.length := by
  obtain ⟨e, he, -⟩ := Option.map_eq_some_iff.1 h
  have hm := List.mem_of_find?_eq_some he
  have hp := List.find?_some he
  rw [dropEntry, List.length_filter_lt_length_iff_exists]
  exact ⟨e, hm, by simpa using hp⟩

/-- Follows names of bases, the first of `pending` first. An object is followed once: it is taken
out of `pool` when it is met. The object at the path `self` is not a base of itself. -/
def followBases (self : List String) (pool : List (List String × Object)) (pending : List String) :
    List (List String × Object) :=
  match pending with
  | [] => []
  | name :: rest =>
    let path := splitString '.' name
    match _h : entry? pool path with
    | none => followBases self pool rest
    | some base =>
      let pool := dropEntry pool path
      if path == self then followBases self pool rest
      else (path, base) :: followBases self pool (base.baseNames.reverse ++ rest)
termination_by (pool.length, pending.length)
decreasing_by
  · exact Prod.Lex.right _ (by simp)
  all_goals exact Prod.Lex.left _ _ (length_dropEntry_lt _h)

/-- The bases of the class at the path `self`, and their bases in turn, with their paths: depth
first, and of several names the last first. -/
def bases (root : Object) (self : List String) : List (List String × Object) :=
  match root.at? self with
  | some o => followBases self root.entries o.baseNames.reverse
  | none => []

/-- The lines of a list of children after the text `indent`. -/
def outlineOf (indent : String) (children : List (String × Object)) : List String :=
  match children with
  | [] => []
  | (name, c) :: rest =>
    let (branch, below) := if rest.isEmpty then ("└── ", "    ") else ("├── ", "│   ")
    let kind := match c.kind? with
      | some k => k.name ++ " "
      | none => ""
    (indent ++ branch ++ kind ++ name) :: outlineOf (indent ++ below) c.children ++
      outlineOf indent rest
termination_by sizeOf children
decreasing_by
  · obtain ⟨d, f, cs⟩ := c
    simp only [List.cons.sizeOf_spec, Prod.mk.sizeOf_spec, Object.mk.sizeOf_spec]
    omega
  · simp only [List.cons.sizeOf_spec]
    omega

/-- The tree below an object as lines of text. -/
def outline (o : Object) : List String := outlineOf "" o.children

/-- The tree with the options that the comments set noted in them. -/
def noteOptions (o : Object) : Object :=
  { o with children := o.children.attach.map fun ⟨(name, c), _⟩ =>
      let d := c.noteOptions
      (name, d.withComment d.details.comment.noteOptions) }
termination_by sizeOf o
decreasing_by exact sizeOf_lt_of_mem ‹_›

end LuaDocs.Object
