import LuaDocs.Object

/-!
# Merging definitions

An object may be defined more than once: in several files, or as a module and as a class. Its
definitions are merged into one object. The *leading* definition keeps its form; the other adds its
children, files and flags, and its documentation where that of the leading one is missing or is
shorter.

Which definition leads is decided by an order: definitions outside the project first, then the
more telling form, then the earlier line. Lines can be compared only if both are known or both are
unknown.
-/

namespace LuaDocs.Object

/-- Why two definitions cannot be merged. -/
inductive MergeError where
  /-- Only one of the two has a line. -/
  | lines
  deriving DecidableEq, Repr

/-- The first definition has an earlier line than the second. -/
def lineBefore : Option Int → Option Int → Except MergeError Bool
  | some m, some n => .ok (decide (m < n))
  | none, none => .ok false
  | _, _ => .error .lines

/-- The definition `a` comes strictly before `b`. -/
def precedes (a b : Object) : Except MergeError Bool :=
  if a.details.foreign != b.details.foreign then .ok a.details.foreign
  else if a.form.priority != b.form.priority then .ok (decide (b.form.priority < a.form.priority))
  else lineBefore a.details.line b.details.line

/-- The documentation of the other definition replaces that of the leading one: that one is
missing, or is shorter while the other definition belongs to the project. -/
def replaces (lead other : Details) : Bool :=
  match given lead.comment.text with
  | none => true
  | some s =>
    match other.comment.text with
    | some t => decide (s.length < t.length) && !other.foreign
    | none => false

/-- Paths of both lists, without repetition. -/
def union (a b : List Path) : List Path :=
  b.foldl (fun r p => if r.contains p then r else r ++ [p]) a

/-- The details of the leading definition with what the other one adds. -/
def Details.absorb (lead other : Details) : Details :=
  let text := replaces lead other
  { lead with
    comment := {
      text := if text then other.comment.text else lead.comment.text
      cleanup := if text then other.comment.cleanup else lead.comment.cleanup
      options := lead.comment.options.update other.comment.options
      doctype := (given lead.comment.doctype).or other.comment.doctype }
    deprecated := lead.deprecated || other.deprecated
    deprecationReason := (given lead.deprecationReason).or other.deprecationReason
    noDiscard := lead.noDiscard || other.noDiscard
    noDiscardReason := (given lead.noDiscardReason).or other.noDiscardReason
    async := lead.async || other.async
    visibility := lead.visibility.or other.visibility
    see := lead.see ++ other.see
    files := union lead.files other.files
    commentFile := if text then other.commentFile else lead.commentFile.or other.commentFile
    foreign := lead.foreign && other.foreign
    line := lead.line.or other.line
    usedModules := lead.usedModules ++ other.usedModules }

/-- The object `lead` with what the object `other` adds to it. Children of one name are merged, and
the children that only `other` has follow those of `lead`. -/
def absorb (lead other : Object) : Except MergeError Object := do
  let common ← lead.children.attach.mapM fun ⟨(name, mine), _⟩ =>
    match _h : Table.get? other.children name with
    | none => .ok (name, mine)
    | some theirs => do
      let first ← theirs.precedes mine
      let merged ← if first then absorb theirs mine else absorb mine theirs
      return (name, merged)
  let added := other.children.filter fun c => !Table.has lead.children c.1
  return { lead with details := lead.details.absorb other.details, children := common ++ added }
termination_by sizeOf lead + sizeOf other
decreasing_by
  all_goals
    have h1 := sizeOf_lt_of_mem (Table.mem_of_get? _h)
    have h2 := sizeOf_lt_of_mem ‹(name, mine) ∈ lead.children›
    omega

/-- Two definitions as one object. -/
def merge (a b : Object) : Except MergeError Object := do
  if ← b.precedes a then b.absorb a else a.absorb b

/-- Adds a child, merging it with the child of the same name. -/
def addChild (o : Object) (name : String) (child : Object) : Except MergeError Object :=
  match o.child? name with
  | none => .ok { o with children := o.children ++ [(name, child)] }
  | some known => do
    return { o with children := Table.set o.children name (← known.merge child) }

/-- Adds an object under a path; objects that are missing on the way are made by `fresh`. -/
def insertAt (fresh : Object) (added : Object) (root : Object) :
    List String → Except MergeError Object
  | [] => .ok root
  | [name] => root.addChild name added
  | name :: rest => do
    let below ← insertAt fresh added ((root.child? name).getD fresh) rest
    return { root with children := Table.set root.children name below }

/-- Adds an object to a tree under the path `path`, whose components are separated by dots. An
object with a path of one component is noted as such. -/
def insert (root : Object) (cleanup : Bool) (path : String) (added : Object) :
    Except MergeError Object :=
  let parts := Text.splitString '.' path
  let added := match parts with
    | [_] => { added with details := { added.details with toplevel := true } }
    | _ => added
  insertAt (.unknown cleanup) added root parts

end LuaDocs.Object
