import LuaDocs.MemberTable

/-!
# Lists of inherited members

A document can list the members that a class inherits. The bases of a class are named in its row of
the index tables and are looked up where the class is described; their bases are followed in turn.
A member belongs to the first base that has it, and a member of the class itself is not inherited.
-/

namespace LuaDocs.InheritedMembers

open Index

/-- The last component of a full name. -/
def ownName (fullname : String) : String := (components fullname).getLast?.getD ""

/-- A base that is to be looked up. -/
abbrev Pending := String × Scope

/-- The bases that a row names, the last first. -/
def pendingOf (row : MemberRow) : List Pending := row.bases.reverse.map fun b => (b, row.scope)

/-- The rows without that of a base. -/
def dropRow (pool : Table MemberRow) (key : String) : Table MemberRow := pool.erase key

theorem length_dropRow_lt {pool : Table MemberRow} {key : String} {row : MemberRow}
    (h : pool.get? key = some row) : (dropRow pool key).length < pool.length := by
  rw [dropRow, Table.erase, List.length_filter_lt_length_iff_exists]
  exact ⟨(key, row), Table.mem_of_get? h, by simp⟩

/-- How the name of a base is looked up. -/
abbrev Lookup := Pending → Except LookupError (Option String)

/-- The row of `pool` that a name of a base means. -/
def baseRow? (look : Lookup) (pool : Table MemberRow) (b : Pending) :
    Except LookupError (Option (String × MemberRow)) :=
  (look b).map fun found => found.bind fun base => (pool.get? base).map fun row => (base, row)

theorem get?_of_baseRow? {look : Lookup} {pool : Table MemberRow} {b : Pending} {base : String}
    {row : MemberRow} (h : baseRow? look pool b = .ok (some (base, row))) :
    pool.get? base = some row := by
  unfold baseRow? at h
  cases hf : look b with
  | error e => simp [hf, Except.map] at h
  | ok found =>
    cases found with
    | none => simp [hf, Except.map] at h
    | some name =>
      simp only [hf, Except.map, Option.bind_some, Except.ok.injEq, Option.map_eq_some_iff,
        Prod.mk.injEq] at h
      obtain ⟨_, hr, rfl, rfl⟩ := h
      exact hr

/-- Follows bases, the first of `pending` first. The row of a base is taken out of `pool` when it is
visited, so that each is visited once. -/
def follow (look : Lookup) (pool : Table MemberRow) (pending : List Pending) :
    Except LookupError (List (String × MemberRow)) :=
  match pending with
  | [] => .ok []
  | b :: rest =>
    match _h : baseRow? look pool b with
    | .error e => .error e
    | .ok none => follow look pool rest
    | .ok (some (base, row)) =>
      (follow look (dropRow pool base) (pendingOf row ++ rest)).map fun more => (base, row) :: more
termination_by (pool.length, pending.length)
decreasing_by
  · exact Prod.Lex.right _ (by simp)
  · exact Prod.Lex.left _ _ (length_dropRow_lt (get?_of_baseRow? _h))

/-- Looks up the name of a base where its class is described. -/
def lookup (t : Index) : Lookup := fun b =>
  (t.find? b.2 none b.1).map fun found => found.map Prod.fst

/-- A member that a class inherits. -/
structure Inherited where
  /-- The last component of its name. -/
  name : String
  base : String
  fullname : String
  deriving DecidableEq, Repr

/-- Adds a member of a base, unless a member of that name is known. -/
def add (own : List String) (found : List Inherited) (base : String) (e : Entry) :
    List Inherited :=
  let name := ownName e.fullname
  if own.contains name || (found.map Inherited.name).contains name then found
  else found ++ [⟨name, base, e.fullname⟩]

/-- The members that the bases give to a class whose own members are `own`. -/
def collect (own : List String) (bases : List (String × MemberRow)) : List Inherited :=
  bases.foldl (fun found b => b.2.entries.foldl (fun found e => add own found b.1 e) found) []

/-- The members that `target` inherits. -/
def members (t : Index) (target : String) : Except LookupError (List Inherited) :=
  match t.members.get? target with
  | none => .ok []
  | some row => do
    let bases ← follow (lookup t) t.members (pendingOf row)
    return collect (row.entries.map fun e => ownName e.fullname) bases

/-- The paragraph of the members that come from one base. -/
def paragraph (t : Index) (parens : Bool) (document : String) (found : List Inherited)
    (base : String) : Except Reference.Error Node := do
  let ref ← MemberTable.refer t parens document base base
  let mine := (found.filter fun m => m.base == base).mergeSort fun a b => decide (a.name ≤ b.name)
  let refs ← mine.mapM fun m => MemberTable.refer t parens document m.fullname m.name
  return .plain .paragraph
    (.text "Inherited from " :: ref :: .text ": " :: refs.intersperse (.text ", "))

/-- The nodes of the list of the members that `target` inherits. -/
def render (t : Index) (parens : Bool) (document : String) (target : Option String) :
    Except Reference.Error (List Node) := do
  match target with
  | none => return []
  | some target =>
    let found ← (members t target).mapError .lookup
    if found.isEmpty then return []
    let bases := (found.map Inherited.base).eraseDups.mergeSort
    let paragraphs ← bases.mapM (paragraph t parens document found)
    return [.plain .paragraph [.leaf .strong "Other members:"], .plain .admonition paragraphs]

end LuaDocs.InheritedMembers
