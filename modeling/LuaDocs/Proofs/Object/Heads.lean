import LuaDocs.Object.Find
import LuaDocs.Object.Merge
import LuaDocs.Proofs.Table

/-!
# Merging, path by path

A tree is a map from paths to what the objects there say of themselves, their *heads*. Merging two
trees goes down both at once, and which of two definitions leads may change from level to level:
where neither precedes the other, the child of the definition that leads one level above leads. What
does not depend on that order can be said path by path. At a path that only one of the trees has,
the merged tree has the head of that one; at a path that both have, one of the two heads leads,
which the other does not precede, and has absorbed the other.

Adding an object under a path is merging at that path and below it. Above it nothing changes, except
that objects that are missing on the way are made.
-/

namespace LuaDocs.Object

open Text

/-- What an object says of itself, its children apart. -/
structure Head where
  details : Details
  form : Form
  deriving DecidableEq, Repr

/-- What the object says of itself. -/
def head (o : Object) : Head := ⟨o.details, o.form⟩

/-- What the object at the end of a path says of itself. -/
def headAt? (root : Object) (path : List String) : Option Head := (root.at? path).map head

@[simp] theorem headAt?_nil (o : Object) : o.headAt? [] = some o.head := rfl

theorem headAt?_cons (o : Object) (name : String) (rest : List String) :
    o.headAt? (name :: rest) = (o.child? name).bind fun c => c.headAt? rest := by
  rw [headAt?, at?]
  cases o.child? name <;> rfl

theorem headAt?_of_childless {o : Object} (h : o.children = []) {path : List String}
    (hpath : path ≠ []) : o.headAt? path = none := by
  obtain ⟨name, rest, rfl⟩ := List.exists_cons_of_ne_nil hpath
  rw [headAt?_cons, child?, h]
  rfl

/-- A path leads through the objects on its way. -/
theorem headAt?_append (o : Object) (path rest : List String) :
    o.headAt? (path ++ rest) = (o.at? path).bind fun c => c.headAt? rest := by
  induction path generalizing o with
  | nil => rfl
  | cons name path ih =>
    rw [List.cons_append, headAt?_cons, at?]
    cases o.child? name with
    | none => rfl
    | some c => exact ih c

/-! ### Two heads as one -/

namespace Head

/-- The definition `a` comes strictly before `b`. -/
def precedes (a b : Head) : Except MergeError Bool :=
  if a.details.foreign != b.details.foreign then .ok a.details.foreign
  else if a.form.priority != b.form.priority then .ok (decide (b.form.priority < a.form.priority))
  else lineBefore a.details.line b.details.line

/-- The leading head with what the other one adds. -/
def absorb (lead other : Head) : Head := ⟨lead.details.absorb other.details, lead.form⟩

/-- One of the heads `a` and `b`, which the other one does not precede, has absorbed the other. -/
def Joins (a b c : Head) : Prop :=
  b.precedes a = .ok false ∧ c = a.absorb b ∨ a.precedes b = .ok false ∧ c = b.absorb a

theorem Joins.symm {a b c : Head} (h : a.Joins b c) : b.Joins a c := Or.symm h

theorem lineBefore_asymm {m n : Option Int} (h : lineBefore m n = .ok true) :
    lineBefore n m = .ok false := by
  cases m <;> cases n <;> simp_all [lineBefore]
  omega

/-- No two definitions come before each other. -/
theorem precedes_asymm {a b : Head} (h : a.precedes b = .ok true) : b.precedes a = .ok false := by
  unfold precedes at h ⊢
  by_cases hf : a.details.foreign = b.details.foreign
  · by_cases hp : a.form.priority = b.form.priority
    · simp only [hf, hp, bne_self_eq_false, Bool.false_eq_true, if_false] at h ⊢
      exact lineBefore_asymm h
    · have hp' : b.form.priority ≠ a.form.priority := Ne.symm hp
      simp only [hf, bne_self_eq_false, Bool.false_eq_true, if_false, bne_iff_ne, ne_eq, hp, hp',
        not_false_eq_true, if_true, Except.ok.injEq, decide_eq_true_eq, decide_eq_false_iff_not]
        at h ⊢
      omega
  · have hf' : b.details.foreign ≠ a.details.foreign := Ne.symm hf
    simp only [bne_iff_ne, ne_eq, hf, hf', not_false_eq_true, if_true, Except.ok.injEq] at h ⊢
    rw [h] at hf
    simpa using hf

end Head

theorem precedes_eq (a b : Object) : a.precedes b = a.head.precedes b.head := rfl

/-- What an object is that two definitions make, either of which may be missing. -/
def Meets (a b c : Option Head) : Prop :=
  match a, b with
  | none, b => c = b
  | a, none => c = a
  | some x, some y => ∃ z, c = some z ∧ x.Joins y z

namespace Meets

variable {a b c : Option Head} {x y : Head}

@[simp] theorem none_left : Meets none b c ↔ c = b := by
  cases b <;> exact Iff.rfl

@[simp] theorem none_right : Meets a none c ↔ c = a := by
  cases a <;> exact Iff.rfl

@[simp] theorem some_some : Meets (some x) (some y) c ↔ ∃ z, c = some z ∧ x.Joins y z := Iff.rfl

theorem symm (h : Meets a b c) : Meets b a c := by
  cases a with
  | none => simpa using h
  | some x =>
    cases b with
    | none => simpa using h
    | some y =>
      obtain ⟨z, rfl, hz⟩ := h
      exact ⟨z, rfl, hz.symm⟩

end Meets

/-! ### One level of a merge -/

/-- What becomes of a child of the leading definition. -/
def absorbChild (other : Object) (row : String × Object) : Except MergeError (String × Object) :=
  match Table.get? other.children row.1 with
  | none => .ok row
  | some theirs => do return (row.1, ← row.2.merge theirs)

theorem fst_of_absorbChild {other : Object} (row row' : String × Object)
    (h : absorbChild other row = .ok row') : row'.1 = row.1 := by
  unfold absorbChild at h
  split at h
  · cases h
    rfl
  · obtain ⟨z, -, h⟩ := Except.ok_of_bind h
    cases h
    rfl

/-- Absorbing, with the children of one name merged like any two definitions. -/
theorem absorb_eq (lead other : Object) :
    lead.absorb other = do
      let common ← lead.children.mapM (absorbChild other)
      return { lead with
        details := lead.details.absorb other.details
        children := common ++ other.children.filter fun c => !Table.has lead.children c.1 } := by
  rw [absorb, List.mapM_subtype (g := absorbChild other), List.unattach_attach]
  intro row _
  unfold absorbChild
  dsimp only
  split
  · next hnone => rw [hnone]
  · next theirs hsome =>
    simp only [hsome, merge, bind_assoc]
    congr 1
    funext first
    cases first <;> rfl

/-- What one level of a merge does: the leading head absorbs the other one, and so do the children
of each name. -/
structure Absorbed (lead other merged : Object) : Prop where
  head : merged.head = lead.head.absorb other.head
  added : ∀ name, lead.child? name = none → merged.child? name = other.child? name
  kept : ∀ name c, lead.child? name = some c → other.child? name = none →
    merged.child? name = some c
  common : ∀ name c d, lead.child? name = some c → other.child? name = some d →
    ∃ z, c.merge d = .ok z ∧ merged.child? name = some z

theorem absorbed_of_absorb {lead other merged : Object} (h : lead.absorb other = .ok merged) :
    Absorbed lead other merged := by
  rw [absorb_eq] at h
  obtain ⟨common, hcommon, h⟩ := Except.ok_of_bind h
  cases h
  have hchild : ∀ name, child? { lead with
      details := lead.details.absorb other.details
      children := common ++ other.children.filter fun c => !Table.has lead.children c.1 } name =
      (Table.get? common name).or
        (if !Table.has lead.children name then other.child? name else none) := by
    intro name
    rw [child?, Table.get?_append, Table.get?_filter_keys _ fun key => !Table.has lead.children key]
    rfl
  refine ⟨rfl, fun name hnone => ?_, fun name c hc hnone => ?_, fun name c d hc hd => ?_⟩
  · have hcommon' := (Table.get?_of_mapM fst_of_absorbChild hcommon name).1 hnone
    rw [hchild, hcommon', Table.has, show Table.get? lead.children name = none from hnone]
    rfl
  · obtain ⟨w, hw, hget⟩ := (Table.get?_of_mapM fst_of_absorbChild hcommon name).2 c hc
    rw [absorbChild, show Table.get? other.children (name, c).1 = none from hnone] at hw
    cases hw
    rw [hchild, hget, Option.some_or]
  · obtain ⟨w, hw, hget⟩ := (Table.get?_of_mapM fst_of_absorbChild hcommon name).2 c hc
    rw [absorbChild, show Table.get? other.children (name, c).1 = some d from hd] at hw
    obtain ⟨z, hz, hw⟩ := Except.ok_of_bind hw
    cases hw
    exact ⟨w, hz, by rw [hchild, hget, Option.some_or]⟩

/-- Of two definitions one leads, which the other one does not precede. -/
theorem absorbed_of_merge {a b c : Object} (h : a.merge b = .ok c) :
    b.head.precedes a.head = .ok false ∧ Absorbed a b c ∨
      a.head.precedes b.head = .ok false ∧ Absorbed b a c := by
  unfold merge at h
  obtain ⟨first, hfirst, h⟩ := Except.ok_of_bind h
  cases first with
  | true => exact .inr ⟨Head.precedes_asymm hfirst, absorbed_of_absorb h⟩
  | false => exact .inl ⟨hfirst, absorbed_of_absorb h⟩

/-! ### Path by path -/

/-- The children of one name of two definitions, where one of these leads. -/
theorem Absorbed.meets_cons {lead other merged : Object} (h : Absorbed lead other merged)
    {name : String} {rest : List String}
    (ih : ∀ c d z : Object, c.merge d = .ok z →
      Meets (c.headAt? rest) (d.headAt? rest) (z.headAt? rest)) :
    Meets (lead.headAt? (name :: rest)) (other.headAt? (name :: rest))
      (merged.headAt? (name :: rest)) := by
  simp only [headAt?_cons]
  cases hlead : lead.child? name with
  | none =>
    rw [h.added name hlead]
    exact Meets.none_left.2 rfl
  | some c =>
    cases hother : other.child? name with
    | none =>
      rw [h.kept name c hlead hother]
      exact Meets.none_right.2 rfl
    | some d =>
      obtain ⟨z, hz, hmerged⟩ := h.common name c d hlead hother
      rw [hmerged]
      exact ih c d z hz

/-- **Merging two trees, path by path.** -/
theorem meets_merge {a b c : Object} (h : a.merge b = .ok c) (path : List String) :
    Meets (a.headAt? path) (b.headAt? path) (c.headAt? path) := by
  induction path generalizing a b c with
  | nil =>
    rcases absorbed_of_merge h with ⟨hlead, habs⟩ | ⟨hlead, habs⟩
    · exact ⟨c.head, rfl, .inl ⟨hlead, habs.head⟩⟩
    · exact ⟨c.head, rfl, .inr ⟨hlead, habs.head⟩⟩
  | cons name rest ih =>
    -- which of the two leads here decides the order in which the children are merged
    rcases absorbed_of_merge h with ⟨-, habs⟩ | ⟨-, habs⟩
    · exact habs.meets_cons fun _ _ _ => ih
    · exact (habs.meets_cons fun _ _ _ => ih).symm

/-! ### Adding an object -/

variable {root fresh added merged : Object} {name : String} {path parts : List String}

theorem headAt?_set (o : Object) (name other : String) (c : Object) (rest : List String) :
    { o with children := Table.set o.children name c }.headAt? (other :: rest) =
      if name = other then c.headAt? rest else o.headAt? (other :: rest) := by
  rw [headAt?_cons, headAt?_cons, child?, Table.get?_set]
  split
  · rfl
  · rfl

theorem headAt?_addChild_of_ne (h : root.addChild name added = .ok merged) {other : String}
    (hne : name ≠ other) (rest : List String) :
    merged.headAt? (other :: rest) = root.headAt? (other :: rest) := by
  unfold addChild at h
  split at h
  · cases h
    have hget : Table.get? [(name, added)] other = none := by simp [Table.get?_cons, hne]
    rw [headAt?_cons, headAt?_cons, child?, child?, Table.get?_append, hget, Option.or_none]
  · obtain ⟨c, -, h⟩ := Except.ok_of_bind h
    cases h
    rw [headAt?_set, if_neg hne]

theorem meets_addChild (h : root.addChild name added = .ok merged) (rest : List String) :
    Meets (root.headAt? (name :: rest)) (added.headAt? rest) (merged.headAt? (name :: rest)) := by
  unfold addChild at h
  split at h
  · next hnone =>
    cases h
    have hget : Table.get? root.children name = none := hnone
    rw [headAt?_cons root, hnone, headAt?_cons, child?, Table.get?_append, hget]
    exact Meets.none_left.2 (by simp [Table.get?_cons])
  · next known hknown =>
    obtain ⟨c, hc, h⟩ := Except.ok_of_bind h
    cases h
    rw [headAt?_cons root, hknown, headAt?_set, if_pos rfl]
    exact meets_merge hc rest

theorem head_addChild (h : root.addChild name added = .ok merged) : merged.head = root.head := by
  unfold addChild at h
  split at h
  · cases h
    rfl
  · obtain ⟨c, -, h⟩ := Except.ok_of_bind h
    cases h
    rfl

/-- The step of adding an object under a path of more than one name. -/
theorem exists_of_insertAt_cons {next : String}
    (h : insertAt fresh added root (name :: next :: parts) = .ok merged) :
    ∃ below, insertAt fresh added ((root.child? name).getD fresh) (next :: parts) = .ok below ∧
      merged = { root with children := Table.set root.children name below } := by
  rw [insertAt] at h
  · obtain ⟨below, hbelow, h⟩ := Except.ok_of_bind h
    cases h
    exact ⟨below, hbelow, rfl⟩
  · exact List.cons_ne_nil next parts

/-- An object is merged with what is at its path, and what is below it with what is there. -/
theorem meets_insertAt (hfresh : fresh.children = []) (hparts : parts ≠ [])
    (h : insertAt fresh added root parts = .ok merged) (rest : List String) :
    Meets (root.headAt? (parts ++ rest)) (added.headAt? rest)
      (merged.headAt? (parts ++ rest)) := by
  induction parts generalizing root merged with
  | nil => exact absurd rfl hparts
  | cons name parts ih =>
    cases parts with
    | nil => exact meets_addChild h rest
    | cons next parts =>
      obtain ⟨below, hbelow, rfl⟩ := exists_of_insertAt_cons h
      have hmeets := ih (List.cons_ne_nil _ _) hbelow
      rw [List.cons_append, headAt?_set, if_pos rfl, headAt?_cons]
      cases hchild : root.child? name with
      | some c =>
        rw [hchild] at hmeets
        exact hmeets
      | none =>
        rw [hchild, Option.getD_none, headAt?_of_childless hfresh (by simp)] at hmeets
        exact hmeets

/-- Above the path of an added object, the objects that are missing are made, and nothing else
changes. -/
theorem headAt?_insertAt_above (hfresh : fresh.children = []) {rest : List String}
    (hpath : path ≠ []) (hrest : rest ≠ [])
    (h : insertAt fresh added root (path ++ rest) = .ok merged) :
    merged.headAt? path = some ((root.headAt? path).getD fresh.head) := by
  induction path generalizing root merged with
  | nil => exact absurd rfl hpath
  | cons name path ih =>
    obtain ⟨next, parts, hnext⟩ := List.exists_cons_of_ne_nil
      (show path ++ rest ≠ [] by simp [hrest])
    rw [List.cons_append, hnext] at h
    obtain ⟨below, hbelow, rfl⟩ := exists_of_insertAt_cons h
    rw [← hnext] at hbelow
    rw [headAt?_set, if_pos rfl, headAt?_cons]
    cases path with
    | nil =>
      -- the object itself keeps its head
      have hhead : below.head = ((root.child? name).getD fresh).head := by
        obtain ⟨last, parts, rfl⟩ := List.exists_cons_of_ne_nil hrest
        cases parts with
        | nil => exact head_addChild hbelow
        | cons =>
          obtain ⟨_, -, rfl⟩ := exists_of_insertAt_cons hbelow
          rfl
      rw [headAt?_nil, hhead]
      cases root.child? name <;> rfl
    | cons second path =>
      rw [ih (List.cons_ne_nil _ _) hbelow]
      cases root.child? name with
      | none =>
        rw [Option.getD_none, headAt?_of_childless hfresh (List.cons_ne_nil _ _)]
        rfl
      | some c => rfl

/-- Paths that neither lead to the added object nor through it are untouched. -/
theorem headAt?_insertAt_aside (h : insertAt fresh added root parts = .ok merged)
    (hfresh : fresh.children = []) (hbelow : ¬ parts <+: path) (habove : ¬ path <+: parts) :
    merged.headAt? path = root.headAt? path := by
  induction parts generalizing root merged path with
  | nil => exact absurd List.nil_prefix hbelow
  | cons name parts ih =>
    cases path with
    | nil => exact absurd List.nil_prefix habove
    | cons other path =>
      by_cases hne : name = other
      · subst hne
        rw [List.prefix_cons_inj] at hbelow habove
        cases parts with
        | nil => exact absurd List.nil_prefix hbelow
        | cons next parts =>
          obtain ⟨below, hrec, rfl⟩ := exists_of_insertAt_cons h
          rw [headAt?_set, if_pos rfl, ih hrec hbelow habove, headAt?_cons]
          cases root.child? name with
          | some c => rfl
          | none =>
            refine headAt?_of_childless hfresh fun hnil => habove ?_
            rw [hnil]
            exact List.nil_prefix
      · cases parts with
        | nil => exact headAt?_addChild_of_ne h hne path
        | cons next parts =>
          obtain ⟨below, -, rfl⟩ := exists_of_insertAt_cons h
          rw [headAt?_set, if_neg hne]

/-! ### Adding an object under a dotted path -/

/-- The object as it is added: one with a path of one name is noted as such. -/
def noted (parts : List String) (o : Object) : Object :=
  match parts with
  | [_] => { o with details := { o.details with toplevel := true } }
  | _ => o

theorem insert_eq (root : Object) (cleanup : Bool) (path : String) (o : Object) :
    root.insert cleanup path o =
      insertAt (.unknown cleanup) (noted (splitString '.' path) o) root (splitString '.' path) :=
  rfl

theorem splitString_ne_nil (sep : Char) (s : String) : splitString sep s ≠ [] := by
  simpa [splitString] using splitAt_ne_nil sep s.toList

variable {cleanup : Bool} {dotted : String}

/-- **Adding an object merges it with what is at its path**, and below it. -/
theorem meets_insert (h : root.insert cleanup dotted added = .ok merged) (rest : List String) :
    Meets (root.headAt? (splitString '.' dotted ++ rest))
      ((noted (splitString '.' dotted) added).headAt? rest)
      (merged.headAt? (splitString '.' dotted ++ rest)) :=
  meets_insertAt rfl (splitString_ne_nil _ _) h rest

/-- Adding an object makes the objects that are missing above it. -/
theorem headAt?_insert_above (h : root.insert cleanup dotted added = .ok merged)
    (hpath : path ≠ []) (habove : path <+: splitString '.' dotted)
    (hne : path ≠ splitString '.' dotted) :
    merged.headAt? path = some ((root.headAt? path).getD (unknown cleanup).head) := by
  obtain ⟨rest, hrest⟩ := habove
  have hne' : rest ≠ [] := by
    rintro rfl
    exact hne (by rw [← hrest, List.append_nil])
  rw [insert_eq, ← hrest] at h
  exact headAt?_insertAt_above rfl hpath hne' h

/-- Adding an object changes nothing elsewhere. -/
theorem headAt?_insert_aside (h : root.insert cleanup dotted added = .ok merged)
    (hbelow : ¬ splitString '.' dotted <+: path) (habove : ¬ path <+: splitString '.' dotted) :
    merged.headAt? path = root.headAt? path :=
  headAt?_insertAt_aside h rfl hbelow habove

end LuaDocs.Object
