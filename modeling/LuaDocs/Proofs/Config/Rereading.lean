import LuaDocs.Proofs.Config.Roots

/-!
# Reading a configuration twice

While a configuration is read, the keys of the tables that describe roots are taken out of them, and
a table that has been read is empty. Nothing else is changed. A table without keys is no description
of a root, so what is left of a configuration can be read again exactly if no root was described by
a table; then it has not changed at all, and reading it gives the same configuration.
-/

namespace LuaDocs.Config

section

variable [FileSystem] {docs : Path} {vs vs' : Values} {o : Outcome} {d : RootDefaults}
  {name key : String} {value left : Value} {root : ApiRoot} {e : Error}

/-! ### What is left of roots -/

/-- The root is described by a table. -/
def isDescribed : Value → Bool
  | .table _ => true
  | _ => false

/-- The roots that are described by tables. -/
def describedRoots : Value → List String
  | .table rows => (rows.filter fun row => isDescribed row.2).map Prod.fst
  | _ => []

/-- What is left of the value of a root. -/
def spent (value : Value) : Value := if isDescribed value then .table [] else value

/-- What is left of the roots. -/
def spentRoots : Value → Value
  | .table rows => .table (rows.map fun row => (row.1, spent row.2))
  | v => v

/-- The problem with a root that has no path. -/
def noPath (name key : String) : Error :=
  .type (entryName name key ++ "[" ++ Text.quoted "path" ++ "]") [.str, .path] Value.none.typeName

theorem apiRoot_nil (d : RootDefaults) (name key : String) :
    apiRoot d name key [] = .error (noPath name key) := rfl

theorem rootEntry_left (h : rootEntry d name key value = .ok (root, left)) :
    left = spent value := by
  unfold rootEntry at h
  split at h
  · obtain ⟨p, -, h⟩ := Except.ok_of_bind h
    obtain ⟨r, -, h⟩ := Except.ok_of_bind h
    exact (Prod.mk.inj (Except.ok.inj h)).2.symm
  · obtain ⟨r, -, h⟩ := Except.ok_of_bind h
    exact (Prod.mk.inj (Except.ok.inj h)).2.symm
  · cases h

/-- A table that describes a root has keys. -/
theorem spent_eq_self_iff (h : rootEntry d name key value = .ok (root, left)) :
    spent value = value ↔ isDescribed value = false := by
  unfold spent
  cases hd : isDescribed value with
  | false => simp
  | true =>
    refine ⟨fun hvalue => ?_, fun hfalse => absurd hfalse (by simp)⟩
    rw [if_pos rfl] at hvalue
    rw [← hvalue] at h
    unfold rootEntry at h
    dsimp only at h
    rw [apiRoot_nil] at h
    cases h

/-- What is left of a root that was described by a table has no path. -/
theorem rootEntry_spent (h : rootEntry d name key value = .ok (root, left)) :
    rootEntry d name key (spent value) =
      if isDescribed value then .error (noPath name key) else .ok (root, left) := by
  unfold spent
  split
  · rfl
  · exact h

/-- Reads the root of a row. -/
def readRow (d : RootDefaults) (name : String) (row : String × Value) :
    Except Error (String × ApiRoot × Value) := do
  return (row.1, ← rootEntry d name row.1 row.2)

/-- What is left of the root of a row. -/
def spentRow (row : String × Value) : String × Value := (row.1, spent row.2)

theorem exists_of_readRow {row : String × Value} {r : String × ApiRoot × Value}
    (h : readRow d name row = .ok r) :
    r.1 = row.1 ∧ rootEntry d name row.1 row.2 = .ok (r.2.1, r.2.2) := by
  obtain ⟨r', hr, h⟩ := Except.ok_of_bind h
  obtain rfl := Except.ok.inj h
  exact ⟨rfl, hr⟩

variable {rows : List (String × Value)} {results : List (String × ApiRoot × Value)}

/-- Rows are left with what is left of their roots. -/
theorem map_left_of_mapM (h : rows.mapM (readRow d name) = .ok results) :
    (results.map fun r => (r.1, r.2.2)) = rows.map spentRow := by
  refine Except.map_eq_of_mapM (fun row r hr => ?_) h
  obtain ⟨hkey, hentry⟩ := exists_of_readRow hr
  rw [spentRow, hkey, rootEntry_left hentry]

theorem map_spentRow_eq_self_iff (h : rows.mapM (readRow d name) = .ok results) :
    rows.map spentRow = rows ↔ describedRoots (.table rows) = [] := by
  have hself : rows.map spentRow = rows ↔ ∀ row ∈ rows, spentRow row = row := by
    simpa using List.map_inj_left (f := spentRow) (g := id) (l := rows)
  rw [hself, describedRoots, List.map_eq_nil_iff, List.filter_eq_nil_iff]
  refine forall₂_congr fun row hrow => ?_
  obtain ⟨r, hr⟩ := Except.exists_of_mapM h hrow
  rw [Bool.not_eq_true, ← spent_eq_self_iff (exists_of_readRow hr).2, spentRow]
  exact ⟨fun heq => congrArg Prod.snd heq, fun heq => Prod.ext rfl heq⟩

theorem readRow_spentRow {row : String × Value} {r : String × ApiRoot × Value}
    (h : readRow d name row = .ok r) :
    readRow d name (spentRow row) =
      if isDescribed row.2 then .error (noPath name row.1) else .ok r := by
  have hentry := rootEntry_spent (exists_of_readRow h).2
  split
  · next hd =>
    rw [if_pos hd] at hentry
    rw [readRow, spentRow, hentry]
    rfl
  · next hd => rw [spentRow, spent, if_neg hd, h]

/-- Rows are read again up to the first root that was described by a table. -/
theorem mapM_spentRow (h : rows.mapM (readRow d name) = .ok results) :
    (rows.map spentRow).mapM (readRow d name) =
      (describedRoots (.table rows)).head?.elim (.ok results) fun key =>
        .error (noPath name key) := by
  induction rows generalizing results with
  | nil => exact h
  | cons row rows ih =>
    rw [List.mapM_cons] at h
    obtain ⟨r, hr, h⟩ := Except.ok_of_bind h
    obtain ⟨others, hothers, h⟩ := Except.ok_of_bind h
    obtain rfl := Except.ok.inj h
    rw [List.map_cons, List.mapM_cons, readRow_spentRow hr, ih hothers, describedRoots,
      describedRoots, List.filter_cons]
    cases isDescribed row.2 with
    | true => rfl
    | false =>
      rw [if_neg Bool.false_ne_true, if_neg Bool.false_ne_true]
      cases (rows.filter fun row => isDescribed row.2).map Prod.fst <;> rfl

theorem apiRoots_left {r : Table ApiRoot × Value} (h : apiRoots d name value = .ok r) :
    r.2 = spentRoots value := by
  unfold apiRoots at h
  split at h
  · rw [← Except.ok.inj h]
    rfl
  · next rows =>
    obtain ⟨results, hread, h⟩ := Except.ok_of_bind h
    rw [← Except.ok.inj h, spentRoots]
    exact congrArg Value.table (map_left_of_mapM hread)
  · cases h

/-- Nothing is taken out of the roots exactly if none of them is described by a table. -/
theorem spentRoots_eq_self_iff {r : Table ApiRoot × Value} (h : apiRoots d name value = .ok r) :
    spentRoots value = value ↔ describedRoots value = [] := by
  unfold apiRoots at h
  split at h
  · exact iff_of_true rfl rfl
  · next rows =>
    obtain ⟨results, hread, -⟩ := Except.ok_of_bind h
    rw [← map_spentRow_eq_self_iff hread, spentRoots, Value.table.injEq]
    rfl
  · cases h

/-- Of roots that are described by tables, the first one cannot be read again. -/
theorem apiRoots_spentRoots {r : Table ApiRoot × Value} {rest : List String}
    (h : apiRoots d name value = .ok r) (hd : describedRoots value = key :: rest) :
    apiRoots d name (spentRoots value) = .error (noPath name key) := by
  unfold apiRoots at h
  split at h
  · cases hd
  · next rows =>
    obtain ⟨results, hread, -⟩ := Except.ok_of_bind h
    have hagain := mapM_spentRow hread
    rw [hd] at hagain
    unfold apiRoots
    rw [spentRoots]
    dsimp only
    exact congrArg (· >>= _) hagain
  · cases h

/-! ### What is left of the values -/

/-- The values with what is left of the roots. -/
def Values.spent (vs : Values) : Values :=
  if vs.has rootsName then vs.set rootsName (spentRoots (vs.value rootsName)) else vs

/-- Reading leaves all values but the roots. -/
theorem values_of_read (h : read docs vs = .ok o) :
    o.values = vs.spent ∧ ∃ d r, apiRoots d rootsName (vs.value rootsName) = .ok r := by
  obtain ⟨d, -, -, r, -, -, -, hr, -, hvalues⟩ := exists_roots_of_read h
  refine ⟨?_, d, r, hr⟩
  rw [hvalues, Values.spent, ← apiRoots_left hr]

/-- Where values differ in the roots only, and one can be read, a problem with the roots of the
other is the first that is found. -/
theorem read_error (h : read docs vs = .ok o)
    (hsame : ∀ name, name ≠ rootsName → vs'.value name = vs.value name)
    (hroots : ∀ d r, apiRoots d rootsName (vs.value rootsName) = .ok r →
      apiRoots d rootsName (vs'.value rootsName) = .error e) : read docs vs' = .error e := by
  have hoptional : ∀ {α : Type} name (check : String → Value → Except Error α),
      name ≠ rootsName → optional vs' name check = optional vs name check := by
    intro α name check hname
    rw [optional, optional, hsame name hname]
  have hversion : luaVersion? vs' = luaVersion? vs := by
    rw [luaVersion?, luaVersion?, hsame _ (by decide)]
  unfold read at h ⊢
  simp (disch := decide) only [hoptional, hsame, hversion]
  iterate 15 refine Except.error_of_bind h fun _ h => ?_
  obtain ⟨r, hr, -⟩ := Except.ok_of_bind h
  exact congrArg (· >>= _) (hroots _ r hr)

omit [FileSystem] in
theorem get?_spent (hname : name ≠ rootsName) : vs.spent.get? name = vs.get? name := by
  unfold Values.spent
  split
  · rw [Table.get?_set, if_neg hname.symm]
  · rfl

omit [FileSystem] in
theorem value_spent (vs : Values) : vs.spent.value rootsName = spentRoots (vs.value rootsName) := by
  unfold Values.spent
  split
  · rw [Values.value, Table.get?_set_self]
    rfl
  · next hnone =>
    rw [Table.has, Bool.not_eq_true, Option.isSome_eq_false_iff, Option.isNone_iff_eq_none] at hnone
    rw [Values.value, hnone]
    rfl

omit [FileSystem] in
/-- The values change exactly if the roots do. -/
theorem spent_eq_iff :
    vs.spent = vs ↔ spentRoots (vs.value rootsName) = vs.value rootsName := by
  constructor
  · intro h
    rw [← value_spent, h]
  · intro h
    unfold Values.spent
    split
    · next hsome =>
      obtain ⟨roots, hroots⟩ := Option.isSome_iff_exists.1 hsome
      rw [h, Values.value, hroots]
      exact Table.set_of_get?_eq_some hroots
    · rfl

/-- **What is left of a configuration that was read can be read again exactly if no root was
described by a table.** All values but the roots are left as they were. Of a root that was described
by a table nothing is left, so that the second reading stops at the first such root, which has no
path. -/
theorem reread_iff (h : read docs vs = .ok o) :
    (∀ name, name ≠ rootsName → o.values.get? name = vs.get? name) ∧
    o.values.value rootsName = spentRoots (vs.value rootsName) ∧
    (o.values = vs ↔ describedRoots (vs.value rootsName) = []) ∧
    (∀ o', read docs o.values = .ok o' ↔
      describedRoots (vs.value rootsName) = [] ∧ o' = o) ∧
    ∀ key rest, describedRoots (vs.value rootsName) = key :: rest →
      read docs o.values = .error (noPath rootsName key) := by
  obtain ⟨hvalues, d, r, hroots⟩ := values_of_read h
  have hself : o.values = vs ↔ describedRoots (vs.value rootsName) = [] := by
    rw [hvalues, spent_eq_iff, spentRoots_eq_self_iff hroots]
  have herror : ∀ key rest, describedRoots (vs.value rootsName) = key :: rest →
      read docs o.values = .error (noPath rootsName key) := by
    intro key rest hkey
    refine read_error h (fun name hname => ?_) fun d r hr => ?_
    · rw [hvalues, Values.value, Values.value, get?_spent hname]
    · rw [hvalues, value_spent]
      exact apiRoots_spentRoots hr hkey
  refine ⟨fun name hname => ?_, ?_, hself, fun o' => ?_, herror⟩
  · rw [hvalues, get?_spent hname]
  · rw [hvalues, value_spent]
  · constructor
    · intro h'
      cases hd : describedRoots (vs.value rootsName) with
      | nil =>
        rw [hself.2 hd, h] at h'
        exact ⟨rfl, (Except.ok.inj h').symm⟩
      | cons key rest =>
        rw [herror key rest hd] at h'
        cases h'
    · rintro ⟨hd, rfl⟩
      rw [hself.2 hd, h]

end

attribute [local instance] FileSystem.linkless

/-- A root that is given by its path can be read again, and one that is described by a table, even
by its path only, cannot. -/
theorem reread_path_and_table :
    (∃ o, read (.ofString "/conf") (valuesOf [("a", .str "x")]) = .ok o ∧
      read (.ofString "/conf") o.values = .ok o) ∧
    ∃ o, read (.ofString "/conf")
        (valuesOf [("a", .str "x"), ("b", .table [("path", .str "y")])]) = .ok o ∧
      o.values ≠ valuesOf [("a", .str "x"), ("b", .table [("path", .str "y")])] ∧
      read (.ofString "/conf") o.values = .error (noPath rootsName "b") := by
  constructor
  · obtain ⟨o, ho⟩ := Except.exists_of_isOk (x := read (.ofString "/conf")
      (valuesOf [("a", .str "x")])) (by decide +kernel)
    exact ⟨o, ho, ((reread_iff ho).2.2.2.1 o).2 ⟨rfl, rfl⟩⟩
  · obtain ⟨o, ho⟩ := Except.exists_of_isOk (x := read (.ofString "/conf")
      (valuesOf [("a", .str "x"), ("b", .table [("path", .str "y")])])) (by decide +kernel)
    obtain ⟨-, -, hself, -, herror⟩ := reread_iff ho
    refine ⟨o, ho, fun hsame => ?_, herror "b" [] rfl⟩
    cases hself.1 hsame

end LuaDocs.Config
