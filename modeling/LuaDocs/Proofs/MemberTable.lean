import LuaDocs.MemberTable
import LuaDocs.Proofs.Except
import LuaDocs.Proofs.Index.Lookup
import LuaDocs.Proofs.List

/-!
# What the tables of members show

The tables below a name show the globals and the members that are listed there and described, each
once for every time that it is listed. There is one table for each category, and its rows are in
order. A row holds a reference, which cannot be made to an object of a type that no directive has:
then there are no tables at all.
-/

namespace LuaDocs.MemberTable

open Index Text

variable {t : Index} {parens : Bool} {document target : String} {rs : List (String × Row)}

/-! ### Categories -/

theorem mem_categories {c : String} : c ∈ categories rs ↔ c ∈ rs.map Prod.fst := by
  unfold categories
  by_cases hfixed : c ∈ fixedCategories <;> simp [hfixed]

theorem nodup_categories (rs : List (String × Row)) : (categories rs).Nodup := by
  unfold categories
  refine List.nodup_append.2 ⟨.filter _ (by decide +kernel), ?_, ?_⟩
  · exact (List.mergeSort_perm _ _).nodup_iff.2 (List.nodup_eraseDups _)
  · intro a ha b hb
    rintro rfl
    simp only [List.mem_mergeSort, List.mem_eraseDups, List.mem_filter] at ha hb
    simp [ha.1] at hb

/-! ### What is listed -/

/-- The globals that are listed with `target`. -/
def globalEntries (t : Index) (target : String) : List Entry :=
  (t.globals.get? target).elim [] GlobalRow.entries

/-- The members that are listed below `target`. -/
def memberEntries (t : Index) (target : String) : List Entry :=
  (t.members.get? target).elim [] MemberRow.entries

/-- The full names of the entries that are described. -/
def described (t : Index) (es : List Entry) : List String :=
  (es.map Entry.fullname).filter t.objects.has

/-- The full names of the entries that are described and of the category `c`. -/
def describedAs (t : Index) (category : ObjType → String) (c : String) (es : List Entry) :
    List String :=
  (es.map Entry.fullname).filter fun name =>
    (t.objects.get? name).any fun o => category o.objtype == c

/-- The row of an entry that is described, with its category. -/
def entryRow (category : ObjType → String) (shown : String → String) (t : Index) (e : Entry) :
    Option (String × Row) :=
  (row? t (shown e.fullname) e.fullname).map fun r => (category r.1, r.2)

theorem globalRows_eq : globalRows t target =
    (globalEntries t target).filterMap (entryRow (fun _ => globalCategory) id t) := by
  unfold globalRows globalEntries
  cases t.globals.get? target <;> rfl

theorem memberRows_eq : memberRows t target = (memberEntries t target).filterMap
    (entryRow category (fun s => String.ofList (s.toList.drop (target.length + 1))) t) := by
  unfold memberRows memberEntries
  cases t.members.get? target <;> rfl

variable (category : ObjType → String) (shown : String → String) (es : List Entry)

theorem map_fullname_entryRows :
    (es.filterMap (entryRow category shown t)).map (fun r => r.2.fullname) = described t es := by
  induction es with
  | nil => rfl
  | cons e es ih =>
    unfold described at ih ⊢
    cases h : t.objects.get? e.fullname <;> simp [entryRow, row?, Table.has, h, ih]

theorem map_fullname_filter_entryRows (c : String) :
    ((es.filterMap (entryRow category shown t)).filter fun r => r.1 == c).map
      (fun r => r.2.fullname) = describedAs t category c es := by
  induction es with
  | nil => rfl
  | cons e es ih =>
    unfold describedAs at ih ⊢
    cases h : t.objects.get? e.fullname with
    | none => simp [entryRow, row?, h, ih]
    | some o => by_cases hc : category o.objtype = c <;> simp [entryRow, row?, h, hc, ih]

theorem map_fullname_rows (t : Index) (target : String) :
    (rows t target).map (fun r => r.2.fullname) =
      described t (globalEntries t target) ++ described t (memberEntries t target) := by
  rw [rows, List.map_append, globalRows_eq, memberRows_eq, map_fullname_entryRows,
    map_fullname_entryRows]

theorem map_fullname_filter_rows (t : Index) (target c : String) :
    ((rows t target).filter fun r => r.1 == c).map (fun r => r.2.fullname) =
      describedAs t (fun _ => globalCategory) c (globalEntries t target) ++
        describedAs t MemberTable.category c (memberEntries t target) := by
  rw [rows, List.filter_append, List.map_append, globalRows_eq, memberRows_eq,
    map_fullname_filter_entryRows, map_fullname_filter_entryRows]

/-! ### Tables -/

/-- The tables show what is listed below `target`: one for each category, which has the entries of
that category, in order. -/
structure Tabulates (t : Index) (target : String) (tables : List (String × List Row)) : Prop where
  distinct : (tables.map Prod.fst).Nodup
  all : ((tables.flatMap Prod.snd).map Row.fullname).Perm
    (described t (globalEntries t target) ++ described t (memberEntries t target))
  placed : ∀ g ∈ tables, (g.2.map Row.fullname).Perm
    (describedAs t (fun _ => globalCategory) g.1 (globalEntries t target) ++
      describedAs t MemberTable.category g.1 (memberEntries t target))
  sorted : ∀ g ∈ tables, g.2.Pairwise fun a b => caseFold a.name ≤ caseFold b.name

/-- The categories with their rows, in order. -/
def tables (t : Index) (target : String) : List (String × List Row) :=
  (categories (rows t target)).map fun c => (c, rowsOf (rows t target) c)

theorem rowsOf_perm (rs : List (String × Row)) (c : String) :
    (rowsOf rs c).Perm ((rs.filter fun r => r.1 == c).map Prod.snd) :=
  List.mergeSort_perm _ _

theorem flatMap_tables_perm (t : Index) (target : String) :
    ((tables t target).flatMap Prod.snd).Perm ((rows t target).map Prod.snd) := by
  have hgroups : ((categories (rows t target)).flatMap fun c =>
      (rows t target).filter fun r => r.1 == c).Perm (rows t target) :=
    List.flatMap_filter_perm (nodup_categories _) fun r hr =>
      mem_categories.2 (List.mem_map_of_mem hr)
  rw [tables, List.flatMap_map]
  refine .trans (List.Perm.flatMap_left _ fun c _ => rowsOf_perm _ c) ?_
  rw [← List.map_flatMap]
  exact hgroups.map _

/-- **The tables show what is listed.** -/
theorem tabulates_tables (t : Index) (target : String) : Tabulates t target (tables t target) where
  distinct := by
    rw [tables, List.map_map]
    exact (List.map_id _).symm ▸ nodup_categories _
  all := by
    have h := (flatMap_tables_perm t target).map Row.fullname
    rw [List.map_map] at h
    exact h.trans (.of_eq (map_fullname_rows t target))
  placed := by
    rintro g hg
    obtain ⟨c, -, rfl⟩ := List.mem_map.1 hg
    have h := (rowsOf_perm (rows t target) c).map Row.fullname
    rw [List.map_map] at h
    exact h.trans (.of_eq (map_fullname_filter_rows t target c))
  sorted := by
    rintro g hg
    obtain ⟨c, -, rfl⟩ := List.mem_map.1 hg
    refine (List.pairwise_mergeSort ?_ ?_ _).imp of_decide_eq_true
    · intro a b c hab hbc
      exact decide_eq_true (String.le_trans (of_decide_eq_true hab) (of_decide_eq_true hbc))
    · intro a b
      simpa using String.le_total (caseFold a.name) (caseFold b.name)

/-! ### Nodes -/

/-- A reference to what the name means can be made: it is not described, or its type has roles. -/
def Referable (t : Index) (name : String) : Prop :=
  ∀ key row, t.find? .empty (some "obj") name = .ok (some (key, row)) →
    row.objtype.roles?.isSome = true

theorem exists_refer_iff {fullname name : String} :
    (∃ node, refer t parens document fullname name = .ok node) ↔ Referable t fullname := by
  obtain ⟨found, hfind⟩ : ∃ found, t.find? .empty (some "obj") fullname = .ok found :=
    (exists_find?_iff t (by decide)).2 fun hall => by cases hall
  unfold Referable refer Reference.resolve
  rw [hfind]
  cases found with
  | none => simp [Except.mapError, bind, Except.bind, pure, Except.pure]
  | some f =>
    obtain ⟨key, row⟩ := f
    cases hroles : row.objtype.roles? with
    | none => simp [Except.mapError, bind, Except.bind, hroles]
    | some roles =>
      simp only [Except.mapError, bind, Except.bind, hroles]
      refine iff_of_true ⟨_, rfl⟩ ?_
      simp [hroles]

/-- The nodes of the table of a category with the given rows. -/
def frame (category : String) (body : List Node) : List Node :=
  [.plain .paragraph [.leaf .strong (title category)],
    .element (.table ["table", "lua-index-table", "colwidths-given"])
      [.element (.tableGroup 2)
        [.element (.column 33) [], .element (.column 66) [], .plain .tableBody body]]]

/-- The nodes are a table with the given rows. -/
def IsTable (t : Index) (parens : Bool) (document : String) (g : String × List Row)
    (nodes : List Node) : Prop :=
  ∃ body, List.Forall₂ (fun r n => rowNode t parens document r = .ok n) g.2 body ∧
    nodes = frame g.1 body

theorem isTable_of_tableNodes {c : String} {nodes : List Node}
    (h : tableNodes t parens document rs c = .ok nodes) :
    IsTable t parens document (c, rowsOf rs c) nodes := by
  obtain ⟨body, hbody, h⟩ := Except.ok_of_bind h
  cases h
  exact ⟨body, Except.forall₂_of_mapM hbody, rfl⟩

theorem exists_tableNodes_iff {c : String} :
    (∃ nodes, tableNodes t parens document rs c = .ok nodes) ↔
      ∀ r ∈ rowsOf rs c, Referable t r.fullname := by
  constructor
  · rintro ⟨nodes, h⟩ r hr
    obtain ⟨body, hbody, -⟩ := Except.ok_of_bind h
    obtain ⟨node, hnode⟩ := Except.exists_of_mapM hbody hr
    obtain ⟨ref, href, -⟩ := Except.ok_of_bind hnode
    exact exists_refer_iff.1 ⟨ref, href⟩
  · intro h
    obtain ⟨body, hbody⟩ := Except.exists_mapM (f := rowNode t parens document) fun r hr => by
      obtain ⟨ref, href⟩ := exists_refer_iff.2 (h r hr)
      exact ⟨_, Except.bind_of_ok href _⟩
    exact ⟨_, Except.bind_of_ok hbody _⟩

/-- The tables can be rendered exactly if a reference to each object in them can be made. -/
theorem exists_render_iff : (∃ nodes, render t parens document target = .ok nodes) ↔
    ∀ g ∈ tables t target, ∀ r ∈ g.2, Referable t r.fullname := by
  rw [tables, List.forall_mem_map]
  constructor
  · rintro ⟨nodes, h⟩ c hc
    obtain ⟨parts, hparts, -⟩ := Except.ok_of_bind h
    exact exists_tableNodes_iff.1 (Except.exists_of_mapM hparts hc)
  · intro h
    obtain ⟨parts, hparts⟩ := Except.exists_mapM fun c hc => exists_tableNodes_iff.2 (h c hc)
    exact ⟨_, Except.bind_of_ok hparts _⟩

/-- **What the tables of members show.** They show the globals and the members that are listed below
a name and described, each as often as it is listed and in the one table of its category, by name
without regard to case; and they can be rendered exactly if a reference to each of these objects can
be made. -/
theorem rendered_exact (t : Index) (target : String) (parens : Bool) (document : String) :
    Tabulates t target (tables t target) ∧
    (∀ nodes, render t parens document target = .ok nodes →
      ∃ parts, List.Forall₂ (IsTable t parens document) (tables t target) parts ∧
        nodes = parts.flatten) ∧
    ((∃ nodes, render t parens document target = .ok nodes) ↔
      ∀ name ∈ described t (globalEntries t target) ++ described t (memberEntries t target),
        Referable t name) := by
  have htables := tabulates_tables t target
  refine ⟨htables, fun nodes h => ?_, ?_⟩
  · obtain ⟨parts, hparts, h⟩ := Except.ok_of_bind h
    cases h
    refine ⟨parts, ?_, rfl⟩
    rw [tables, List.forall₂_map_left_iff]
    exact (Except.forall₂_of_mapM hparts).imp fun _ _ => isTable_of_tableNodes
  · rw [exists_render_iff]
    constructor
    · intro h name hname
      obtain ⟨r, hr, rfl⟩ := List.mem_map.1 (htables.all.mem_iff.2 hname)
      obtain ⟨g, hg, hr⟩ := List.mem_flatMap.1 hr
      exact h g hg r hr
    · intro h g hg r hr
      exact h _ (htables.all.mem_iff.1 (List.mem_map_of_mem (List.mem_flatMap.2 ⟨g, hg, hr⟩)))

/-- A module with one member of the given type. -/
def oneMember (objtype : ObjType) : Index where
  objects := [("m.x", ⟨"d", objtype, false, "lua-m.x", none⟩)]
  globals := []
  members := [("m", ⟨"d", [⟨"d", "m.x"⟩], [], .empty⟩)]

/-- A member of a type that no directive has is listed, but there is no table of it. -/
theorem rendered_widget : described (oneMember (.other "widget")) [⟨"d", "m.x"⟩] = ["m.x"] ∧
    ¬ ∃ nodes, render (oneMember (.other "widget")) true "d" "m" = .ok nodes := by
  have hlisted : described (oneMember (.other "widget")) [⟨"d", "m.x"⟩] = ["m.x"] := by
    decide +kernel
  have hfind : (oneMember (.other "widget")).find? .empty (some "obj") "m.x" =
      .ok (some ("m.x", ⟨"d", .other "widget", false, "lua-m.x", none⟩)) :=
    Except.toOption_eq_some.1 (by decide +kernel)
  refine ⟨hlisted, fun h => ?_⟩
  have hknown := (rendered_exact _ _ _ _).2.2.1 h "m.x" (by decide +kernel) _ _ hfind
  cases hknown

end LuaDocs.MemberTable
