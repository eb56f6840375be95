import LuaDocs.Proofs.Analyzer.Entries

/-!
# Constructors

A class whose members have the function that makes its objects is added to the tree with this
function taken out of its members: it is the constructor of the class. A class may share its path
with a module or with another definition of itself, and then these are merged. The merged object has
the constructor of the definition that leads, and the members of all of them. So the function may be
there twice, as the constructor of the leading class and as a member of a module. It may also be
missing, if the class that has it does not lead.
-/

namespace LuaDocs

open Text

namespace Object

/-! ### The leading head -/

namespace Head

/-- The head `h` comes after `lead` by its form or its line, and belongs to the project. Then it
comes after `lead` whatever the two have absorbed. -/
def Trails (lead h : Head) : Prop :=
  h.details.foreign = false ∧ (h.form.priority < lead.form.priority ∨
    h.form.priority = lead.form.priority ∧
      ∃ m n, lead.details.line = some m ∧ h.details.line = some n ∧ m < n)

/-- The head `z` is `lead` with what it has absorbed. -/
def Led (lead z : Head) : Prop :=
  z.form = lead.form ∧ ∀ m, lead.details.line = some m → z.details.line = some m

variable {lead x y z : Head}

theorem Led.refl (lead : Head) : lead.Led lead := ⟨rfl, fun _ h => h⟩

theorem Trails.absorb (hx : lead.Trails x) (y : Head) : lead.Trails (x.absorb y) := by
  obtain ⟨hforeign, hafter⟩ := hx
  refine ⟨?_, hafter.imp_right ?_⟩
  · simp [Head.absorb, Details.absorb, hforeign]
  · rintro ⟨hform, m, n, hm, hn, hlt⟩
    refine ⟨hform, m, n, hm, ?_, hlt⟩
    simp [Head.absorb, Details.absorb, hn]

/-- What a head leads does not come before it. -/
theorem Trails.precedes (hx : lead.Led x) (hy : lead.Trails y) : x.precedes y = .ok true := by
  obtain ⟨hform, hline⟩ := hx
  obtain ⟨hforeign, hafter⟩ := hy
  unfold Head.precedes
  rw [hforeign, hform]
  cases x.details.foreign with
  | true => rfl
  | false =>
    rcases hafter with hlt | ⟨heq, m, n, hm, hn, hlt⟩
    · have hne : lead.form.priority ≠ y.form.priority := by omega
      simp [hne, hlt]
    · rw [heq, hline m hm, hn]
      simp [lineBefore, hlt]

theorem Led.joins (hx : lead.Led x) (hy : lead.Trails y) (h : x.Joins y z) : lead.Led z := by
  rcases h with ⟨-, rfl⟩ | ⟨hfirst, -⟩
  · obtain ⟨hform, hline⟩ := hx
    refine ⟨hform, fun m hm => ?_⟩
    simp [Head.absorb, Details.absorb, hline m hm]
  · rw [hy.precedes hx] at hfirst
    cases hfirst

theorem Led.joined {ys : List Head} (hx : lead.Led x) (hys : ∀ y ∈ ys, lead.Trails y)
    (h : x.Joined ys z) : lead.Led z := by
  induction ys generalizing x with
  | nil =>
    obtain rfl := h
    exact hx
  | cons y ys ih =>
    obtain ⟨w, hw, h⟩ := h
    rw [List.forall_mem_cons] at hys
    exact ih (hx.joins hys.1 hw) hys.2 h

end Head

/-- **Several heads make an object of the form of the leading one.** -/
theorem form_of_gathered {before after : List Head} {lead z : Head}
    (h : Gathered (before ++ lead :: after) (some z))
    (hbefore : ∀ x ∈ before, lead.Trails x) (hafter : ∀ x ∈ after, lead.Trails x) :
    z.form = lead.form := by
  cases before with
  | nil =>
    obtain ⟨_, hz, h⟩ := h
    cases hz
    exact ((Head.Led.refl lead).joined hafter h).1
  | cons x before =>
    obtain ⟨_, hz, h⟩ := h
    cases hz
    rw [List.forall_mem_cons] at hbefore
    -- what comes before the leading head makes a head that trails it
    obtain ⟨w, hw, v, hv, h⟩ := Head.joined_append.1 h
    have htrails : lead.Trails w :=
      hw.induction hbefore.1 hbefore.2 fun _ other hlead _ _ => hlead.absorb other
    exact (((Head.Led.refl lead).joins htrails hv.symm).joined hafter h).1

/-! ### Constructors -/

/-- The constructor of an object of the form. -/
def Form.maker? : Form → Option Constructor
  | .class_ info => info.maker
  | _ => none

theorem Form.eq_class_of_name {form : Form} (h : form.name = "class") :
    ∃ info, form = .class_ info := by
  cases form <;> simp [Form.name] at h ⊢

theorem Form.eq_function_of_name {form : Form} (h : form.name = "function") :
    ∃ call, form = .function call := by
  cases form <;> simp [Form.name] at h ⊢

/-- The object has the function of the given name exactly once: as its constructor or as a child. -/
def holdsOnce (name : String) (x : Object) : Bool :=
  x.form.maker?.isSome ^^ (x.child? name).isSome

end Object

namespace Analysis

open Object

/-- The constructor of a class that has one. -/
theorem maker_extractConstructor {rule : ConstructorRule} {o : Object} {name : String}
    {info : ClassInfo} {details : Details} {call : Callable} {children : List (String × Object)}
    (hname : given rule.name = some name) (hclass : o.form = .class_ info)
    (hfunction : o.child? name = some ⟨details, .function call, children⟩) :
    (extractConstructor rule o).form.maker? =
      some ⟨details, ConstructorRule.apply rule call⟩ := by
  unfold extractConstructor
  rw [hclass, hname]
  dsimp only
  rw [hfunction]
  rfl

theorem priority_extractConstructor (rule : ConstructorRule) (o : Object) :
    (extractConstructor rule o).form.priority = o.form.priority := by
  unfold extractConstructor
  split
  · next hform _ =>
    split
    · rw [hform]
      rfl
    · rfl
  · rfl

end Analysis

namespace Project

open Analysis Object

section

variable [FileSystem]

/-! ### What documents define -/

/-- An entry of a document, with the rule by which its constructor is recognised. -/
structure Definition where
  rule : ConstructorRule
  name : String
  object : Object

/-- The path of the object. -/
def Definition.path (d : Definition) : List String := splitString '.' d.name

/-- The object as it is added to the tree. -/
def Definition.step (d : Definition) : String × Object := extracted d.rule (d.name, d.object)

/-- Reads documents one after the other, each with the directory of its project. -/
def readAll (analyzer : Analyzer) (a : Analysis) (docs : List (Path × Json)) : Reader Analysis :=
  docs.foldlM (fun a doc => reader analyzer a doc.1 doc.2) a

/-- What the documents define, in the order in which it is read. -/
def definitions (analyzer : Analyzer) (a : Analysis) : List (Path × Json) → Reader (List Definition)
  | [] => return []
  | doc :: docs => do
    let es ← entries analyzer a doc.1 doc.2
    let b ← reader analyzer a doc.1 doc.2
    return es.map (fun e => ⟨b.rule, e.1, e.2⟩) ++ (← definitions analyzer b docs)

/-- **Reading documents adds what they define**, one after the other. -/
theorem insertAll_readAll {analyzer : Analyzer} {a b : Analysis} {docs : List (Path × Json)}
    (h : readAll analyzer a docs = .ok b) :
    ∃ ds, definitions analyzer a docs = .ok ds ∧
      insertAll a.cleanup a.root (ds.map Definition.step) = .ok b.root := by
  induction docs generalizing a with
  | nil =>
    cases h
    exact ⟨[], rfl, rfl⟩
  | cons doc docs ih =>
    rw [readAll, List.foldlM_cons] at h
    obtain ⟨c, hc, h⟩ := Except.ok_of_bind h
    obtain ⟨es, hes, hcleanup, htree⟩ := insertAll_reader hc
    obtain ⟨ds, hds, hrest⟩ := ih h
    refine ⟨es.map (fun e => ⟨c.rule, e.1, e.2⟩) ++ ds, ?_, ?_⟩
    · rw [definitions, Except.bind_of_ok hes, Except.bind_of_ok hc, Except.bind_of_ok hds]
      rfl
    · rw [List.map_append, List.map_map, insertAll_append]
      exact ⟨c.root, htree, hcleanup ▸ hrest⟩

/-! ### When a constructor is there once -/

variable {ds before after : List Definition} {lead : Definition} {path : List String}
  {name : String} {cleanup : Bool} {root x : Object}

omit [FileSystem] in
/-- An object has a child of a name exactly if a definition concerns the path of the child. -/
theorem isSome_child (h : insertAll cleanup (unknown cleanup) (ds.map Definition.step) = .ok root)
    (hx : root.at? path = some x) :
    (x.child? name).isSome = ds.any fun e => touches (path ++ [name]) e.step := by
  have hpath : path ++ [name] ≠ [] := by simp
  have hsome := isSome_insertAll h hpath (headAt?_of_childless rfl hpath)
  rw [headAt?_append, hx, Option.bind_some, headAt?_cons] at hsome
  have hchild : ((x.child? name).bind fun c => c.headAt? []).isSome = (x.child? name).isSome := by
    cases x.child? name <;> rfl
  rw [Bool.eq_iff_iff, ← hchild, hsome]
  simp

omit [FileSystem] in
/-- An object has the form of the definition that leads at its path. -/
theorem form_of_lead {l : Head}
    (h : insertAll cleanup (unknown cleanup) ((before ++ lead :: after).map Definition.step) =
      .ok root) (hpath : path ≠ []) (hx : root.at? path = some x)
    (hlead : brought path lead.step = some l) (htelling : l.form.priority ≠ 0)
    (htrail : ∀ e ∈ before ++ after, ∀ y, brought path e.step = some y → l.Trails y) :
    x.form = l.form := by
  have hgathered := gathered_insertAll h hpath (headAt?_of_childless rfl hpath)
  rw [headAt?, hx, meeting, List.map_append, List.map_cons, List.filterMap_append,
    List.filterMap_cons_some hlead, ← List.append_assoc] at hgathered
  have hmapped : ∀ es : List Definition, (∀ e ∈ es, e ∈ before ++ after) →
      ∀ y ∈ (es.map Definition.step).filterMap (brought path), l.Trails y := by
    intro es hes y hy
    obtain ⟨s, hs, hy⟩ := List.mem_filterMap.1 hy
    obtain ⟨e, he, rfl⟩ := List.mem_map.1 hs
    exact htrail e (hes e he) y hy
  refine form_of_gathered (z := x.head) hgathered (fun y hy => ?_)
    (hmapped after fun e he => List.mem_append_right _ he)
  rcases List.mem_append.1 hy with hy | hy
  · -- a placeholder says nothing of its form
    split at hy
    · obtain rfl := List.mem_singleton.1 hy
      exact ⟨rfl, .inl (Nat.pos_of_ne_zero htelling)⟩
    · cases hy
  · exact hmapped before (fun e he => List.mem_append_left _ he) y hy

omit [FileSystem] in
theorem brought_step (d : Definition) :
    ∃ y, brought d.path d.step = some y ∧ y.form = (extractConstructor d.rule d.object).form := by
  refine ⟨_, brought_self d.step, ?_⟩
  unfold noted
  split <;> rfl

/-- **How often the constructor of a class is there.** Documents are read into an empty tree, and
one of them defines a class that has the function which makes its objects. There is an object at the
path of the class. It has a child of the name of the function exactly if a definition, with its own
constructor taken out, has something there. Its constructor is that of the definition at the path
that leads, if all others come after it. So the function is there exactly once if either the leading
definition has a constructor or some definition has a member of its name, but not both. If the class
itself leads, its function is the constructor, and it is there once if no definition has a member of
its name. -/
theorem holdsOnce_eq {analyzer : Analyzer} {a b : Analysis} {docs : List (Path × Json)}
    (hempty : a.root = .unknown a.cleanup) (hread : readAll analyzer a docs = .ok b) :
    ∃ ds, definitions analyzer a docs = .ok ds ∧
      ∀ d ∈ ds, ∀ name info details call children, given d.rule.name = some name →
        d.object.form = .class_ info →
        d.object.child? name = some ⟨details, .function call, children⟩ →
        ∃ x, b.root.at? d.path = some x ∧
          ((x.child? name).isSome = ds.any fun e => touches (d.path ++ [name]) e.step) ∧
          ∀ before lead after l, ds = before ++ lead :: after →
            brought d.path lead.step = some l →
            (∀ e ∈ before ++ after, ∀ y, brought d.path e.step = some y → l.Trails y) →
            x.form = l.form ∧
            holdsOnce name x = (l.form.maker?.isSome ^^
              ds.any fun e => touches (d.path ++ [name]) e.step) ∧
            (lead = d → x.form.maker? = some ⟨details, ConstructorRule.apply d.rule call⟩ ∧
              holdsOnce name x = !ds.any fun e => touches (d.path ++ [name]) e.step) := by
  obtain ⟨ds, hds, htree⟩ := insertAll_readAll hread
  rw [hempty] at htree
  refine ⟨ds, hds, fun d hd name info details call children hname hclass hfunction => ?_⟩
  have hpath : d.path ≠ [] := splitString_ne_nil _ _
  obtain ⟨y, hy, hform⟩ := brought_step d
  have hsome : (b.root.headAt? d.path).isSome = true := by
    rw [isSome_insertAll htree hpath (headAt?_of_childless rfl hpath)]
    exact ⟨d.step, List.mem_map_of_mem hd, by simp [touches, hy]⟩
  obtain ⟨x, hx⟩ : ∃ x, b.root.at? d.path = some x := by
    rw [headAt?, Option.isSome_map] at hsome
    exact Option.isSome_iff_exists.1 hsome
  have hchild : (x.child? name).isSome = ds.any fun e => touches (d.path ++ [name]) e.step :=
    isSome_child htree hx
  refine ⟨x, hx, hchild, ?_⟩
  rintro before lead after l rfl hlead htrail
  -- the class is among the definitions that meet, so the leading one is at least as telling
  have htwo : y.form.priority = 2 := by
    rw [hform, priority_extractConstructor, hclass]
    rfl
  have htelling : l.form.priority ≠ 0 := by
    have hcases : d ∈ before ++ after ∨ d = lead := by
      rcases List.mem_append.1 hd with hd | hd
      · exact .inl (List.mem_append_left _ hd)
      · exact (List.mem_cons.1 hd).symm.imp_left (List.mem_append_right _)
    rcases hcases with hd | rfl
    · obtain ⟨-, hlt | ⟨heq, -⟩⟩ := htrail d hd y hy <;> omega
    · obtain rfl := Option.some.inj (hy.symm.trans hlead)
      omega
  have hlform := form_of_lead htree hpath hx hlead htelling htrail
  have honce : holdsOnce name x = (l.form.maker?.isSome ^^
      (before ++ lead :: after).any fun e => touches (d.path ++ [name]) e.step) := by
    rw [holdsOnce, hlform, hchild]
  refine ⟨hlform, honce, ?_⟩
  rintro rfl
  obtain rfl := Option.some.inj (hy.symm.trans hlead)
  have hmaker : x.form.maker? = some ⟨details, ConstructorRule.apply lead.rule call⟩ := by
    rw [hlform, hform]
    exact maker_extractConstructor hname hclass hfunction
  refine ⟨hmaker, ?_⟩
  rw [honce, ← hlform, hmaker, Option.isSome_some, Bool.true_xor]

end

/-- The entry of a function of a file of the project. -/
def functionData (name : String) (line : Int) : Json :=
  .obj [("type", .str "fn"), ("name", .str name), ("description", .null), ("visibility", .null),
    ("deprecated", .bool false), ("deprecation_reason", .null),
    ("loc", .obj [("file", .str "a.lua"), ("line", .int line)]), ("params", .arr []),
    ("returns", .arr []), ("overloads", .arr []), ("is_meth", .bool false)]

/-- A document with a class and a module of one name, both of which have a function `new`. -/
def sharedClass : Json :=
  .obj [("config", .obj [("runtime", .obj [("version", .str "Lua5.4")]),
      ("completion", .obj [("autoRequireFunction", .str "require"),
        ("autoRequireSeparator", .str ".")])]),
    ("modules", .arr [.obj [("name", .str "A"), ("file", .str "a.lua"), ("description", .null),
      ("visibility", .null), ("deprecated", .bool false), ("deprecation_reason", .null),
      ("members", .arr [functionData "new" 9]), ("using", .arr []), ("typ", .null)]]),
    ("types", .arr [.obj [("type", .str "class"), ("name", .str "A"), ("description", .null),
      ("visibility", .null), ("deprecated", .bool false), ("deprecation_reason", .null),
      ("loc", .arr [.obj [("file", .str "a.lua"), ("line", .int 1)]]), ("bases", .arr []),
      ("members", .arr [functionData "new" 5])]]),
    ("globals", .arr [])]

/-- The analysis at the start, where functions `new` make objects. -/
def newMakes : Analysis := { Analysis.start .emmyLua with rule := ⟨some "new", false, false⟩ }

attribute [local instance] FileSystem.linkless

/-- The class leads, and its constructor is there a second time as a member of the module. -/
theorem twice_in_sharedClass :
    ∃ b x, readAll .emmyLua newMakes [(⟨"/", ["p"]⟩, sharedClass)] = .ok b ∧
      b.root.at? ["A"] = some x ∧ x.form.maker?.isSome = true ∧ holdsOnce "new" x = false := by
  obtain ⟨b, hb⟩ : ∃ b, readAll .emmyLua newMakes [(⟨"/", ["p"]⟩, sharedClass)] = .ok b :=
    Except.exists_of_isOk (by decide +kernel)
  obtain ⟨ds, hds, hclasses⟩ := holdsOnce_eq rfl hb
  have hsummary : ((definitions .emmyLua newMakes [(⟨"/", ["p"]⟩, sharedClass)]).toOption.map
      fun ds => ds.map fun d => (d.path, given d.rule.name, d.object.form.name,
        (d.object.child? "new").map fun c => c.form.name)) = some
        [(["A"], some "new", "object", some "function"),
          (["A"], some "new", "class", some "function")] := by
    decide +kernel
  have hheads : ((definitions .emmyLua newMakes [(⟨"/", ["p"]⟩, sharedClass)]).toOption.map
      fun ds => ds.map fun d => (touches ["A", "new"] d.step,
        (brought ["A"] d.step).map fun y => (y.details.foreign, y.form.priority))) = some
        [(true, some (false, 0)), (false, some (false, 2))] := by
    decide +kernel
  rw [hds] at hsummary hheads
  obtain ⟨m, _, rfl, hm, hrest⟩ := List.map_eq_cons_iff.1 (Option.some.inj hsummary)
  obtain ⟨c, _, rfl, hc, hnil⟩ := List.map_eq_cons_iff.1 hrest
  obtain rfl := List.map_eq_nil_iff.1 hnil
  simp only [Option.map_some, List.map_cons, List.map_nil, Except.toOption, Option.some.injEq,
    List.cons.injEq, Prod.mk.injEq, and_true] at hm hc hheads
  obtain ⟨hpath, hname, hform, hchild⟩ := hc
  obtain ⟨⟨hmember, hmodule⟩, -, hclass⟩ := hheads
  obtain ⟨info, hinfo⟩ := Form.eq_class_of_name hform
  obtain ⟨⟨details, form, children⟩, hfunction, hkind⟩ := Option.map_eq_some_iff.1 hchild
  obtain ⟨call, rfl⟩ := Form.eq_function_of_name hkind
  obtain ⟨l, hl, hlead⟩ := Option.map_eq_some_iff.1 hclass
  obtain ⟨x, hx, -, hled⟩ :=
    hclasses c (by simp) "new" info details call children hname hinfo hfunction
  rw [hpath] at hx hled
  obtain ⟨-, -, honce⟩ := hled [m] c [] l rfl hl (by
    intro e he y hy
    obtain rfl := List.mem_singleton.1 he
    rw [hy, Option.map_some, Option.some.injEq, Prod.mk.injEq] at hmodule
    exact ⟨hmodule.1, .inl (by rw [hmodule.2, (Prod.mk.inj hlead).2]; decide)⟩)
  obtain ⟨hmaker, honce⟩ := honce rfl
  exact ⟨b, x, hb, hx, by rw [hmaker]; rfl, by simp [honce, hmember]⟩

end Project

end LuaDocs
