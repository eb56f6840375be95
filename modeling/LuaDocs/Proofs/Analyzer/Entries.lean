import LuaDocs.Project
import LuaDocs.Proofs.Object.Gathering

/-!
# Documents as lists of entries

Reading the document of an analyzer adds objects to the tree. What these objects are does not depend
on the tree: a document is a list of entries, each an object under its name, and reading it adds
the entries one after the other, where a class that has a constructor is added with the constructor
taken out of its members. All else that reading does is to note files and to take over settings.

## Main results

* `EmmyLua.moduleOf_eq`: reading a module adds its entry
* `Project.insertAll_reader`: reading a document adds its entries
-/

namespace LuaDocs

open Text

variable {o : Object} {j : Json} {items : List Json}

namespace Analysis

open Object

/-- An entry as it is added to the tree: a class without the constructor among its members. -/
def extracted (rule : ConstructorRule) (e : String × Object) : String × Object :=
  (e.1, extractConstructor rule e.2)

/-- What is no class has no constructor. -/
theorem extractConstructor_of_ne {rule : ConstructorRule}
    (h : ∀ info, o.form ≠ .class_ info) : extractConstructor rule o = o := by
  unfold extractConstructor
  split
  · next info _ hform _ => exact absurd hform (h info)
  · rfl

/-! ### Adding objects and nothing else -/

/-- The analysis `b` is the analysis `a` after objects were added to its tree; of the settings none
has changed. -/
structure Grown (a : Analysis) (steps : List (String × Object)) (b : Analysis) : Prop where
  tree : insertAll a.cleanup a.root steps = .ok b.root
  cleanup : b.cleanup = a.cleanup
  rule : b.rule = a.rule
  requireFunction : b.requireFunction = a.requireFunction
  requireSeparator : b.requireSeparator = a.requireSeparator

variable {a b c : Analysis} {steps others : List (String × Object)}

theorem Grown.refl (a : Analysis) : Grown a [] a := ⟨rfl, rfl, rfl, rfl, rfl⟩

theorem Grown.trans (h : Grown a steps b) (h' : Grown b others c) :
    Grown a (steps ++ others) c where
  tree := insertAll_append.2 ⟨b.root, h.tree, h.cleanup ▸ h'.tree⟩
  cleanup := h'.cleanup.trans h.cleanup
  rule := h'.rule.trans h.rule
  requireFunction := h'.requireFunction.trans h.requireFunction
  requireSeparator := h'.requireSeparator.trans h.requireSeparator

theorem Grown.of_add {path : String} (h : a.add path o = .ok b) :
    Grown a [(path, o)] b := by
  obtain ⟨root, hroot, rfl⟩ := add_eq_ok_iff.1 h
  exact ⟨insertAll_cons.2 ⟨root, hroot, rfl⟩, rfl, rfl, rfl, rfl⟩

/-- Noting files adds no object. -/
theorem Grown.of_files (a : Analysis) (files : List Path) : Grown a [] { a with files } :=
  ⟨rfl, rfl, rfl, rfl, rfl⟩

theorem noteFile_eq (a : Analysis) (file : Path) :
    a.noteFile file = { a with files := (a.noteFile file).files } := by
  unfold noteFile
  split <;> rfl

theorem foldl_noteFile_eq (a : Analysis) (files : List Path) :
    files.foldl noteFile a = { a with files := (files.foldl noteFile a).files } := by
  induction files generalizing a with
  | nil => rfl
  | cons file files ih =>
    rw [List.foldl_cons]
    refine (ih (a.noteFile file)).trans ?_
    rw [noteFile_eq a file]

/-- **A loop that adds the entry of each item** adds them all. The entries may depend on the
settings, which adding objects does not change. -/
theorem grown_foldlM {start : Analysis} {step : Analysis → Json → Reader Analysis}
    {entry : Json → Reader (Option (String × Object))}
    (hstep : ∀ j steps a b, Grown start steps a → step a j = .ok b →
      ∃ e, entry j = .ok e ∧ Grown a (e.toList.map (extracted start.rule)) b)
    (ha : Grown start steps a) (h : items.foldlM step a = .ok b) :
    ∃ es, items.mapM entry = .ok es ∧
      Grown a ((es.filterMap id).map (extracted start.rule)) b := by
  induction items generalizing steps a with
  | nil =>
    cases h
    exact ⟨[], rfl, .refl _⟩
  | cons j items ih =>
    rw [List.foldlM_cons] at h
    obtain ⟨c, hc, h⟩ := Except.ok_of_bind h
    obtain ⟨e, he, hgrown⟩ := hstep j steps a c ha hc
    obtain ⟨es, hes, hrest⟩ := ih (ha.trans hgrown) h
    refine ⟨e :: es, ?_, ?_⟩
    · rw [List.mapM_cons, he, hes]
      rfl
    · have hcons : (e :: es).filterMap id = e.toList ++ es.filterMap id := by
        cases e <;> rfl
      rw [hcons, List.map_append]
      exact hgrown.trans hrest

end Analysis

/-! ### Documents of EmmyLua -/

namespace EmmyLua

open Analysis Object

variable [FileSystem] {data : Json} {function separator : Option String}

/-- The details of a module with the place of its file, if it has one. -/
def placedModule (project : Path) (data : Json) (d : Details) : Reader Details := do
  match ← look (data.item "file") with
  | .str s =>
    if s.isEmpty then return d else return placeIn project (project.join (.ofString s)).resolve d
  | j => if j.isTrue then throw (.access .type) else return d

/-- The analysis with the file of a module noted. -/
def notingModule (project : Path) (a : Analysis) (data : Json) : Analysis :=
  match data.item "file" with
  | .ok (.str s) => if s.isEmpty then a else a.noteFile (project.join (.ofString s)).resolve
  | _ => a

/-- A module under its name. -/
def moduleEntry (project : Path) (requireFunction requireSeparator : Option String) (data : Json) :
    Reader (String × Object) := do
  let d ← placedModule project data (← common data)
  let o ← members project ⟨d, .bare, []⟩ data
  let used ← look do (← data.item "using").texts
  let type ← look do (← data.item "typ").textOr ""
  let name ← nameOf data
  return (name, { o with details := { o.details with
    usedModules := used
    requireType := some type
    requireFunction
    requireSeparator } })

theorem notingModule_eq (project : Path) (a : Analysis) (data : Json) :
    notingModule project a data =
      { a with files := (notingModule project a data).files } := by
  unfold notingModule
  split
  · split
    · rfl
    · exact noteFile_eq _ _
  · rfl

/-- **Reading a module adds its entry.** -/
theorem moduleOf_eq (project : Path) (a : Analysis) (data : Json) :
    moduleOf project a data =
      (moduleEntry project a.requireFunction a.requireSeparator data >>= fun e =>
        (notingModule project a data).add e.1 e.2) := by
  have hfunction : ∀ file, (a.noteFile file).requireFunction = a.requireFunction := fun file => by
    rw [noteFile_eq]
  have hseparator : ∀ file, (a.noteFile file).requireSeparator = a.requireSeparator :=
    fun file => by rw [noteFile_eq]
  have hok : ∀ {α β : Type} (x : α) (f : α → Reader β), (Except.ok x >>= f) = f x :=
    fun _ _ => rfl
  unfold moduleOf moduleEntry placedModule notingModule
  cases common data with
  | error e => rfl
  | ok d =>
    cases data.item "file" with
    | error e => rfl
    | ok j =>
      simp only [look, Except.mapError, bind_assoc, pure_bind, hok]
      cases j with
      | str s =>
        by_cases hs : s.isEmpty
        · simp [hs]
        · simp [hs, hfunction, hseparator]
      | _ =>
        -- what is no text is taken for no file, or refused
        dsimp only
        generalize Json.isTrue _ = set
        cases set <;> rfl

/-- What a module adds. -/
theorem grown_moduleOf {project : Path} {a b : Analysis} (h : moduleOf project a data = .ok b) :
    ∃ e, moduleEntry project a.requireFunction a.requireSeparator data = .ok e ∧
      Grown a [e] b := by
  rw [moduleOf_eq] at h
  obtain ⟨e, he, h⟩ := Except.ok_of_bind h
  rw [notingModule_eq] at h
  exact ⟨e, he, (Grown.of_files a _).trans (.of_add h)⟩

/-- Adding a member changes nothing of the object itself. -/
theorem head_member {project : Path} {parent : Object}
    (h : member project parent data = .ok o) : o.head = parent.head := by
  unfold member at h
  obtain ⟨kind, -, h⟩ := Except.ok_of_bind h
  split at h
  · obtain ⟨child, -, h⟩ := Except.ok_of_bind h
    obtain ⟨name, -, h⟩ := Except.ok_of_bind h
    exact head_addChild (Except.ok_of_mapError h)
  · obtain ⟨child, -, h⟩ := Except.ok_of_bind h
    obtain ⟨name, -, h⟩ := Except.ok_of_bind h
    exact head_addChild (Except.ok_of_mapError h)
  · cases h
    rfl

theorem head_members {project : Path} {parent : Object}
    (h : members project parent data = .ok o) : o.head = parent.head := by
  obtain ⟨items, -, h⟩ := Except.ok_of_bind h
  exact Except.foldlM_induction (P := fun o => o.head = parent.head) rfl
    (fun _ _ _ _ hhead hmember => (head_member hmember).trans hhead) h

/-- An enumeration or alias under its name. -/
def typedEntry (project : Path) (data : Json) (form : String → List Param → Form) :
    Reader (String × Object) := do
  let type ← look do (← data.item "typ").textOr "unknown"
  let d ← locatedAll project data (← common data)
  let generics ← generics data
  let o ← members project ⟨d, form type generics, []⟩ data
  return (← nameOf data, o)

/-- A type under its name; none for a kind of type that is not known. -/
def typeEntry (project : Path) (data : Json) : Reader (Option (String × Object)) := do
  match ← look (data.item "type") with
  | .str "class" =>
    let d ← locatedAll project data (← common data)
    let bases ← look do (← data.item "bases").texts
    let generics ← generics data
    let o ← members project ⟨d, .class_ ⟨bases, generics, none, none⟩, []⟩ data
    return some (← nameOf data, o)
  | .str "enum" => return some (← typedEntry project data fun type gs => .enum (some type) gs)
  | .str "alias" => return some (← typedEntry project data fun type gs => .alias_ (some type) gs)
  | _ => return none

/-- A global under its name; none for a kind of global that is not known. -/
def globalEntry (project : Path) (data : Json) : Reader (Option (String × Object)) := do
  match ← look (data.item "type") with
  | .str "table" =>
    let d ← located project data (← common data)
    let o ← members project ⟨d, .table, []⟩ data
    return some (← nameOf data, o)
  | .str "field" =>
    let o ← variableOf project data
    return some (← nameOf data, o)
  | _ => return none

theorem variable_ne_class {project : Path}
    (h : variableOf project data = .ok o) (info : ClassInfo) : o.form ≠ .class_ info := by
  unfold variableOf at h
  iterate 4 obtain ⟨_, -, h⟩ := Except.ok_of_bind h
  cases h
  exact nofun

omit [FileSystem] in
/-- What is no class is added as it is. -/
theorem grown_entry {a b : Analysis} {name : String} (h : a.add name o = .ok b)
    (hform : ∀ info, o.form ≠ .class_ info) :
    Grown a ((some (name, o)).toList.map (extracted a.rule)) b := by
  have heq : extracted a.rule (name, o) = (name, o) :=
    Prod.ext rfl (extractConstructor_of_ne hform)
  rw [Option.toList_some, List.map_singleton, heq]
  exact .of_add h

theorem grown_typed {project : Path} {a b : Analysis}
    {form : String → List Param → Form} (hform : ∀ type gs info, form type gs ≠ .class_ info)
    (h : (do
      let type ← look do (← data.item "typ").textOr "unknown"
      let d ← locatedAll project data (← common data)
      let gs ← generics data
      let o ← members project ⟨d, form type gs, []⟩ data
      a.add (← nameOf data) o) = .ok b) :
    ∃ e, typedEntry project data form = .ok e ∧
      Grown a ((some e).toList.map (extracted a.rule)) b := by
  obtain ⟨type, htype, h⟩ := Except.ok_of_bind h
  obtain ⟨c, hc, h⟩ := Except.ok_of_bind h
  obtain ⟨d, hd, h⟩ := Except.ok_of_bind h
  obtain ⟨gs, hgs, h⟩ := Except.ok_of_bind h
  obtain ⟨o, ho, h⟩ := Except.ok_of_bind h
  obtain ⟨name, hname, h⟩ := Except.ok_of_bind h
  have hkept : o.form = form type gs := congrArg Head.form (head_members ho)
  refine ⟨(name, o), ?_, grown_entry h fun info => hkept ▸ hform type gs info⟩
  unfold typedEntry
  rw [Except.bind_of_ok htype, Except.bind_of_ok hc, Except.bind_of_ok hd, Except.bind_of_ok hgs,
    Except.bind_of_ok ho, Except.bind_of_ok hname]
  rfl

theorem grown_typeOf {project : Path} {a b : Analysis} (h : typeOf project a data = .ok b) :
    ∃ e, typeEntry project data = .ok e ∧ Grown a (e.toList.map (extracted a.rule)) b := by
  unfold typeOf at h
  unfold typeEntry
  obtain ⟨kind, hkind, h⟩ := Except.ok_of_bind h
  rw [Except.bind_of_ok hkind]
  split at h
  · obtain ⟨c, hc, h⟩ := Except.ok_of_bind h
    obtain ⟨d, hd, h⟩ := Except.ok_of_bind h
    obtain ⟨bases, hbases, h⟩ := Except.ok_of_bind h
    obtain ⟨gs, hgs, h⟩ := Except.ok_of_bind h
    obtain ⟨o, ho, h⟩ := Except.ok_of_bind h
    obtain ⟨name, hname, h⟩ := Except.ok_of_bind h
    refine ⟨some (name, o), ?_, .of_add h⟩
    simp only [Except.bind_of_ok hc, Except.bind_of_ok hd, Except.bind_of_ok hbases,
      Except.bind_of_ok hgs, Except.bind_of_ok ho, Except.bind_of_ok hname]
    rfl
  · obtain ⟨e, he, hgrown⟩ := grown_typed (fun _ _ _ => Form.noConfusion) h
    exact ⟨some e, by simp only [Except.bind_of_ok he]; rfl, hgrown⟩
  · obtain ⟨e, he, hgrown⟩ := grown_typed (fun _ _ _ => Form.noConfusion) h
    exact ⟨some e, by simp only [Except.bind_of_ok he]; rfl, hgrown⟩
  · cases h
    exact ⟨none, by simp [pure, Except.pure], .refl _⟩

theorem grown_globalOf {project : Path} {a b : Analysis} (h : globalOf project a data = .ok b) :
    ∃ e, globalEntry project data = .ok e ∧ Grown a (e.toList.map (extracted a.rule)) b := by
  unfold globalOf at h
  unfold globalEntry
  obtain ⟨kind, hkind, h⟩ := Except.ok_of_bind h
  rw [Except.bind_of_ok hkind]
  split at h
  · obtain ⟨c, hc, h⟩ := Except.ok_of_bind h
    obtain ⟨d, hd, h⟩ := Except.ok_of_bind h
    obtain ⟨o, ho, h⟩ := Except.ok_of_bind h
    obtain ⟨name, hname, h⟩ := Except.ok_of_bind h
    have hform : o.form = .table := congrArg Head.form (head_members ho)
    refine ⟨some (name, o), ?_, grown_entry h fun info => hform ▸ nofun⟩
    simp only [Except.bind_of_ok hc, Except.bind_of_ok hd, Except.bind_of_ok ho,
      Except.bind_of_ok hname]
    rfl
  · obtain ⟨o, ho, h⟩ := Except.ok_of_bind h
    obtain ⟨name, hname, h⟩ := Except.ok_of_bind h
    refine ⟨some (name, o), ?_, grown_entry h (variable_ne_class ho)⟩
    simp only [Except.bind_of_ok ho, Except.bind_of_ok hname]
    rfl
  · cases h
    exact ⟨none, by simp [pure, Except.pure], .refl _⟩

/-- What the entry of a module is made of. -/
theorem ok_of_moduleEntry {project : Path} {e : String × Object}
    (h : moduleEntry project function separator data = .ok e) :
    ∃ c d o used type, common data = .ok c ∧ placedModule project data c = .ok d ∧
      members project ⟨d, .bare, []⟩ data = .ok o ∧ nameOf data = .ok e.1 ∧
      e.2 = { o with details := { o.details with
        usedModules := used
        requireType := some type
        requireFunction := function
        requireSeparator := separator } } := by
  unfold moduleEntry at h
  obtain ⟨c, hc, h⟩ := Except.ok_of_bind h
  obtain ⟨d, hd, h⟩ := Except.ok_of_bind h
  obtain ⟨o, ho, h⟩ := Except.ok_of_bind h
  obtain ⟨used, -, h⟩ := Except.ok_of_bind h
  obtain ⟨type, -, h⟩ := Except.ok_of_bind h
  obtain ⟨name, hname, h⟩ := Except.ok_of_bind h
  cases h
  exact ⟨c, d, o, used, type, hc, hd, ho, hname, rfl⟩

/-- A module has no form of its own. -/
theorem form_moduleEntry {project : Path}
    {e : String × Object} (h : moduleEntry project function separator data = .ok e) :
    e.2.form = .bare := by
  obtain ⟨_, _, o, _, _, -, -, ho, -, he⟩ := ok_of_moduleEntry h
  rw [he]
  exact congrArg Head.form (head_members ho)

theorem extracted_moduleEntry {project : Path}
    {e : String × Object} (h : moduleEntry project function separator data = .ok e)
    (rule : ConstructorRule) : extracted rule e = e :=
  Prod.ext rfl (extractConstructor_of_ne fun _ => form_moduleEntry h ▸ nofun)

omit [FileSystem] in
theorem root_requirements {a b : Analysis} {runtime : Json}
    (h : (do
      let version ← look (runtime.item "version")
      let completion ← look do (← j.item "config").item "completion"
      let requireFunction ← look do (← completion.item "autoRequireFunction").text?
      let requireSeparator ← look do (← completion.item "autoRequireSeparator").text?
      return { a with
        runtimeVersion := runtimeVersion version, requireFunction, requireSeparator } :
          Reader Analysis) = .ok b) :
    b.root = a.root ∧ b.cleanup = a.cleanup := by
  iterate 4 obtain ⟨_, -, h⟩ := Except.ok_of_bind h
  cases h
  exact ⟨rfl, rfl⟩

omit [FileSystem] in
/-- Taking over settings leaves the tree as it is. -/
theorem root_settings {a b : Analysis} (h : settings a j = .ok b) :
    b.root = a.root ∧ b.cleanup = a.cleanup := by
  unfold settings at h
  obtain ⟨runtime, -, h⟩ := Except.ok_of_bind h
  obtain ⟨rule, -, h⟩ := Except.ok_of_bind h
  simp only [pure_bind, Bool.false_eq_true, if_false] at h
  split at h
  · obtain ⟨named, -, h⟩ := Except.ok_of_bind h
    split at h
    · obtain ⟨name, -, h⟩ := Except.ok_of_bind h
      obtain ⟨nonColon, -, h⟩ := Except.ok_of_bind h
      obtain ⟨returnSelf, -, h⟩ := Except.ok_of_bind h
      exact root_requirements
        (a := { a with rule := ⟨name, nonColon.isTrue, returnSelf.isTrue⟩ }) h
    · exact root_requirements h
  · exact root_requirements h

/-- Reading modules adds their entries. -/
theorem grown_modules {project : Path} {a b : Analysis}
    (h : items.foldlM (moduleOf project) a = .ok b) :
    ∃ es, items.mapM (moduleEntry project a.requireFunction a.requireSeparator) = .ok es ∧
      Grown a es b := by
  induction items generalizing a with
  | nil =>
    cases h
    exact ⟨[], rfl, .refl _⟩
  | cons data items ih =>
    rw [List.foldlM_cons] at h
    obtain ⟨c, hc, h⟩ := Except.ok_of_bind h
    obtain ⟨e, he, hgrown⟩ := grown_moduleOf hc
    obtain ⟨es, hes, hrest⟩ := ih h
    rw [hgrown.requireFunction, hgrown.requireSeparator] at hes
    refine ⟨e :: es, ?_, hgrown.trans hrest⟩
    rw [List.mapM_cons, Except.bind_of_ok he, Except.bind_of_ok hes]
    rfl

theorem map_extracted_modules {project : Path} {es : List (String × Object)}
    (h : items.mapM (moduleEntry project function separator) = .ok es) (rule : ConstructorRule) :
    es.map (extracted rule) = es := by
  have hsame : ∀ e ∈ es, extracted rule e = e := by
    intro e he
    obtain ⟨data, -, hdata⟩ := Except.mem_of_mapM h he
    exact extracted_moduleEntry hdata rule
  rw [List.map_congr_left hsame, List.map_id']

/-- The entries of a document: the modules, the types and the globals. -/
def entries (a : Analysis) (project : Path) (j : Json) : Reader (List (String × Object)) := do
  let a ← settings a j
  let modules ← (← look do (← j.item "modules").elements).mapM
    (moduleEntry project.resolve a.requireFunction a.requireSeparator)
  let types ← (← look do (← j.item "types").elements).mapM (typeEntry project.resolve)
  let globals ← (← look do (← j.item "globals").elements).mapM (globalEntry project.resolve)
  return modules ++ types.filterMap id ++ globals.filterMap id

/-- Reading a document adds its entries. -/
theorem insertAll_read {a b : Analysis} {project : Path} (h : read a project j = .ok b) :
    ∃ es, entries a project j = .ok es ∧ b.cleanup = a.cleanup ∧
      insertAll a.cleanup a.root (es.map (extracted b.rule)) = .ok b.root := by
  unfold read at h
  obtain ⟨start, hstart, h⟩ := Except.ok_of_bind h
  obtain ⟨modules, hmodules, h⟩ := Except.ok_of_bind h
  obtain ⟨c, hc, h⟩ := Except.ok_of_bind h
  obtain ⟨types, htypes, h⟩ := Except.ok_of_bind h
  obtain ⟨d, hd, h⟩ := Except.ok_of_bind h
  obtain ⟨globals, hglobals, h⟩ := Except.ok_of_bind h
  obtain ⟨es, hes, hgrown⟩ := grown_modules hc
  obtain ⟨ts, hts, hgrown'⟩ := grown_foldlM
    (fun data steps a b ha hb => ha.rule ▸ grown_typeOf hb) hgrown hd
  obtain ⟨gs, hgs, hgrown''⟩ := grown_foldlM
    (fun data steps a b ha hb => ha.rule ▸ grown_globalOf hb) (hgrown.trans hgrown') h
  have hall := (hgrown.trans hgrown').trans hgrown''
  obtain ⟨hroot, hcleanup⟩ := root_settings hstart
  refine ⟨es ++ ts.filterMap id ++ gs.filterMap id, ?_, hall.cleanup.trans hcleanup, ?_⟩
  · unfold entries
    rw [Except.bind_of_ok hstart, Except.bind_of_ok hmodules, Except.bind_of_ok hes,
      Except.bind_of_ok htypes, Except.bind_of_ok hts, Except.bind_of_ok hglobals,
      Except.bind_of_ok hgs]
    rfl
  · have htree := hall.tree
    rw [hroot, hcleanup] at htree
    rw [hall.rule, List.map_append, List.map_append, map_extracted_modules hes]
    exact htree

end EmmyLua

/-! ### Documents of the Lua language server -/

namespace LuaLs

open Analysis Object

/-- A part of a document is read without regard to what was read before; only files are noted. -/
def Steady {α : Type} (f : Analysis → Reader (Analysis × α)) : Prop :=
  ∃ r : Reader α, ∀ a, ∃ files, f a = r.map fun x => ({ a with files }, x)

/-- A part of a document is read without regard to what was read before, and the files in it are
noted. -/
def Noting {α : Type} (f : Analysis → Reader (Analysis × α)) : Prop :=
  ∃ r : Reader (List Path × α), ∀ a, f a = r.map fun x => (x.1.foldl noteFile a, x.2)

section Noting

variable {α β γ : Type} {f : Analysis → Reader (Analysis × α)}

theorem Noting.steady (hf : Noting f) : Steady f := by
  obtain ⟨r, hr⟩ := hf
  refine ⟨r.map Prod.snd, fun a => ?_⟩
  cases r with
  | error e => exact ⟨a.files, hr a⟩
  | ok x =>
    refine ⟨(x.1.foldl noteFile a).files, (hr a).trans ?_⟩
    exact congrArg (fun b => Except.ok (b, x.2)) (foldl_noteFile_eq a x.1)

theorem noting_ok (x : α) : Noting fun a => .ok (a, x) := ⟨.ok ([], x), fun _ => rfl⟩

theorem noting_error (e : Error) : Noting fun _ => (.error e : Reader (Analysis × α)) :=
  ⟨.error e, fun _ => rfl⟩

theorem noting_after (r : Reader γ) {f : γ → Analysis → Reader (Analysis × α)}
    (hf : ∀ x, Noting (f x)) : Noting fun a => r >>= fun x => f x a := by
  cases r with
  | error e => exact noting_error e
  | ok x => exact hf x

theorem noting_bind {g : Analysis × α → Reader (Analysis × β)} (hf : Noting f)
    (hg : ∀ x, Noting fun a => g (a, x)) : Noting fun a => f a >>= g := by
  obtain ⟨r, hr⟩ := hf
  cases r with
  | error e =>
    refine ⟨.error e, fun a => ?_⟩
    dsimp only
    rw [hr a]
    rfl
  | ok x =>
    obtain ⟨r', hr'⟩ := hg x.2
    refine ⟨r'.map fun y => (x.1 ++ y.1, y.2), fun a => (Except.bind_of_ok (hr a) _).trans ?_⟩
    refine (hr' _).trans ?_
    cases r' with
    | error e => rfl
    | ok y => exact congrArg (fun b => Except.ok (b, y.2)) (List.foldl_append ..).symm

/-- A loop of parts that are read so is read so. -/
theorem noting_foldlM {f : Analysis × α → Json → Reader (Analysis × α)}
    (hf : ∀ x j, Noting fun a => f (a, x) j) (items : List Json) (x : α) :
    Noting fun a => items.foldlM f (a, x) := by
  induction items generalizing x with
  | nil => exact noting_ok x
  | cons j items ih =>
    simp only [List.foldlM_cons]
    exact noting_bind (hf x j) ih

end Noting

variable [FileSystem] (project : Path)

theorem noting_placed (j : Json) (d : Details) : Noting fun a => placed project a j d := by
  unfold placed
  refine noting_after _ fun file => ?_
  cases file with
  | none => exact noting_ok d
  | some s =>
    dsimp only
    split
    · exact noting_ok d
    · exact ⟨.ok ([_], _), fun _ => rfl⟩

theorem noting_common (j : Json) (text : Option String) :
    Noting fun a => common project a j text := by
  unfold common
  refine noting_after _ fun deprecated => noting_after _ fun async => noting_after _ fun v => ?_
  refine noting_bind (noting_placed project j _) fun d => ?_
  exact noting_after _ fun line => noting_ok _

theorem noting_fieldOf (j : Json) : Noting fun a => fieldOf project a j := by
  unfold fieldOf
  refine noting_after _ fun kind => noting_after _ fun value => ?_
  split
  · refine noting_after _ fun type => ?_
    dsimp only
    split
    · refine noting_after _ fun args => noting_after _ fun returns => ?_
      refine noting_after _ fun form => noting_after _ fun text => ?_
      exact noting_bind (noting_common project j text) fun d => noting_ok (Object.mk d form [])
    · refine noting_after _ fun type => noting_after _ fun form => noting_after _ fun text => ?_
      exact noting_bind (noting_common project j text) fun d => noting_ok (Object.mk d form [])
  · exact noting_ok _

theorem noting_definition (j : Json) : Noting fun a => definition project a j := by
  unfold definition
  split
  · refine noting_after _ fun kind => ?_
    split
    · refine noting_after _ fun bases => noting_after _ fun text => ?_
      exact noting_bind (noting_common project _ text) fun d => noting_ok _
    · refine noting_after _ fun type => noting_after _ fun text => ?_
      exact noting_bind (noting_common project _ _) fun d => noting_ok _
    · exact noting_fieldOf project _
  · exact noting_ok _

theorem noting_definitions (j : Json) : Noting fun a => definitions project a j := by
  unfold definitions
  split
  · refine noting_bind (noting_definition project _) fun o => noting_foldlM (fun o j => ?_) _ o
    refine noting_bind (noting_definition project j) fun other => ?_
    exact noting_after _ fun merged => noting_ok merged
  · exact noting_ok _

theorem noting_field (o : Object) (j : Json) : Noting fun a => field project (a, o) j := by
  unfold field
  refine noting_after _ fun named => ?_
  split
  · exact noting_ok o
  · refine noting_after _ fun name => ?_
    split
    · dsimp only
      refine noting_bind (noting_fieldOf project j) fun child => ?_
      dsimp only
      exact noting_after _ fun merged => noting_ok merged
    · exact noting_error _

/-- What is said of a name: its definitions with its fields. -/
def described (project : Path) (a : Analysis) (j : Json) : Reader (Analysis × Object) := do
  let s ← definitions project a (← look (j.entryOr "defines" (.arr [])))
  let fields ← look do (← j.entryOr "fields" (.arr [])).elements
  fields.foldlM (field project) s

theorem noting_described (j : Json) : Noting fun a => described project a j := by
  unfold described
  refine noting_after _ fun defines => noting_bind (noting_definitions project defines) fun o => ?_
  exact noting_after _ fun fields => noting_foldlM (noting_field project) fields o

/-- A name with what is said of it; none for what is no name. -/
def entry (project : Path) (j : Json) : Reader (Option (String × Object)) := do
  match j with
  | .obj _ =>
    let s ← described project (.start .luaLs) j
    let name ← look do (← j.entryOr "name" (.str "")).text
    return some (name, s.2)
  | _ => return none

variable {project}

theorem grown_toplevel {a b : Analysis} (h : toplevel project a j = .ok b) :
    ∃ e, entry project j = .ok e ∧ Grown a (e.toList.map (extracted a.rule)) b := by
  unfold toplevel at h
  unfold entry
  split at h
  · next members =>
    obtain ⟨defines, hdefines, h⟩ := Except.ok_of_bind h
    obtain ⟨start, hstart, h⟩ := Except.ok_of_bind h
    obtain ⟨fields, hfields, h⟩ := Except.ok_of_bind h
    obtain ⟨s, hs, h⟩ := Except.ok_of_bind h
    obtain ⟨name, hname, h⟩ := Except.ok_of_bind h
    have hread : described project a (.obj members) = .ok s := by
      unfold described
      rw [Except.bind_of_ok hdefines, Except.bind_of_ok hstart, Except.bind_of_ok hfields, hs]
    -- what was read here is what is read at the start
    obtain ⟨r, hr⟩ := (noting_described project (.obj members)).steady
    obtain ⟨files, hfiles⟩ := hr a
    obtain ⟨files', hfiles'⟩ := hr (.start .luaLs)
    obtain ⟨o, rfl, rfl⟩ := Except.ok_of_map (hfiles.symm.trans hread)
    refine ⟨some (name, o), ?_, (Grown.of_files a files).trans (.of_add h)⟩
    refine (Except.bind_of_ok hfiles' _).trans ?_
    exact Except.bind_of_ok hname _
  · cases h
    exact ⟨none, by simp [pure, Except.pure], .refl _⟩

/-- The entries of a document; what is no list has none. -/
def entries (project : Path) (j : Json) : Reader (List (String × Object)) := do
  match j with
  | .arr names => return (← names.mapM (entry project.resolve)).filterMap id
  | _ => return []

/-- Reading a document adds its entries. -/
theorem insertAll_read {a b : Analysis} (h : read a project j = .ok b) :
    ∃ es, entries project j = .ok es ∧ b.cleanup = a.cleanup ∧
      insertAll a.cleanup a.root (es.map (extracted b.rule)) = .ok b.root := by
  unfold read at h
  unfold entries
  split at h
  · obtain ⟨es, hes, hgrown⟩ := grown_foldlM
      (fun j steps a b ha hb => ha.rule ▸ grown_toplevel hb) (.refl a) h
    refine ⟨es.filterMap id, ?_, hgrown.cleanup, ?_⟩
    · exact Except.bind_of_ok hes _
    · rw [hgrown.rule]
      exact hgrown.tree
  · cases h
    exact ⟨[], by simp [pure, Except.pure], rfl, rfl⟩

end LuaLs

namespace Project

open Analysis Object

variable [FileSystem]

/-- The entries of the document of an analyzer. -/
def entries : Analyzer → Analysis → Path → Json → Reader (List (String × Object))
  | .luaLs => fun _ => LuaLs.entries
  | .emmyLua => EmmyLua.entries

/-- **Reading a document adds its entries**, one after the other. -/
theorem insertAll_reader {analyzer : Analyzer} {a b : Analysis} {project : Path}
    (h : reader analyzer a project j = .ok b) :
    ∃ es, entries analyzer a project j = .ok es ∧ b.cleanup = a.cleanup ∧
      insertAll a.cleanup a.root (es.map (extracted b.rule)) = .ok b.root := by
  cases analyzer with
  | luaLs => exact LuaLs.insertAll_read h
  | emmyLua => exact EmmyLua.insertAll_read h

end Project

end LuaDocs
