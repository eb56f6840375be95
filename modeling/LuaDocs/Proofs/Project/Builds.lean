import LuaDocs.Proofs.Analyzer.Files

/-!
# Builds, one after the other

A build either keeps what is stored, or runs the analyzer and stores a tree with the directories
that were read and the times of the files that were met. The tree is what the documents of the
directories add up to; nothing of what was stored before goes into it. So what is stored after
builds was stored by one of them, and those after it found it of use: the directories are the same,
and so are all files that the analyzer could read then. What they did not compare is the analyzer,
the rule for constructors, and which configuration files there are.

## Main results

* `Project.isStale_eq_false_iff`: when what is stored is of use
* `Project.refresh_cases`: what a build does
* `Project.Held.builds`: what is stored after builds
* `Project.exists_leaves_of_kept`, `Project.tree_of_builds`: a tree that is kept is the one that
  would be built now, if the analyzer, the rule and the configuration files are the same
-/

namespace LuaDocs.Project

open Analysis

/-! ### What documents add up to -/

section Documents

variable [FileSystem] {host other : Host} {analyzer : Analyzer} {a b a' : Analysis} {dir p : Path}
  {dirs configs : List Path} {repository : Option Path} {s : State}

/-- The document of a directory, with the Lua files in it, added to an analysis. -/
def addDirectory (host : Host) (analyzer : Analyzer) (a : Analysis) (dir : Path) :
    Except Error Analysis :=
  ((reader analyzer a dir (host.analyze dir)).mapError .analysis).map fun a =>
    (host.disk.luaFiles dir).foldl Analysis.noteFile a

/-- What the documents of directories add up to. -/
def analysisOf (host : Host) (analyzer : Analyzer) (a : Analysis) (dirs : List Path) :
    Except Error Analysis :=
  dirs.foldlM (addDirectory host analyzer) a

/-- Running the analyzer does not touch what is kept. -/
theorem exists_readDirectory (host : Host) (analyzer : Analyzer) (configs : List Path)
    (repository : Option Path) (a : Analysis) (dir : Path) (s : State) :
    ∃ s₁, (readDirectory host analyzer configs repository a dir).run.run s =
      (addDirectory host analyzer a dir, s₁) ∧ s₁.store = s.store := by
  unfold readDirectory addDirectory
  cases repository with
  | none =>
    cases reader analyzer a dir (host.analyze dir)
    all_goals exact ⟨_, rfl, rfl⟩
  | some root =>
    cases hbelow : dir.isBelow root
    all_goals
      simp only [hbelow, Bool.false_eq_true, if_false, if_true]
      cases reader analyzer a dir (host.analyze dir)
      all_goals exact ⟨_, rfl, rfl⟩

theorem exists_readDirectories (host : Host) (analyzer : Analyzer) (configs : List Path)
    (repository : Option Path) (a : Analysis) (dirs : List Path) (s : State) :
    ∃ s₁, (readDirectories host analyzer configs repository a dirs).run.run s =
      (analysisOf host analyzer a dirs, s₁) ∧ s₁.store = s.store := by
  induction dirs generalizing a s with
  | nil => exact ⟨s, rfl, rfl⟩
  | cons dir dirs ih =>
    obtain ⟨s₁, hrun, hstore⟩ := exists_readDirectory host analyzer configs repository a dir s
    unfold readDirectories analysisOf
    rw [List.foldlM_cons]
    cases hadd : addDirectory host analyzer a dir with
    | error e =>
      rw [hadd] at hrun
      exact ⟨s₁, ExceptT.run_bind_of_error hrun _, hstore⟩
    | ok b =>
      rw [hadd] at hrun
      obtain ⟨s₂, hrest, hkept⟩ := ih b s₁
      exact ⟨s₂, (ExceptT.run_bind_of_ok hrun _).trans hrest, hkept.trans hstore⟩

theorem addDirectory_eq_ok_iff : addDirectory host analyzer a dir = .ok b ↔
    ∃ c, reader analyzer a dir (host.analyze dir) = .ok c ∧
      (host.disk.luaFiles dir).foldl Analysis.noteFile c = b := by
  unfold addDirectory
  constructor
  · intro h
    obtain ⟨c, hc, hb⟩ := Except.ok_of_map h
    exact ⟨c, Except.ok_of_mapError hc, hb⟩
  · rintro ⟨c, hc, rfl⟩
    rw [hc]
    rfl

/-- No file is forgotten, and the Lua files of the directories are among those that are noted. -/
theorem mem_files_of_analysisOf (h : analysisOf host analyzer a dirs = .ok b) :
    (∀ p ∈ a.files, p ∈ b.files) ∧ ∀ dir ∈ dirs, ∀ p ∈ host.disk.luaFiles dir, p ∈ b.files := by
  unfold analysisOf at h
  induction dirs generalizing a with
  | nil =>
    cases h
    exact ⟨fun _ hp => hp, fun dir hdir => absurd hdir List.not_mem_nil⟩
  | cons dir dirs ih =>
    rw [List.foldlM_cons] at h
    obtain ⟨c, hc, hrest⟩ := Except.ok_of_bind h
    obtain ⟨d, hd, rfl⟩ := addDirectory_eq_ok_iff.1 hc
    obtain ⟨hkept, hnoted⟩ := ih hrest
    constructor
    · intro p hp
      have hread : p ∈ d.files := (blind_reader analyzer dir (host.analyze dir)).keeps hd p hp
      exact hkept p (mem_foldl_noteFile.2 (.inl hread))
    · intro dir' hdir p hp
      rcases List.mem_cons.1 hdir with rfl | hdir
      · exact hkept p (mem_foldl_noteFile.2 (.inr hp))
      · exact hnoted dir' hdir p hp

/-- Directories with the same documents and the same Lua files add up to the same. -/
theorem exists_alike_analysisOf (hdocument : ∀ dir ∈ dirs, other.analyze dir = host.analyze dir)
    (hlua : ∀ dir ∈ dirs, ∀ p, p ∈ other.disk.luaFiles dir ↔ p ∈ host.disk.luaFiles dir)
    (hab : Alike a b) (h : analysisOf host analyzer a dirs = .ok a') :
    ∃ b', analysisOf other analyzer b dirs = .ok b' ∧ Alike a' b' := by
  unfold analysisOf at h ⊢
  induction dirs generalizing a b with
  | nil =>
    cases h
    exact ⟨b, rfl, hab⟩
  | cons dir dirs ih =>
    rw [List.foldlM_cons] at h
    obtain ⟨c, hc, hrest⟩ := Except.ok_of_bind h
    obtain ⟨d, hd, rfl⟩ := addDirectory_eq_ok_iff.1 hc
    obtain ⟨e, he, hde⟩ := (blind_reader analyzer dir (host.analyze dir)).alike hab hd
    rw [← hdocument dir List.mem_cons_self] at he
    obtain ⟨b', hb', hab'⟩ := ih (fun x hx => hdocument x (List.mem_cons_of_mem _ hx))
      (fun x hx => hlua x (List.mem_cons_of_mem _ hx))
      (hde.foldl_noteFile (hlua dir List.mem_cons_self)) hrest
    refine ⟨b', ?_, hab'⟩
    rw [List.foldlM_cons]
    exact (Except.bind_of_ok (addDirectory_eq_ok_iff.2 ⟨e, he, rfl⟩) _).trans hb'

end Documents

/-! ### Times -/

section Times

variable {d : Disk} {files dirs roots : List Path} {times : List (Path × Int)} {p dir : Path}
  {tree : Object}

theorem Disk.isSome_time?_iff : (d.time? p).isSome ↔ p ∈ d.files.map Prod.fst := by
  unfold time?
  rw [List.lookup_isSome_iff]
  simp

theorem Disk.mem_luaFiles_iff :
    p ∈ d.luaFiles dir ↔ (d.time? p).isSome ∧ isLuaFile dir p = true := by
  rw [isSome_time?_iff]
  exact List.mem_filter

/-- The times of files are theirs, in the order of the files. -/
theorem times?_eq_some_iff : times? d files = some times ↔
    times.map Prod.fst = files ∧ ∀ f ∈ times, d.time? f.1 = some f.2 := by
  unfold times?
  induction files generalizing times with
  | nil =>
    rw [List.mapM_nil, List.map_eq_nil_iff]
    constructor
    · intro h
      obtain rfl := Option.some.inj h
      exact ⟨rfl, fun f hf => absurd hf List.not_mem_nil⟩
    · rintro ⟨rfl, -⟩
      rfl
  | cons p files ih =>
    simp only [List.mapM_cons, bind, pure, Option.bind_eq_some_iff, Option.map_eq_some_iff]
    constructor
    · rintro ⟨_, ⟨t, ht, rfl⟩, rest, hrest, h⟩
      obtain rfl := Option.some.inj h
      obtain ⟨hfiles, htimes⟩ := ih.1 hrest
      exact ⟨congrArg (p :: ·) hfiles, List.forall_mem_cons.2 ⟨ht, htimes⟩⟩
    · rintro ⟨hfiles, htimes⟩
      obtain ⟨f, rest, rfl, rfl, hrest⟩ := List.map_eq_cons_iff.1 hfiles
      obtain ⟨ht, htimes⟩ := List.forall_mem_cons.1 htimes
      exact ⟨f, ⟨f.2, ht, rfl⟩, rest, ih.2 ⟨hrest, htimes⟩, rfl⟩

theorem exists_times (h : ∀ p ∈ files, (d.time? p).isSome) :
    ∃ times, times? d files = some times := by
  induction files with
  | nil => exact ⟨[], rfl⟩
  | cons p files ih =>
    obtain ⟨hp, hrest⟩ := List.forall_mem_cons.1 h
    obtain ⟨t, ht⟩ := Option.isSome_iff_exists.1 hp
    obtain ⟨times, htimes⟩ := ih hrest
    obtain ⟨hfiles, htimes⟩ := times?_eq_some_iff.1 htimes
    exact ⟨(p, t) :: times, times?_eq_some_iff.2
      ⟨congrArg (p :: ·) hfiles, List.forall_mem_cons.2 ⟨ht, htimes⟩⟩⟩

/-- What is kept is of use exactly if it is about the same directories, no file that was met has
gone or has been changed, and all Lua files are known. -/
theorem isStale_eq_false_iff : isStale dirs d ⟨some tree, some roots, some times⟩ = false ↔
    roots = dirs ∧ (∀ f ∈ times, ∃ t, d.time? f.1 = some t ∧ t ≤ f.2) ∧
      ∀ dir ∈ dirs, ∀ p ∈ d.luaFiles dir, p ∈ times.map Prod.fst := by
  have houtdated (f : Path × Int) :
      isOutdated d f = false ↔ ∃ t, d.time? f.1 = some t ∧ t ≤ f.2 := by
    unfold isOutdated
    cases d.time? f.1 <;> simp
  simp only [isStale, Bool.or_eq_false_iff, bne_eq_false_iff_eq, List.any_eq_false,
    Bool.not_eq_true, houtdated, Bool.not_eq_false', List.contains_iff_mem, and_assoc]

end Times

/-! ### A run of the analyzer -/

/-- What is known before the first directory is read. -/
def opening (c : Config) (host : Host) (analyzer : Analyzer) : Analysis :=
  (configFiles host.disk c.projectRoot).foldl Analysis.noteFile
    { Analysis.start analyzer with rule := c.rule }

/-- The store that a run of the analyzer leaves. -/
def Leaves [FileSystem] (c : Config) (host : Host) (store : Store) : Prop :=
  ∃ analyzer a times, c.backend = .analyzer analyzer ∧
    analysisOf host analyzer (opening c host analyzer) (directories c) = .ok a ∧
    times? host.disk a.files = some times ∧
    store = ⟨some a.root, some (directories c), some times⟩

section Refresh

variable [FileSystem] {c : Config} {host : Host} {analyzer : Analyzer} {s s' : State}
  {store : Store}

theorem leaves_of_rebuild (hbackend : c.backend = .analyzer analyzer)
    (h : (rebuild c host analyzer (directories c)).run.run s = (.ok (), s')) :
    Leaves c host s'.store := by
  unfold rebuild at h
  cases hobstacle : host.obstacle with
  | some e =>
    rw [hobstacle] at h
    cases (Prod.mk.inj h).1
  | none =>
    rw [hobstacle] at h
    obtain ⟨a, s₁, hread, hkeep⟩ := ExceptT.ok_of_run_bind h
    obtain ⟨s₂, hrun, -⟩ := exists_readDirectories host analyzer
      (configFiles host.disk c.projectRoot) (topmostRepository? host.disk c.projectRoot)
      (opening c host analyzer) (directories c) s
    have ha : analysisOf host analyzer (opening c host analyzer) (directories c) = .ok a :=
      (Prod.mk.inj (hrun.symm.trans hread)).1
    cases htimes : times? host.disk a.files with
    | none =>
      rw [htimes] at hkeep
      cases (Prod.mk.inj hkeep).1
    | some times =>
      rw [htimes] at hkeep
      obtain rfl := (Prod.mk.inj hkeep).2
      exact ⟨analyzer, a, times, hbackend, ha, htimes, rfl⟩

theorem exists_rebuild (hobstacle : host.obstacle = none)
    (hbackend : c.backend = .analyzer analyzer) (h : Leaves c host store) :
    ∃ s', (rebuild c host analyzer (directories c)).run.run s = (.ok (), s') ∧
      s'.store = store := by
  obtain ⟨analyzer', a, times, hbackend', ha, htimes, rfl⟩ := h
  obtain rfl : analyzer' = analyzer := Config.Backend.analyzer.inj (hbackend'.symm.trans hbackend)
  obtain ⟨s₁, hrun, -⟩ := exists_readDirectories host analyzer'
    (configFiles host.disk c.projectRoot) (topmostRepository? host.disk c.projectRoot)
    (opening c host analyzer') (directories c) s
  rw [ha] at hrun
  unfold rebuild
  rw [hobstacle]
  exact ⟨_, (ExceptT.run_bind_of_ok hrun _).trans (by rw [htimes]; rfl), rfl⟩

/-- A build keeps what is stored if that is of use, and runs the analyzer otherwise. -/
theorem refresh_cases (hbackend : c.backend ≠ .disabled)
    (h : (refresh c host).run.run s = (.ok (), s')) :
    (isStale (directories c) host.disk s.store = false ∧ s' = s) ∨
      (isStale (directories c) host.disk s.store = true ∧ Leaves c host s'.store) := by
  unfold refresh at h
  cases hb : c.backend with
  | disabled => exact absurd hb hbackend
  | analyzer analyzer =>
    rw [hb] at h
    obtain ⟨_, _, hget, hrest⟩ := ExceptT.ok_of_run_bind h
    cases hget
    cases hstale : isStale (directories c) host.disk s.store with
    | false =>
      rw [hstale] at hrest
      exact .inl ⟨rfl, (Prod.mk.inj hrest).2.symm⟩
    | true =>
      rw [hstale] at hrest
      exact .inr ⟨rfl, leaves_of_rebuild hb hrest⟩

/-- The first build runs the analyzer. -/
theorem exists_refresh (hobstacle : host.obstacle = none) (hempty : s.store = .empty)
    (h : Leaves c host store) :
    ∃ s', (refresh c host).run.run s = (.ok (), s') ∧ s'.store = store := by
  have hstale : isStale (directories c) host.disk s.store = true := by
    rw [hempty]
    rfl
  have hget : (get : Update State).run.run s = (.ok s, s) := rfl
  obtain ⟨analyzer, _, _, hbackend, _⟩ := id h
  obtain ⟨s', hrun, hstore⟩ := exists_rebuild (s := s) hobstacle hbackend h
  refine ⟨s', ?_, hstore⟩
  unfold refresh
  rw [hbackend]
  refine (ExceptT.run_bind_of_ok hget _).trans ?_
  rw [hstale]
  exact hrun

end Refresh

/-! ### Builds one after the other -/

/-- What there is when a build starts. -/
structure Scene where
  config : Config
  disk : Disk
  /-- What the files hold. -/
  text : Path → String
  workingDirectory : Path
  obstacle : Option Error

/-- The documents of the analyzers. A document is made for a directory from the configuration files
and from what all files hold. -/
abbrev Documents := Config.Backend → Path → List Path → (Path → Option String) → Json

/-- An analyzer reads in a directory only its Lua files and the configuration files: the document
does not depend on what the other files hold. -/
def Documents.ReadLuaFiles (docs : Documents) : Prop :=
  ∀ backend dir configs (files files' : Path → Option String),
    (∀ p, isLuaFile dir p = true ∨ p ∈ configs → files p = files' p) →
      docs backend dir configs files = docs backend dir configs files'

/-- Before the first build. -/
def State.new : State := ⟨.empty, none, [], [], []⟩

namespace Scene

/-- The configuration files. -/
def configs (k : Scene) : List Path := configFiles k.disk k.config.projectRoot

/-- What the files hold. -/
def contents (k : Scene) (p : Path) : Option String := (k.disk.time? p).map fun _ => k.text p

/-- What the outside world answers. -/
def host (docs : Documents) (k : Scene) : Host where
  disk := k.disk
  workingDirectory := k.workingDirectory
  obstacle := k.obstacle
  analyze dir := docs k.config.backend dir k.configs k.contents

/-- The build. -/
def build [FileSystem] (docs : Documents) (k : Scene) : Update Unit :=
  refresh k.config (k.host docs)

/-- What is stored is of no use for the build. -/
def stale (k : Scene) (store : Store) : Bool := isStale (directories k.config) k.disk store

/-- The tree of a build for which nothing is stored and whose analyzer can be used; there is none
if the build fails. -/
def freshTree? [FileSystem] (docs : Documents) (k : Scene) : Option Object :=
  match (build docs { k with obstacle := none }).run.run .new with
  | (.ok _, s) => s.store.tree
  | (.error _, _) => none

/-- Files that hold something else in the later scene have been changed later. -/
def Newer (k later : Scene) : Prop :=
  ∀ p t t', k.disk.time? p = some t → later.disk.time? p = some t' →
    later.text p ≠ k.text p → t < t'

end Scene

section Agreement

variable {base last : Scene} {ks : List Scene}

/-- The files are there in both scenes, and hold the same. -/
def Scene.Agree (base last : Scene) (files : List Path) : Prop :=
  ∀ p ∈ files, (base.disk.time? p).isSome ∧ (last.disk.time? p).isSome ∧ last.text p = base.text p

/-- Files that were met and have not been changed since hold what they held. -/
theorem agree_of_kept {files : List Path} {times : List (Path × Int)}
    (htimes : times? base.disk files = some times)
    (hkept : ∀ f ∈ times, ∃ t, last.disk.time? f.1 = some t ∧ t ≤ f.2)
    (hnewer : base.Newer last) : base.Agree last files := by
  intro p hp
  obtain ⟨hfiles, hbase⟩ := times?_eq_some_iff.1 htimes
  rw [← hfiles] at hp
  obtain ⟨f, hf, rfl⟩ := List.mem_map.1 hp
  obtain ⟨t, ht, hle⟩ := hkept f hf
  refine ⟨Option.isSome_iff_exists.2 ⟨_, hbase f hf⟩, Option.isSome_iff_exists.2 ⟨_, ht⟩, ?_⟩
  apply Decidable.byContradiction
  intro htext
  have hlt : f.2 < t := hnewer f.1 f.2 t (hbase f hf) ht htext
  omega

namespace Scene.Agree

variable {files : List Path} {dir : Path}

theorem mem_luaFiles_iff (hagree : base.Agree last files)
    (hbase : ∀ p ∈ base.disk.luaFiles dir, p ∈ files)
    (hlast : ∀ p ∈ last.disk.luaFiles dir, p ∈ files) (p : Path) :
    p ∈ last.disk.luaFiles dir ↔ p ∈ base.disk.luaFiles dir := by
  constructor
  · intro hp
    have hshape := (Disk.mem_luaFiles_iff.1 hp).2
    exact Disk.mem_luaFiles_iff.2 ⟨(hagree p (hlast p hp)).1, hshape⟩
  · intro hp
    have hshape := (Disk.mem_luaFiles_iff.1 hp).2
    exact Disk.mem_luaFiles_iff.2 ⟨(hagree p (hbase p hp)).2.1, hshape⟩

theorem contents_eq (hagree : base.Agree last files) {p : Path} (hp : p ∈ files) :
    last.contents p = base.contents p := by
  obtain ⟨hbase, hlast, htext⟩ := hagree p hp
  obtain ⟨t, ht⟩ := Option.isSome_iff_exists.1 hbase
  obtain ⟨t', ht'⟩ := Option.isSome_iff_exists.1 hlast
  rw [Scene.contents, Scene.contents, ht, ht', Option.map_some, Option.map_some, htext]

/-- A Lua file holds the same in both scenes, or is in neither of them. -/
theorem contents_eq_of_isLuaFile (hagree : base.Agree last files)
    (hlua : ∀ p, p ∈ last.disk.luaFiles dir ↔ p ∈ base.disk.luaFiles dir)
    (hbase : ∀ p ∈ base.disk.luaFiles dir, p ∈ files) {p : Path} (hp : isLuaFile dir p = true) :
    last.contents p = base.contents p := by
  by_cases hmem : p ∈ base.disk.luaFiles dir
  · exact hagree.contents_eq (hbase p hmem)
  · have hgone {d : Disk} (h : p ∉ d.luaFiles dir) : d.time? p = none :=
      Option.not_isSome_iff_eq_none.1 fun hsome => h (Disk.mem_luaFiles_iff.2 ⟨hsome, hp⟩)
    rw [Scene.contents, Scene.contents, hgone hmem, hgone (mt (hlua p).1 hmem), Option.map_none,
      Option.map_none]

end Scene.Agree

/-- The last of the builds is the given one, or comes after it. -/
theorem eq_or_mem_of_append {before after : List Scene}
    (h : ks ++ [last] = before ++ base :: after) : base = last ∨ last ∈ after := by
  have hlast : (base :: after).getLast? = some last := by
    have hends := congrArg List.getLast? h
    simpa using hends.symm
  cases after with
  | nil => exact .inl (Option.some.inj hlast)
  | cons k after =>
    rw [List.getLast?_cons_cons] at hlast
    exact .inr (List.mem_of_getLast? hlast)

end Agreement

/-- Builds, one after the other. -/
def builds [FileSystem] (docs : Documents) (ks : List Scene) : Update Unit :=
  ks.forM (Scene.build docs)

section Builds

variable [FileSystem] {docs : Documents} {k base last : Scene} {ks done : List Scene}
  {s s' : State} {store : Store}

theorem freshTree?_of_leaves (h : Leaves k.config (k.host docs) store) :
    k.freshTree? docs = store.tree := by
  obtain ⟨s', hrun, hstore⟩ : ∃ s',
      (Scene.build docs { k with obstacle := none }).run.run .new = (.ok (), s') ∧
        s'.store = store := exists_refresh rfl rfl h
  unfold Scene.freshTree?
  rw [hrun, ← hstore]

/-- What is stored after builds: nothing if there were none, and otherwise what one of them stored
that ran the analyzer and those after it kept. -/
def Held (docs : Documents) (done : List Scene) (store : Store) : Prop :=
  (done = [] ∧ store = .empty) ∨ ∃ before base after, done = before ++ base :: after ∧
    Leaves base.config (base.host docs) store ∧ ∀ k ∈ after, k.stale store = false

theorem Held.build (henabled : k.config.backend ≠ .disabled) (hheld : Held docs done s.store)
    (h : (k.build docs).run.run s = (.ok (), s')) : Held docs (done ++ [k]) s'.store := by
  rcases refresh_cases henabled h with ⟨hfresh, rfl⟩ | ⟨-, hleaves⟩
  · rcases hheld with ⟨-, hempty⟩ | ⟨before, base, after, rfl, hleaves, hafter⟩
    · rw [hempty] at hfresh
      cases hfresh
    · refine .inr ⟨before, base, after ++ [k], by simp, hleaves, fun k' hk' => ?_⟩
      rcases List.mem_append.1 hk' with hk' | hk'
      · exact hafter k' hk'
      · obtain rfl := List.mem_singleton.1 hk'
        exact hfresh
  · exact .inr ⟨done, k, [], rfl, hleaves, fun k' hk' => absurd hk' List.not_mem_nil⟩

theorem Held.builds (henabled : ∀ k ∈ ks, k.config.backend ≠ .disabled)
    (hheld : Held docs done s.store) (h : (builds docs ks).run.run s = (.ok (), s')) :
    Held docs (done ++ ks) s'.store := by
  unfold Project.builds at h
  induction ks generalizing done s with
  | nil =>
    obtain rfl := (Prod.mk.inj h).2
    rwa [List.append_nil]
  | cons k ks ih =>
    obtain ⟨hk, hks⟩ := List.forall_mem_cons.1 henabled
    obtain ⟨_, s₁, hbuild, hrest⟩ := ExceptT.ok_of_run_bind h
    rw [List.append_cons]
    exact ih hks (hheld.build hk hbuild) hrest

/-- **What is kept is what would be built anew**, unless there is another analyzer, another rule
for constructors, or other configuration files, if analyzers read only Lua files. -/
theorem exists_leaves_of_kept (hreads : docs.ReadLuaFiles)
    (hleaves : Leaves base.config (base.host docs) store)
    (hkept : last.stale store = false) (hnewer : base.Newer last)
    (hbackend : last.config.backend = base.config.backend)
    (hrule : last.config.rule = base.config.rule) (hconfigs : last.configs = base.configs) :
    ∃ store', Leaves last.config (last.host docs) store' ∧ store'.tree = store.tree := by
  obtain ⟨analyzer, a, times, hanalyzer, ha, htimes, rfl⟩ := hleaves
  obtain ⟨hdirs, hunchanged, hlua⟩ := isStale_eq_false_iff.1 hkept
  obtain ⟨hopening, hnoted⟩ := mem_files_of_analysisOf ha
  rw [(times?_eq_some_iff.1 htimes).1, ← hdirs] at hlua
  have hagree : base.Agree last a.files := agree_of_kept htimes hunchanged hnewer
  have hknown (p : Path) (hp : p ∈ base.configs) : p ∈ a.files :=
    hopening p (mem_foldl_noteFile.2 (.inr hp))
  have hsame (dir : Path) (hdir : dir ∈ directories base.config) :=
    hagree.mem_luaFiles_iff (hnoted dir hdir) (hlua dir hdir)
  have hdocument (dir : Path) (hdir : dir ∈ directories base.config) :
      (last.host docs).analyze dir = (base.host docs).analyze dir := by
    simp only [Scene.host, hbackend, hconfigs]
    refine hreads _ dir _ _ _ fun p hp => hp.elim (fun hshape => ?_) fun hconfig => ?_
    · exact hagree.contents_eq_of_isLuaFile (hsame dir hdir) (hnoted dir hdir) hshape
    · exact hagree.contents_eq (hknown p hconfig)
  have hstart : opening last.config (last.host docs) analyzer =
      opening base.config (base.host docs) analyzer := by
    have hfiles : configFiles (last.host docs).disk last.config.projectRoot =
        configFiles (base.host docs).disk base.config.projectRoot := hconfigs
    unfold opening
    rw [hrule, hfiles]
  obtain ⟨b, hb, halike⟩ := exists_alike_analysisOf hdocument hsame (Alike.refl _) ha
  rw [← hstart, hdirs] at hb
  obtain ⟨times', htimes'⟩ : ∃ times', times? last.disk b.files = some times' :=
    exists_times fun p hp => (hagree p ((halike.mem_files p).1 hp)).2.1
  exact ⟨_, ⟨analyzer, b, times', hbackend.trans hanalyzer, hb, htimes', rfl⟩,
    congrArg some halike.root⟩

theorem Leaves.isSome_tree {c : Config} {host : Host} (h : Leaves c host store) :
    store.tree.isSome := by
  obtain ⟨_, _, _, _, _, _, rfl⟩ := h
  rfl

/-- **After builds, the tree is the one of the last build that ran the analyzer**, and the builds
after it found the directories, the files that were met and the Lua files unchanged. It is what a
build without anything stored would give now, if the analyzer reads only Lua files and configuration
files, and if it, the rule for constructors and the configuration files are still the same. -/
theorem tree_of_builds (docs : Documents) (ks : List Scene) (last : Scene) (s s' : State)
    (hempty : s.store = .empty) (henabled : ∀ k ∈ ks ++ [last], k.config.backend ≠ .disabled)
    (hnewer : (ks ++ [last]).Pairwise Scene.Newer)
    (h : (builds docs (ks ++ [last])).run.run s = (.ok (), s')) :
    ∃ before base after, ks ++ [last] = before ++ base :: after ∧
      (∀ k ∈ after, k.stale s'.store = false) ∧
      s'.store.tree.isSome ∧ s'.store.tree = base.freshTree? docs ∧
      (docs.ReadLuaFiles → last.config.backend = base.config.backend →
        last.config.rule = base.config.rule → last.configs = base.configs →
        s'.store.tree = last.freshTree? docs) := by
  have hheld : Held docs ([] ++ (ks ++ [last])) s'.store :=
    Held.builds henabled (.inl ⟨rfl, hempty⟩) h
  rcases hheld with ⟨hnil, -⟩ | ⟨before, base, after, hsplit, hleaves, hafter⟩
  · exact absurd hnil (by simp)
  · refine ⟨before, base, after, hsplit, hafter, hleaves.isSome_tree,
      (freshTree?_of_leaves hleaves).symm, fun hreads hbackend hrule hconfigs => ?_⟩
    rcases eq_or_mem_of_append hsplit with rfl | hmem
    · exact (freshTree?_of_leaves hleaves).symm
    · have hsince : base.Newer last := by
        rw [List.nil_append] at hsplit
        rw [hsplit] at hnewer
        exact (List.pairwise_cons.1 (List.pairwise_append.1 hnewer).2.1).1 last hmem
      obtain ⟨store', hnew, htree⟩ :=
        exists_leaves_of_kept hreads hleaves (hafter last hmem) hsince hbackend hrule hconfigs
      rw [freshTree?_of_leaves hnew, htree]

end Builds

attribute [local instance] FileSystem.linkless

/-- A class with a function. -/
def classDocument : Json :=
  .arr [.obj [("name", .str "Queue"),
    ("defines", .arr [.obj [("type", .str "doc.class"), ("file", .str "queue.lua")]]),
    ("fields", .arr [.obj [("name", .str "new"), ("type", .str "setfield"),
      ("file", .str "queue.lua"), ("extends", .obj [("type", .str "function")])]])]]

/-- The documents of an analyzer whose configuration tells it to leave out everything. -/
def queueDocuments : Documents := fun _ _ configs _ =>
  if configs.isEmpty then classDocument else .arr []

/-- A build of a project with the given constructors and configuration files. -/
def queueScene (constructor? : Option String) (configs : List String) : Scene where
  config :=
    { projectRoot := ⟨"/", ["queue"]⟩
      backend := .analyzer .luaLs
      projectDirectories := none
      autoInstall := false
      autoInstallLocation := none
      minVersion := none
      maxVersion := none
      skipVersions := none
      luaVersion := none
      defaultOptions := []
      apidocDefaultOptions := []
      apidocMaxDepth := .number 4
      apidocIgnored := []
      apidocFormat := .rst
      apidocSeparateMembers := false
      apidocRoots := []
      rule := ⟨constructor?, false, false⟩
      maxLineLength := none
      verbose := false }
  disk := ⟨("queue.lua" :: configs).map fun name => (⟨"/", ["queue", name]⟩, 1000), []⟩
  text p :=
    if p.fileName = "queue.lua" then "---@class Queue\nQueue = \x7b\x7d\nfunction Queue.new() end"
    else "\x7b\"workspace.ignoreDir\": [\"*\"]\x7d"
  workingDirectory := ⟨"/", []⟩
  obstacle := none

/-- The names in a tree, down to members. -/
def namesOf (tree : Option Object) : Option (List (String × List String)) :=
  tree.map fun o => o.children.map fun c => (c.1, c.2.children.map Prod.fst)

/-- After a first build, the tree is kept although it would now be another one. -/
def Outdated (docs : Documents) (first later : Scene) : Prop :=
  ∃ s', (builds docs [first, later]).run.run .new = (.ok (), s') ∧
    s'.store.tree = first.freshTree? docs ∧ s'.store.tree ≠ later.freshTree? docs

/-- Neither a constructor that is named later nor a configuration file that comes into being is
noticed. -/
theorem outdated_queue : queueDocuments.ReadLuaFiles ∧
    Outdated queueDocuments (queueScene none []) (queueScene (some "new") []) ∧
      Outdated queueDocuments (queueScene none []) (queueScene none [".luarc.json"]) := by
  have hkept (name : Option String) (configs : List String) (s' : State)
      (h : (builds queueDocuments [queueScene none [], queueScene name configs]).run.run .new =
        (.ok (), s'))
      (hnames : namesOf s'.store.tree ≠
        namesOf ((queueScene name configs).freshTree? queueDocuments)) :
      Outdated queueDocuments (queueScene none []) (queueScene name configs) := by
    have hnewer : [queueScene none [], queueScene name configs].Pairwise Scene.Newer :=
      List.pairwise_pair.2 fun _ _ _ _ _ htext => absurd rfl htext
    have henabled (k : Scene) (hk : k ∈ [queueScene none [], queueScene name configs]) :
        k.config.backend ≠ .disabled := by
      rcases List.mem_pair.1 hk with rfl | rfl
      all_goals exact Config.Backend.noConfusion
    obtain ⟨before, base, after, hsplit, -, -, htree, -⟩ :=
      tree_of_builds queueDocuments [queueScene none []] (queueScene name configs) .new s' rfl
        henabled hnewer h
    refine ⟨s', h, ?_, fun heq => hnames (congrArg namesOf heq)⟩
    cases before with
    | nil => rw [htree, (List.cons.inj hsplit).1]
    | cons first before =>
      -- The second build did not run the analyzer: the names would be others.
      have hrest : [queueScene name configs] = before ++ base :: after := (List.cons.inj hsplit).2
      have hbase : base ∈ [queueScene name configs] := by
        rw [hrest]
        exact List.mem_append_right _ List.mem_cons_self
      rw [List.mem_singleton.1 hbase] at htree
      exact absurd (congrArg namesOf htree) hnames
  refine ⟨fun _ _ _ _ _ _ => rfl, ?_, ?_⟩
  · exact hkept _ _ _ (Prod.ext (Except.toOption_eq_some.1 (by decide +kernel)) rfl)
      (by decide +kernel)
  · exact hkept _ _ _ (Prod.ext (Except.toOption_eq_some.1 (by decide +kernel)) rfl)
      (by decide +kernel)

end LuaDocs.Project
