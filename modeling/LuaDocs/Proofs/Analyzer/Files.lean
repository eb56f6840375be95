import LuaDocs.Proofs.Analyzer.Entries

/-!
# Files that are noted

Reading a document notes files. It does not look at the files that were noted before and forgets
none of them, so that analyses which differ in the order of the files only stay alike: the trees
that documents add up to do not depend on the order in which files were met.
-/

namespace LuaDocs

namespace Analysis

variable {a b a' : Analysis} {p file : Path} {files others : List Path}

theorem mem_noteFile : p ∈ (a.noteFile file).files ↔ p ∈ a.files ∨ p = file := by
  unfold noteFile
  split
  · next hknown =>
    have hmem : file ∈ a.files := List.contains_iff_mem.1 hknown
    exact ⟨.inl, fun h => h.elim id fun heq => heq ▸ hmem⟩
  · rw [List.mem_append, List.mem_singleton]

theorem mem_foldl_noteFile : p ∈ (files.foldl noteFile a).files ↔ p ∈ a.files ∨ p ∈ files := by
  induction files generalizing a with
  | nil => simp
  | cons file files ih => rw [List.foldl_cons, ih, mem_noteFile, List.mem_cons, or_assoc]

/-- The analyses differ at most in the order in which files were noted. -/
def Alike (a b : Analysis) : Prop :=
  ∃ files, b = { a with files } ∧ ∀ p, p ∈ files ↔ p ∈ a.files

theorem Alike.refl (a : Analysis) : Alike a a := ⟨a.files, rfl, fun _ => Iff.rfl⟩

theorem Alike.mem_files (h : Alike a b) (p : Path) : p ∈ b.files ↔ p ∈ a.files := by
  obtain ⟨files, rfl, hfiles⟩ := h
  exact hfiles p

theorem Alike.root (h : Alike a b) : b.root = a.root := by
  obtain ⟨files, rfl, -⟩ := h
  rfl

theorem Alike.foldl_noteFile (h : Alike a b) (hsame : ∀ p, p ∈ others ↔ p ∈ files) :
    Alike (files.foldl noteFile a) (others.foldl noteFile b) := by
  obtain ⟨known, rfl, hknown⟩ := h
  refine ⟨(others.foldl noteFile { a with files := known }).files, ?_, fun p => ?_⟩
  · rw [foldl_noteFile_eq a files]
    exact foldl_noteFile_eq _ _
  · rw [mem_foldl_noteFile, mem_foldl_noteFile, hsame, hknown]

theorem Alike.noteFile (h : Alike a b) (file : Path) :
    Alike (a.noteFile file) (b.noteFile file) := by
  have hfold : Alike ([file].foldl Analysis.noteFile a) ([file].foldl Analysis.noteFile b) :=
    h.foldl_noteFile fun _ => Iff.rfl
  exact hfold

/-- Reading does not look at the files that were noted, and forgets none of them. -/
structure Blind (f : Analysis → Reader Analysis) : Prop where
  alike : ∀ {a b a'}, Alike a b → f a = .ok a' → ∃ b', f b = .ok b' ∧ Alike a' b'
  keeps : ∀ {a a'}, f a = .ok a' → ∀ p ∈ a.files, p ∈ a'.files

section Blind

variable {α : Type} {f g : Analysis → Reader Analysis}

/-- A change of the settings. -/
theorem blind_ok {g : Analysis → Analysis}
    (hg : ∀ a files, g { a with files } = { g a with files }) : Blind fun a => .ok (g a) where
  alike := by
    rintro a _ a' ⟨files, rfl, hfiles⟩ h
    obtain rfl := Except.ok.inj h
    refine ⟨_, rfl, files, hg a files, fun p => ?_⟩
    rw [hfiles, congrArg Analysis.files (hg a a.files)]
  keeps := by
    intro a a' h p hp
    obtain rfl := Except.ok.inj h
    rwa [congrArg Analysis.files (hg a a.files)]

theorem blind_add (name : String) {o : Analysis → Object}
    (ho : ∀ a files, o { a with files } = o a) : Blind fun a => a.add name (o a) where
  alike := by
    rintro a _ a' ⟨files, rfl, hfiles⟩ h
    obtain ⟨root, hroot, rfl⟩ := add_eq_ok_iff.1 h
    refine ⟨{ a with files, root }, add_eq_ok_iff.2 ⟨root, ?_, rfl⟩, files, rfl, hfiles⟩
    rw [ho]
    exact hroot
  keeps := by
    intro a a' h p hp
    obtain ⟨root, -, rfl⟩ := add_eq_ok_iff.1 h
    exact hp

/-- What is read first does not depend on what was read before. -/
theorem blind_after (r : Reader α) {f : α → Analysis → Reader Analysis} (hf : ∀ x, Blind (f x)) :
    Blind fun a => r >>= fun x => f x a := by
  cases r with
  | error e =>
    constructor
    · intro a b a' _ h
      cases h
    · intro a a' h
      cases h
  | ok x => exact hf x

theorem blind_bind (hf : Blind f) (hg : Blind g) : Blind fun a => f a >>= g where
  alike := by
    intro a b a' hab h
    obtain ⟨c, hc, h⟩ := Except.ok_of_bind h
    obtain ⟨d, hd, hcd⟩ := hf.alike hab hc
    obtain ⟨b', hb', hrest⟩ := hg.alike hcd h
    exact ⟨b', (Except.bind_of_ok hd _).trans hb', hrest⟩
  keeps := by
    intro a a' h p hp
    obtain ⟨c, hc, h⟩ := Except.ok_of_bind h
    exact hg.keeps h p (hf.keeps hc p hp)

/-- A part of a document in which files are noted comes first. -/
theorem blind_noting {f : Analysis → Reader (Analysis × α)} {g : Analysis × α → Reader Analysis}
    (hf : LuaLs.Noting f) (hg : ∀ x, Blind fun a => g (a, x)) : Blind fun a => f a >>= g := by
  obtain ⟨r, hr⟩ := hf
  have hf : (fun a => f a >>= g) =
      fun a => r >>= fun x => g (x.1.foldl noteFile a, x.2) := by
    funext a
    rw [hr a]
    cases r <;> rfl
  rw [hf]
  refine blind_after r fun x => ?_
  constructor
  · intro a b a' hab h
    exact (hg x.2).alike (hab.foldl_noteFile fun _ => Iff.rfl) h
  · intro a a' h p hp
    exact (hg x.2).keeps h p (mem_foldl_noteFile.2 (.inl hp))

theorem blind_foldlM {f : Analysis → Json → Reader Analysis} (hf : ∀ j, Blind fun a => f a j)
    (items : List Json) : Blind fun a => items.foldlM f a := by
  induction items with
  | nil => exact blind_ok fun _ _ => rfl
  | cons j items ih =>
    simp only [List.foldlM_cons]
    exact blind_bind (hf j) ih

end Blind

end Analysis

/-! ### Documents of the Lua language server -/

namespace LuaLs

open Analysis

variable [FileSystem]

theorem blind_toplevel (project : Path) (j : Json) : Blind fun a => toplevel project a j := by
  unfold toplevel
  split
  · refine blind_after _ fun defines => ?_
    refine blind_noting (noting_definitions project defines) fun o => blind_after _ fun fields => ?_
    refine blind_noting (noting_foldlM (noting_field project) fields o) fun o => ?_
    exact blind_after _ fun name => blind_add name fun _ _ => rfl
  · exact blind_ok fun _ _ => rfl

theorem blind_read (project : Path) (j : Json) : Blind fun a => read a project j := by
  unfold read
  split
  · exact blind_foldlM (blind_toplevel _) _
  · exact blind_ok fun _ _ => rfl

end LuaLs

/-! ### Documents of EmmyLua -/

namespace EmmyLua

open Analysis

variable [FileSystem]

theorem alike_notingModule {a b : Analysis} (h : Alike a b) (project : Path) (data : Json) :
    Alike (notingModule project a data) (notingModule project b data) := by
  unfold notingModule
  split
  · split
    · exact h
    · exact h.noteFile _
  · exact h

theorem blind_moduleOf (project : Path) (data : Json) : Blind fun a => moduleOf project a data where
  alike := by
    intro a b a' hab h
    rw [moduleOf_eq] at h
    obtain ⟨e, he, h⟩ := Except.ok_of_bind h
    obtain ⟨b', hb', halike⟩ := (blind_add e.1 (o := fun _ => e.2) fun _ _ => rfl).alike
      (alike_notingModule hab project data) h
    obtain ⟨files, rfl, -⟩ := hab
    refine ⟨b', ?_, halike⟩
    rw [moduleOf_eq]
    exact (Except.bind_of_ok he _).trans hb'
  keeps := by
    intro a a' h p hp
    rw [moduleOf_eq] at h
    obtain ⟨e, -, h⟩ := Except.ok_of_bind h
    refine (blind_add e.1 (o := fun _ => e.2) fun _ _ => rfl).keeps h p ?_
    unfold notingModule
    split
    · split
      · exact hp
      · exact mem_noteFile.2 (.inl hp)
    · exact hp

theorem blind_typeOf (project : Path) (data : Json) : Blind fun a => typeOf project a data := by
  unfold typeOf
  refine blind_after _ fun kind => ?_
  split
  · iterate 6 refine blind_after _ fun _ => ?_
    exact blind_add _ fun _ _ => rfl
  · iterate 6 refine blind_after _ fun _ => ?_
    exact blind_add _ fun _ _ => rfl
  · iterate 6 refine blind_after _ fun _ => ?_
    exact blind_add _ fun _ _ => rfl
  · exact blind_ok fun _ _ => rfl

theorem blind_globalOf (project : Path) (data : Json) :
    Blind fun a => globalOf project a data := by
  unfold globalOf
  refine blind_after _ fun kind => ?_
  split
  · refine blind_after _ fun c => blind_after _ fun d => blind_after _ fun o => ?_
    exact blind_after _ fun name => blind_add name fun _ _ => rfl
  · exact blind_after _ fun o => blind_after _ fun name => blind_add name fun _ _ => rfl
  · exact blind_ok fun _ _ => rfl

omit [FileSystem] in
theorem blind_requirements (runtime j : Json) : Blind fun a => (do
    let version ← look (runtime.item "version")
    let completion ← look do (← j.item "config").item "completion"
    let requireFunction ← look do (← completion.item "autoRequireFunction").text?
    let requireSeparator ← look do (← completion.item "autoRequireSeparator").text?
    return { a with runtimeVersion := runtimeVersion version, requireFunction, requireSeparator } :
      Reader Analysis) := by
  refine blind_after _ fun version => blind_after _ fun completion => ?_
  exact blind_after _ fun function => blind_after _ fun separator => blind_ok fun _ _ => rfl

omit [FileSystem] in
theorem blind_settings (j : Json) : Blind fun a => settings a j := by
  unfold settings
  refine blind_after _ fun runtime => blind_after _ fun rule => ?_
  simp only [pure_bind, Bool.false_eq_true, if_false]
  split
  · refine blind_after _ fun named => ?_
    split
    · refine blind_after _ fun name => blind_after _ fun nonColon => blind_after _ fun self => ?_
      have hrule : Blind fun a => .ok { a with rule := ⟨name, nonColon.isTrue, self.isTrue⟩ } :=
        blind_ok fun _ _ => rfl
      exact blind_bind hrule (blind_requirements runtime j)
    · exact blind_requirements runtime j
  · exact blind_requirements runtime j

theorem blind_read (project : Path) (j : Json) : Blind fun a => read a project j := by
  unfold read
  refine blind_bind (blind_settings j) (blind_after _ fun modules => ?_)
  refine blind_bind (blind_foldlM (blind_moduleOf _) modules) (blind_after _ fun types => ?_)
  refine blind_bind (blind_foldlM (blind_typeOf _) types) (blind_after _ fun globals => ?_)
  exact blind_foldlM (blind_globalOf _) globals

end EmmyLua

/-- **Documents are read without looking at the files that were noted.** -/
theorem Project.blind_reader [FileSystem] (analyzer : Analyzer) (project : Path) (j : Json) :
    Analysis.Blind fun a => reader analyzer a project j := by
  cases analyzer with
  | luaLs => exact LuaLs.blind_read project j
  | emmyLua => exact EmmyLua.blind_read project j

end LuaDocs
