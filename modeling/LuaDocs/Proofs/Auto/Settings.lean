import LuaDocs.Config
import LuaDocs.Description
import LuaDocs.Document
import LuaDocs.Proofs.Except
import LuaDocs.Proofs.Table

/-!
# Options that decide under which name an object is entered

Of all options, three decide whether and where an object is entered into the index tables: the
module that it belongs to, and the two spellings of the option that leaves it out. What a class
shows of itself decides whether it has a signature at all. A description hands none of these down
that it was not given, a directive takes only words that exist, and so does a configuration. So
they are under control unless the documentation of an object sets them.
-/

namespace LuaDocs

namespace Object

/-- The options that leave an object out of the tables. -/
def hiders : List String := ["no-index", "noindex"]

/-- The documentation of the object does not take it out of the tables, and does not move it to
another module. A global cannot be moved. -/
structure StaysPut (o : Object) : Prop where
  shown : ∀ key ∈ hiders, o.reading.options.has key = false
  unmoved : o.details.toplevel = false → o.reading.options.has "module" = false

instance (o : Object) : Decidable o.StaysPut :=
  decidable_of_iff ((∀ key ∈ hiders, o.reading.options.has key = false) ∧
      (o.details.toplevel = false → o.reading.options.has "module" = false))
    ⟨fun h => ⟨h.1, h.2⟩, fun h => ⟨h.shown, h.unmoved⟩⟩

end Object

namespace Auto

variable {defaults o' : Options} {value : Config.Value} {name : String} {d : OptionValue}

/-- What the signatures of a class can show. -/
def classParts : List String := ["bases", "both", "ctor", "minimal"]

/-- What the signatures of a class are to show is one of the words that exist. -/
def Worded (o : Options) : Prop := ∀ w, o.text? "class-signature" = some w → w ∈ classParts

/-- The options leave objects in the tables and let classes have a signature. -/
structure Visible (o : Options) : Prop where
  index : o.get? "no-index" = none
  olderIndex : o.get? "noindex" = none
  worded : Worded o

/-- The options on which `Visible` depends. -/
def watched : List String := ["no-index", "noindex", "class-signature"]

variable {o : Options} {key : String}

theorem Worded.of_get? (h : Worded o)
    (heq : o'.get? "class-signature" = o.get? "class-signature") : Worded o' := by
  intro w hw
  rw [Options.text?, heq] at hw
  exact h w hw

/-- Other options can be set at will. -/
theorem Visible.set (h : Visible o) (hkey : key ∉ watched) (v : OptionValue) :
    Visible (o.set key v) := by
  simp only [watched, List.mem_cons, List.not_mem_nil, or_false, not_or] at hkey
  refine ⟨?_, ?_, h.worded.of_get? ?_⟩
  · rw [Table.get?_set_of_ne _ _ hkey.1, h.index]
  · rw [Table.get?_set_of_ne _ _ hkey.2.1, h.olderIndex]
  · exact Table.get?_set_of_ne _ _ hkey.2.2

/-! ### Words that exist -/

theorem autoSpec_class_signature :
    Options.autoSpec.get? "class-signature" = some (.choice classParts) := by
  decide +kernel

/-- What is read for the option is one of the words. -/
theorem mem_of_read_choice {words : List String} {value : Option String} {w : String}
    (h : (Converter.choice words).read value = .ok (.text w)) : w ∈ words := by
  unfold Converter.read at h
  dsimp only at h
  split at h
  · cases h
  · split at h
    · next hw =>
      rw [← OptionValue.text.inj (Except.ok.inj h)]
      exact List.contains_iff_mem.1 hw
    · cases h

/-- Setting an option to a value that was read for it keeps to the words. -/
theorem Worded.set_read {c : Converter} {value : Option String} {v : OptionValue} (h : Worded o)
    (hc : Options.autoSpec.get? key = some c) (hv : c.read value = .ok v) :
    Worded (o.set key v) := by
  by_cases hkey : key = "class-signature"
  · subst hkey
    rw [autoSpec_class_signature] at hc
    cases hc
    intro w hw
    rw [Options.text?, Table.get?_set_self] at hw
    cases v with
    | text w' =>
      cases hw
      exact mem_of_read_choice hv
    | _ => cases hw
  · exact h.of_get? (Table.get?_set_of_ne _ _ hkey)

/-- The options of a directive for an object of the tree are worded. -/
theorem worded_readOptions {wanted : Option ObjType} {given : List (String × Option String)}
    (h : (Directive.auto wanted).readOptions given = .ok o) : Worded o := by
  refine Except.foldlM_induction (P := Worded) (fun w hw => by cases hw) ?_ h
  rintro ⟨key, value⟩ - o o' ho hstep
  dsimp only at hstep
  split at hstep
  · cases hstep
  · next c hc =>
    split at hstep
    · next v hv =>
      cases hstep
      exact ho.set_read hc hv
    · cases hstep

/-! ### Options that are handed down -/

/-- The options have the values that they have in `source`, and do not name a module. -/
def TakenFrom (source o : Options) : Prop :=
  ∀ key v, o.get? key = some v → source.get? key = some v ∧ key ≠ "module"

namespace TakenFrom

variable {source : Options}

theorem nil : TakenFrom source [] := fun _ _ h => nomatch h

theorem set {v : OptionValue} (h : TakenFrom source o) (hv : source.get? key = some v)
    (hkey : key ≠ "module") : TakenFrom source (o.set key v) := by
  intro other w hw
  rw [Table.get?_set] at hw
  split at hw
  · next heq =>
    subst heq
    cases hw
    exact ⟨hv, hkey⟩
  · exact h other w hw

theorem copy (h : TakenFrom source o) (hkey : key ≠ "module") :
    TakenFrom source (Auto.copy source key o) := by
  unfold Auto.copy
  split
  · next v hv => exact h.set hv hkey
  · exact h

theorem copyList (h : TakenFrom source o) (hkey : key ≠ "module" ∧ "no-" ++ key ≠ "module") :
    TakenFrom source (Auto.copyList source o key) := by
  unfold Auto.copyList
  split
  · next hv => exact h.set hv hkey.1
  · next rest hv => exact (h.set hv hkey.1).copy hkey.2
  · exact h

theorem visible (h : TakenFrom source o) (hs : Visible source) : Visible o := by
  have hnone : ∀ key, source.get? key = none → o.get? key = none := by
    intro key hkey
    rw [Option.eq_none_iff_forall_ne_some]
    intro v hv
    rw [(h key v hv).1] at hkey
    cases hkey
  refine ⟨hnone _ hs.index, hnone _ hs.olderIndex, fun w hw => ?_⟩
  obtain ⟨v, hv, htext⟩ := Option.bind_eq_some_iff.1 hw
  exact hs.worded w (Option.bind_eq_some_iff.2 ⟨v, (h _ v hv).1, htext⟩)

theorem module_eq_none (h : TakenFrom source o) : o.get? "module" = none := by
  rw [Option.eq_none_iff_forall_ne_some]
  exact fun v hv => (h _ v hv).2 rfl

end TakenFrom

/-- What is handed down was given, and no module is. -/
theorem takenFrom_handDown (source : Options) : TakenFrom source (handDown source) := by
  have hplain : ∀ key ∈ plainKeys, key ≠ "module" ∧ "no-" ++ key ≠ "module" := by decide +kernel
  have hlist : ∀ key ∈ listKeys, key ≠ "module" ∧ "no-" ++ key ≠ "module" := by decide +kernel
  have hstart : TakenFrom source (plainKeys.foldl
      (fun o key => copy source ("no-" ++ key) (copy source key o)) []) := by
    refine List.foldlRecOn _ _ .nil fun o ho key hkey => ?_
    exact (ho.copy (hplain key hkey).1).copy (hplain key hkey).2
  unfold handDown
  dsimp only
  split
  · exact List.foldlRecOn _ _ hstart fun o ho key hkey => ho.copyList (hlist key hkey)
  · exact hstart

/-! ### The options of a description -/

/-- The options that are set by what the analyzer knows of an object. -/
def detailKeys : List String := ["private", "protected", "package", "async", "deprecated"]

/-- What the analyzer knows of an object sets nothing but these options. -/
theorem withDetails_induction {P : Options → Prop} (h : P o)
    (hset : ∀ o, P o → ∀ key ∈ detailKeys, P (o.set key .flag)) (d : Object.Details) :
    P (withDetails d o) := by
  -- what follows the visibility does not depend on it
  have hrest : ∀ o : Options, P o → P (let o := if d.async then o.set "async" .flag else o
      if d.deprecated then o.set "deprecated" .flag else o) := by
    intro o ho
    have hasync : P (if d.async then o.set "async" .flag else o) := by
      split
      · exact hset o ho _ (by simp [detailKeys])
      · exact ho
    dsimp only
    split
    · exact hset _ hasync _ (by simp [detailKeys])
    · exact hasync
  unfold withDetails
  refine hrest _ ?_
  split
  · exact hset o h _ (by simp [detailKeys])
  · exact hset o h _ (by simp [detailKeys])
  · exact hset o h _ (by simp [detailKeys])
  · exact h

/-- The modules that a module uses set one option. -/
theorem addUsed_induction {P : Options → Prop} {used : List String} (h : P o)
    (hset : ∀ v, P (o.set "using" v)) (hstep : addUsed used o = .ok o') : P o' := by
  unfold addUsed at hstep
  dsimp only at hstep
  split at hstep
  · cases hstep
    exact h
  · split at hstep
    · cases hstep
      exact hset _
    · cases hstep
      exact hset _
    · cases hstep

/-- The options are visible and name the given module, or none. -/
structure Placed (m : Option OptionValue) (o : Options) : Prop extends Visible o where
  module_ : o.get? "module" = m

variable {m : Option OptionValue}

theorem Placed.set (h : Placed m o) (hkey : key ∉ "module" :: watched) (v : OptionValue) :
    Placed m (o.set key v) := by
  rw [List.mem_cons, not_or] at hkey
  refine ⟨h.toVisible.set hkey.2 v, ?_⟩
  rw [Table.get?_set_of_ne _ _ hkey.1, h.module_]

theorem Placed.withDetails (h : Placed m o) (d : Object.Details) :
    Placed m (withDetails d o) := by
  have hflag : ∀ key ∈ detailKeys, key ∉ "module" :: watched := by decide
  exact withDetails_induction h (fun o ho key hkey => ho.set (hflag key hkey) _) d

/-- A setting of a documentation that does not take the object out of the tables. -/
theorem Placed.addSetting {object : String} {setting : String × String}
    (h : Placed m o) (hs : setting.1 ∉ Object.hiders)
    (hstep : Options.addSetting object o setting = .ok o') :
    ∃ m', Placed m' o' ∧ (setting.1 ≠ "module" → m' = m) := by
  simp only [Object.hiders, List.mem_cons, List.not_mem_nil, or_false, not_or] at hs
  unfold Options.addSetting at hstep
  split at hstep
  · cases hstep
  · next c hc =>
    split at hstep
    · next v hv =>
      cases hstep
      refine ⟨_, ⟨⟨?_, ?_, h.worded.set_read hc hv⟩, rfl⟩, fun hmodule => ?_⟩
      · rw [Table.get?_set_of_ne _ _ hs.1, h.index]
      · rw [Table.get?_set_of_ne _ _ hs.2, h.olderIndex]
      · rw [Table.get?_set_of_ne _ _ hmodule, h.module_]
    · cases hstep

theorem Placed.addUsed {used : List String} (h : Placed m o)
    (hstep : addUsed used o = .ok o') : Placed m o' :=
  addUsed_induction h (fun v => h.set (by decide) v) hstep

/-- The module that the options of an object name if its documentation does not: a global is said
to be in no module. -/
def ownModule (o : Object) : Option OptionValue :=
  if o.details.toplevel then some (.text "") else none

theorem notMem_of_not_has {t : Table String} {row : String × String} (h : t.has key = false)
    (hrow : row ∈ t) : row.1 ≠ key := by
  rintro rfl
  have hnone : t.get? row.1 = none := by simpa [Table.has] using h
  exact Table.get?_eq_none_iff.1 hnone (List.mem_map_of_mem hrow)

/-- **The options of a description.** If the documentation of the object does not move it, the
object is entered, and its options name a module only if it is a global. -/
theorem placed_memberOptions {frame : Frame} {direct : Bool} {object : Object} {options : Options}
    (hframe : Visible frame.options) (hput : object.StaysPut)
    (h : memberOptions frame direct object = .ok options) :
    Placed (ownModule object) options := by
  unfold memberOptions at h
  unfold ownModule
  have hstart : Placed none (if direct then frame.options.erase "module"
      else handDown frame.options) := by
    split
    · refine ⟨⟨?_, ?_, hframe.worded.of_get? ?_⟩, ?_⟩
      · rw [Table.get?_erase, if_neg (by decide), hframe.index]
      · rw [Table.get?_erase, if_neg (by decide), hframe.olderIndex]
      · rw [Table.get?_erase, if_neg (by decide)]
      · rw [Table.get?_erase, if_pos rfl]
    · have htaken := takenFrom_handDown frame.options
      exact ⟨htaken.visible hframe, htaken.module_eq_none⟩
  obtain ⟨o₁, h₁, h⟩ := Except.ok_of_bind h
  obtain ⟨o₂, h₂, h⟩ := Except.ok_of_bind h
  obtain ⟨m, hsettings, hm⟩ :
      ∃ m, Placed m o₁ ∧ (object.details.toplevel = false → m = none) := by
    refine Except.foldlM_induction
      (P := fun o => ∃ m, Placed m o ∧ (object.details.toplevel = false → m = none))
      ⟨none, hstart.withDetails _, fun _ => rfl⟩ ?_ (Except.ok_of_mapError h₁)
    rintro setting hs o o' ⟨m, ho, hm⟩ hstep
    have hshown : setting.1 ∉ Object.hiders :=
      fun hmem => notMem_of_not_has (hput.shown _ hmem) hs rfl
    obtain ⟨m', ho', hm'⟩ := ho.addSetting hshown hstep
    refine ⟨m', ho', fun hlocal => ?_⟩
    rw [hm' (notMem_of_not_has (hput.unmoved hlocal) hs), hm hlocal]
  have hused : Placed m o₂ := hsettings.addUsed h₂
  split at h
  · next hglobal =>
    have hmodule : Placed (some (.text "")) (o₂.set "module" (.text "")) :=
      ⟨hused.toVisible.set (by decide) _, Table.get?_set_self _ _ _⟩
    rw [if_pos hglobal]
    cases h
    split
    · exact hmodule
    · exact hmodule.set (by decide) _
  · next hlocal =>
    rw [if_neg hlocal, ← hm (Bool.eq_false_iff.2 hlocal)]
    cases h
    exact hused

/-! ### Defaults -/

/-- A default is used where the option is not given, and is overridden where it is. -/
theorem get?_withDefaults (options defaults : Options) (key : String) :
    (options.withDefaults defaults).get? key = options.get? key ∨
      ∃ d, (key, d) ∈ defaults ∧ (options.withDefaults defaults).get? key =
        some (((options.get? key).map (Options.override d)).getD d) := by
  unfold Options.withDefaults
  refine List.foldlRecOn (motive := fun o : Options => o.get? key = options.get? key ∨
    ∃ d, (key, d) ∈ defaults ∧
      o.get? key = some (((options.get? key).map (Options.override d)).getD d)) _ _ (.inl rfl) ?_
  rintro o ho ⟨k, d⟩ hrow
  by_cases hk : k = key
  · subst hk
    dsimp only
    split
    · exact ho
    · refine .inr ⟨d, hrow, ?_⟩
      split
      · next hv => rw [Table.get?_set_self, hv]; rfl
      · next v hv => rw [Table.get?_set_self, hv]; rfl
  · dsimp only
    split
    · exact ho
    · split
      · rwa [Table.get?_set_of_ne _ _ hk]
      · rwa [Table.get?_set_of_ne _ _ hk]

/-- Defaults take no option away. -/
theorem has_withDefaults (h : o.has key = true) :
    (o.withDefaults defaults).has key = true := by
  rcases get?_withDefaults o defaults key with hsame | ⟨d, -, hgiven⟩
  · rw [Table.has, hsame]
    exact h
  · rw [Table.has, hgiven, Option.isSome_some]

/-- Older spellings take no option away. -/
theorem has_withCurrentNames (h : o.has key = true) : o.withCurrentNames.has key = true := by
  unfold Options.withCurrentNames
  refine List.foldlRecOn (motive := fun o : Options => o.has key = true) _ _ h ?_
  intro o ho names _
  split
  · rw [Table.has, Table.get?_set]
    split
    · rfl
    · exact ho
  · exact ho

/-- The options that decide whether and where an object is entered. -/
def movers : List String := "module" :: Object.hiders

/-- The defaults do not decide under which names objects are entered. -/
structure Modest (defaults : Options) : Prop where
  unmoved : ∀ key ∈ movers, ∀ d, (key, d) ∉ defaults
  worded : ∀ w, ("class-signature", OptionValue.text w) ∈ defaults → w ∈ classParts

theorem text?_override (d v : OptionValue) : (Options.override d v).text? = v.text? := by
  unfold Options.override
  split
  · split <;> rfl
  · rfl

theorem Placed.withDefaults (h : Placed m o) (hd : Modest defaults) :
    Placed m (o.withDefaults defaults) := by
  have hsame : ∀ key ∈ movers, (o.withDefaults defaults).get? key = o.get? key := by
    intro key hkey
    refine (get?_withDefaults o defaults key).resolve_right ?_
    rintro ⟨d, hmem, -⟩
    exact hd.unmoved key hkey d hmem
  refine ⟨⟨?_, ?_, fun w hw => ?_⟩, ?_⟩
  · rw [hsame _ (by decide), h.index]
  · rw [hsame _ (by decide), h.olderIndex]
  · rcases get?_withDefaults o defaults "class-signature" with heq | ⟨d, hmem, heq⟩
    · exact h.worded.of_get? heq w hw
    · rw [Options.text?, heq, Option.bind_some] at hw
      cases hv : o.get? "class-signature" with
      | none =>
        rw [hv] at hw
        cases d with
        | text w' =>
          cases hw
          exact hd.worded w hmem
        | _ => cases hw
      | some v =>
        rw [hv] at hw
        refine h.worded w ?_
        rw [Options.text?, hv]
        exact (text?_override d v).symm.trans hw
  · rw [hsame _ (by decide), h.module_]

/-- The older spellings change nothing if the one that leaves objects out is not given. -/
theorem Placed.withCurrentNames (h : Placed m o) : Placed m o.withCurrentNames := by
  unfold Options.withCurrentNames
  refine List.foldlRecOn _ _ h fun o ho names hnames => ?_
  simp only [Options.olderNames, List.mem_cons, List.not_mem_nil, or_false] at hnames
  rcases hnames with rfl | rfl | rfl
  · rw [ho.olderIndex]
    split
    · next h => cases h
    · exact ho
  · split
    · exact ho.set (by decide) _
    · exact ho
  · split
    · exact ho.set (by decide) _
    · exact ho

/-- What a configuration accepts as a default: an option that can have one, with a value that is
read for it. -/
theorem configurable_of_option {key : String}
    (h : Config.option name key value = .ok d) : key ∈ Options.configurable ∧
      ∃ c text, Options.autoSpec.get? key = some c ∧ c.read text = .ok d := by
  unfold Config.option at h
  split at h
  · cases h
  · next c hc =>
    split at h
    · cases h
    · next hkey =>
      obtain ⟨text, -, hread⟩ := Except.ok_of_bind h
      refine ⟨by simpa using hkey, c, some text, hc, Except.ok_of_mapError hread⟩

theorem configurable_of_mem {key : String}
    (h : Config.options name value = .ok defaults) (hd : (key, d) ∈ defaults) :
    key ∈ Options.configurable ∧
      ∃ c text, Options.autoSpec.get? key = some c ∧ c.read text = .ok d := by
  unfold Config.options at h
  split at h
  · cases h
    cases hd
  · next rows =>
    obtain ⟨row, -, hrow⟩ := Except.mem_of_mapM h hd
    obtain ⟨v, hv, heq⟩ := Except.ok_of_bind hrow
    obtain ⟨rfl, rfl⟩ := Prod.mk.inj (Except.ok.inj heq)
    exact configurable_of_option hv
  · cases h

/-- Of the options that decide whether and where an object is entered, only one can have a
default. -/
theorem eq_of_config {key : String}
    (h : Config.options name value = .ok defaults) (hkey : key ∈ movers)
    (hd : (key, d) ∈ defaults) : key = "no-index" := by
  have honly : ∀ key ∈ movers, key ∈ Options.configurable → key = "no-index" := by decide
  exact honly key hkey (configurable_of_mem h hd).1

/-- The defaults of a configuration are modest, if they do not leave objects out. -/
theorem modest_of_config
    (h : Config.options name value = .ok defaults) (hindex : defaults.has "no-index" = false) :
    Modest defaults := by
  refine ⟨fun key hkey d hd => ?_, fun w hw => ?_⟩
  · obtain rfl := eq_of_config h hkey hd
    have hnone : defaults.get? "no-index" = none := by simpa [Table.has] using hindex
    exact Table.get?_eq_none_iff.1 hnone (List.mem_map_of_mem hd)
  · obtain ⟨-, c, text, hc, hread⟩ := configurable_of_mem h hw
    rw [autoSpec_class_signature] at hc
    cases hc
    exact mem_of_read_choice hread

end Auto

end LuaDocs
