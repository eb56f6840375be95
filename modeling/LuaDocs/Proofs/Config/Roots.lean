import LuaDocs.Proofs.Auto.Settings

/-!
# The roots of a configuration

A root is read with the defaults that the other values of the configuration give it. Its options are
those of three tables, each of which takes precedence over the ones before it: the defaults of all
descriptions, those of generated pages, and those of the root. All of them were read from texts, so
that every option of a root is one that can have a default, with a value that was read for it.
-/

namespace LuaDocs

/-- What stands in an updated table stands in one of the two. -/
theorem Table.mem_or_get?_of_get?_update {α : Type} {t s : Table α} {key : String} {v : α}
    (h : (Table.update t s).get? key = some v) : (key, v) ∈ s ∨ t.get? key = some v := by
  rw [Table.get?_update_reverse, Option.or_eq_some_iff] at h
  rcases h with hs | ⟨-, ht⟩
  · exact .inl (List.mem_reverse.1 (Table.mem_of_get? hs))
  · exact .inr ht

namespace Config

variable [FileSystem] {docs : Path} {vs : Values} {o : Outcome}

/-- The name of the setting that lists the roots. -/
def rootsName : String := "lua_ls_apidoc_roots"

/-- The values with the given roots. -/
def valuesOf (roots : List (String × Value)) : Values := defaults ++ [(rootsName, .table roots)]

/-- The roots are read with defaults that the values before them give, and what is left of them
takes their place. -/
theorem exists_roots_of_read (h : read docs vs = .ok o) :
    ∃ d a b r, options "lua_ls_default_options" (vs.value "lua_ls_default_options") = .ok a ∧
      options "lua_ls_apidoc_default_options" (vs.value "lua_ls_apidoc_default_options") = .ok b ∧
      d.options = Table.update a b ∧ apiRoots d rootsName (vs.value rootsName) = .ok r ∧
      o.config.apidocRoots = r.1 ∧
      o.values = if vs.has rootsName then vs.set rootsName r.2 else vs := by
  unfold read at h
  iterate 9 obtain ⟨_, -, h⟩ := Except.ok_of_bind h
  obtain ⟨a, ha, h⟩ := Except.ok_of_bind h
  obtain ⟨b, hb, h⟩ := Except.ok_of_bind h
  iterate 4 obtain ⟨_, -, h⟩ := Except.ok_of_bind h
  obtain ⟨r, hr, h⟩ := Except.ok_of_bind h
  iterate 5 obtain ⟨_, -, h⟩ := Except.ok_of_bind h
  obtain rfl := Except.ok.inj h
  exact ⟨_, a, b, r, ha, hb, rfl, hr, rfl, rfl⟩

variable {d : RootDefaults} {name key : String} {value left : Value} {root : ApiRoot}

/-- The options of a root are the defaults with those of its description. -/
theorem options_of_apiRoot {rows : Values} (h : apiRoot d name key rows = .ok root) :
    ∃ field value opts, options field value = .ok opts ∧
      root.options = Table.update d.options opts := by
  unfold apiRoot at h
  obtain ⟨path, -, h⟩ := Except.ok_of_bind h
  dsimp only at h
  split at h
  · cases h
  · obtain ⟨opts, hopts, h⟩ := Except.ok_of_bind h
    iterate 4 obtain ⟨_, -, h⟩ := Except.ok_of_bind h
    split at h
    · cases h
    · obtain rfl := Except.ok.inj h
      exact ⟨_, _, opts, hopts, rfl⟩

theorem options_of_rootEntry (h : rootEntry d name key value = .ok (root, left)) :
    ∃ field value opts, options field value = .ok opts ∧
      root.options = Table.update d.options opts := by
  unfold rootEntry at h
  split at h
  · obtain ⟨p, -, h⟩ := Except.ok_of_bind h
    obtain ⟨r, hr, h⟩ := Except.ok_of_bind h
    obtain ⟨rfl, -⟩ := Prod.mk.inj (Except.ok.inj h)
    exact options_of_apiRoot hr
  · obtain ⟨r, hr, h⟩ := Except.ok_of_bind h
    obtain ⟨rfl, -⟩ := Prod.mk.inj (Except.ok.inj h)
    exact options_of_apiRoot hr
  · cases h

/-- Every root is read from a row. -/
theorem exists_rootEntry_of_mem {r : Table ApiRoot × Value} (h : apiRoots d name value = .ok r)
    (hroot : (key, root) ∈ r.1) : ∃ value left, rootEntry d name key value = .ok (root, left) := by
  unfold apiRoots at h
  split at h
  · obtain rfl := Except.ok.inj h
    cases hroot
  · next rows =>
    obtain ⟨results, hresults, h⟩ := Except.ok_of_bind h
    obtain rfl := Except.ok.inj h
    obtain ⟨result, hresult, heq⟩ := List.mem_map.1 hroot
    obtain ⟨row, -, hrow⟩ := Except.mem_of_mapM hresults hresult
    obtain ⟨entry, hentry, hrow⟩ := Except.ok_of_bind hrow
    obtain rfl := Except.ok.inj hrow
    obtain ⟨rfl, rfl⟩ := Prod.mk.inj heq
    exact ⟨row.2, entry.2, hentry⟩
  · cases h

/-- **Every option of a root is one that can have a default, with a value that was read for it.** -/
theorem read_of_root (h : read docs vs = .ok o) (hroot : (key, root) ∈ o.config.apidocRoots)
    {option : String} {v : OptionValue} (hv : root.options.get? option = some v) :
    option ∈ Options.configurable ∧
      ∃ c text, Options.autoSpec.get? option = some c ∧ c.read text = .ok v := by
  obtain ⟨d, a, b, r, ha, hb, hd, hr, hroots, -⟩ := exists_roots_of_read h
  rw [hroots] at hroot
  obtain ⟨value, left, hentry⟩ := exists_rootEntry_of_mem hr hroot
  obtain ⟨field, given, opts, hopts, hroot⟩ := options_of_rootEntry hentry
  rw [hroot, hd] at hv
  rcases Table.mem_or_get?_of_get?_update hv with hmem | hv
  · exact Auto.configurable_of_mem hopts hmem
  · rcases Table.mem_or_get?_of_get?_update hv with hmem | hv
    · exact Auto.configurable_of_mem hb hmem
    · exact Auto.configurable_of_mem ha (Table.mem_of_get? hv)

end Config

end LuaDocs
