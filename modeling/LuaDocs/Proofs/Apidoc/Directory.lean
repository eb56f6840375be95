import LuaDocs.Proofs.Apidoc.Addresses
import LuaDocs.Proofs.Apidoc.FileNames
import LuaDocs.Proofs.Apidoc.Pages

/-!
# The directory of a run

A run that ends well leaves in its directory the files of its pages and nothing else. Outside of it
nothing changes, except that files with which the output directory is tested are removed. Of the
pages that have the same file the last one stays, and pages have the same file exactly if the normal
forms of their names agree, where the first page is called `index`. Every file that a page lists is
there.

What is listed on a page that was written over can get lost. If pages with the same file list the
same files, every file is reached from the index. In a tidy tree there is only one way to go wrong:
a global of the name `index`, whose page is written over the first one.

## Main results

* `Apidoc.holds_run`: what a run leaves
* `Apidoc.Holds.reaches`: when all files are reached from the index
* `Apidoc.distinct_iff`: when distinct objects have distinct files
* `Apidoc.directory_of_run`: all of it together
-/

namespace LuaDocs.Apidoc

open Text

variable {tree : Object} {ignoreFiles : Bool} {s : Settings} {format fullname : String}
  {out dir : Path} {v : Visit} {w w' : Sheet} {ws : List Sheet} {disk disk' : Table String}

/-! ### The files of pages -/

/-- The name that decides on the file of a page. -/
def Sheet.key (w : Sheet) : String := if w.first then "index" else Name.normalize w.fullname

/-- The files that a page lists. -/
def Sheet.entries (format : String) (w : Sheet) : List String :=
  w.below.keys.map fun name => fileName name ++ "." ++ format

/-- The path of the file of a page. -/
def Sheet.place (dir : Path) (format : String) (w : Sheet) : String :=
  (dir.child (w.file format)).toString

/-- Pages have the same file exactly if they have the same key. -/
theorem Sheet.file_eq_iff : w.file format = w'.file format ↔ w.key = w'.key := by
  rw [file, file, String.append_left_inj, String.append_left_inj, key, key]
  split <;> split
  · simp only
  · rw [eq_comm, fileName_eq_index_iff, eq_comm]
  · exact fileName_eq_index_iff
  · exact fileName_inj

theorem format_of_pageText {page : Page} {text : String} (h : pageText format page = .ok text) :
    format = "rst" ∨ format = "md" := by
  unfold pageText at h
  split at h
  · exact .inl rfl
  · exact .inr rfl
  · cases h

/-- A name that is made for a file is one component of a path, and has one line. -/
theorem isPart_of_format (hformat : format = "rst" ∨ format = "md") {name : String}
    (hslash : '/' ∉ name.toList) : Path.IsPart (name ++ "." ++ format) := by
  have hlength : 2 ≤ (name ++ "." ++ format).toList.length := by
    rcases hformat with rfl | rfl <;> simp
  refine ⟨fun h => ?_, fun h => ?_, ?_⟩
  · rw [h] at hlength
    simp at hlength
  · rw [h] at hlength
    simp at hlength
  · rcases hformat with rfl | rfl <;> simp [hslash]

theorem Sheet.isPart_file (hformat : format = "rst" ∨ format = "md") (w : Sheet) :
    Path.IsPart (w.file format) := by
  refine isPart_of_format hformat ?_
  split
  · decide
  · exact notMem_fileName (by decide) (by decide) _

theorem Sheet.place_eq_iff (hformat : format = "rst" ∨ format = "md") (hdir : dir.Proper) :
    w.place dir format = w'.place dir format ↔ w.file format = w'.file format :=
  Path.toString_child_inj hdir (w.isPart_file hformat) (w'.isPart_file hformat)

/-- The file of a page is none with which a directory is tested: there is a dot in its name. -/
theorem Sheet.isProbe_place (hformat : format = "rst" ∨ format = "md") (hdir : dir.Proper)
    (tested : Path) (w : Sheet) : isProbe tested (w.place dir format) = false := by
  have hname : (Path.ofString (w.place dir format)).fileName = w.file format := by
    rw [place, Path.ofString_toString_child hdir (w.isPart_file hformat)]
    simp [Path.fileName]
  have hdot : '.' ∈ (w.file format).toList := by simp [file]
  have hprobe : ∀ name ∈ probeNames, '.' ∉ name.toList := by decide
  rw [isProbe, hname, Bool.and_eq_false_iff]
  refine .inr (Bool.eq_false_iff.2 fun hmem => ?_)
  exact hprobe _ (List.contains_iff_mem.1 hmem) hdot

/-! ### What a run leaves -/

/-- What a directory holds after pages were written: the files of the pages and no others, each with
the text of the last page that has it. What lies outside of the directory stays, apart from the
files with which the directory `out` was tested. -/
structure Holds (out dir : Path) (format : String) (ws : List Sheet) (disk disk' : Table String) :
    Prop where
  inside : ∀ path, (Path.ofString path).isBelow dir = true →
    (path ∈ disk'.keys ↔ ∃ w ∈ ws, w.place dir format = path)
  outside : ∀ path, (Path.ofString path).isBelow dir = false →
    disk'.get? path = if isProbe out path then none else disk.get? path
  last : ∀ before w after, ws = before ++ w :: after →
    (∀ w' ∈ after, w'.file format ≠ w.file format) →
    disk'.get? (w.place dir format) = some w.text

/-- Updating a directory: what is generated is written, other files in the directory are removed,
and what lies outside stays. -/
theorem get?_of_update {generated : List File} {r : Table String}
    (h : update dir generated true disk = (.ok disk', r)) (path : String) :
    disk'.get? path =
      if (Path.ofString path).isBelow dir = false ∨
          path ∈ (Table.keys generated).map fun name => (dir.child name).toString then
        (Table.update disk (generated.map fun f => ((dir.child f.1).toString, f.2))).get? path
      else none := by
  unfold update at h
  simp only [Bool.not_true, Bool.false_eq_true, if_false] at h
  split at h
  · simp only [Prod.mk.injEq, reduceCtorEq, false_and] at h
  · simp only [Prod.mk.injEq, Except.ok.injEq] at h
    have hfilter := Table.get?_filter_keys
      (Table.update disk (generated.map fun f => ((dir.child f.1).toString, f.2)))
      (fun p : String => !(Path.ofString p).isBelow dir ||
        (generated.map fun f => (dir.child f.1).toString).contains p) path
    rw [h.1] at hfilter
    simpa only [Bool.or_eq_true, Bool.not_eq_true', List.contains_iff_mem, Table.keys, List.map_map,
      Function.comp_def] using hfilter

theorem get?_removeProbes (dirs : List Path) (disk : Table String) (path : String) :
    (removeProbes dirs disk).get? path =
      if dirs.any fun dir => isProbe dir path then none else disk.get? path := by
  have hfilter := Table.get?_filter_keys disk (fun p => !dirs.any fun dir => isProbe dir p) path
  rw [removeProbes, hfilter]
  cases dirs.any fun dir => isProbe dir path with
  | true => rfl
  | false => rfl

/-- Files with which a directory is tested lie in it. -/
theorem isProbe_of_not_below {path : String} (h : (Path.ofString path).isBelow dir = false) :
    isProbe dir path = false := by
  rw [isProbe, Bool.and_eq_false_iff]
  refine .inl (Bool.eq_false_iff.2 fun hparent => ?_)
  have hstarts := List.isPrefixOf_iff_prefix.2 (List.dropLast_prefix (Path.ofString path).parts)
  rw [← beq_iff_eq.1 hparent, Path.isBelow, Path.parent, hstarts, beq_self_eq_true] at h
  cases h

theorem keyed_filesOf : Table.Keyed (filesOf format ws) := Table.keyed_update Table.keyed_nil _

theorem mem_keys_filesOf {name : String} :
    name ∈ Table.keys (filesOf format ws) ↔ ∃ w ∈ ws, w.file format = name := by
  rw [filesOf, Table.mem_keys_update]
  simp [Table.keys, Sheet.row]

/-- The paths of the files of pages. -/
theorem mem_paths_filesOf {path : String} :
    path ∈ (Table.keys (filesOf format ws)).map (fun name => (dir.child name).toString) ↔
      ∃ w ∈ ws, w.place dir format = path := by
  rw [List.mem_map]
  simp only [mem_keys_filesOf]
  constructor
  · rintro ⟨_, ⟨w, hw, rfl⟩, rfl⟩
    exact ⟨w, hw, rfl⟩
  · rintro ⟨w, hw, rfl⟩
    exact ⟨_, ⟨w, hw, rfl⟩, rfl⟩

/-- The last page with a file counts. -/
theorem get?_filesOf {before after : List Sheet}
    (h : ∀ w' ∈ after, w'.file format ≠ w.file format) :
    Table.get? (filesOf format (before ++ w :: after)) (w.file format) = some w.text := by
  have hnone : Table.get? (after.map (Sheet.row format)).reverse (w.file format) = none := by
    refine Table.get?_eq_none_iff.2 fun hmem => ?_
    obtain ⟨row, hrow, hfile⟩ := List.mem_map.1 hmem
    obtain ⟨w', hw', rfl⟩ := List.mem_map.1 (List.mem_reverse.1 hrow)
    exact h w' hw' hfile
  rw [filesOf, Table.get?_update_reverse, List.map_append, List.map_cons, List.reverse_append,
    List.reverse_cons, List.append_assoc, Table.get?_append, hnone, Option.none_or,
    List.singleton_append, Table.get?_cons]
  simp [Sheet.row]

/-- The last page with a file counts on disk as well. -/
theorem get?_paths_filesOf (hformat : format = "rst" ∨ format = "md") (hdir : dir.Proper)
    {before after : List Sheet} (h : ∀ w' ∈ after, w'.file format ≠ w.file format) :
    Table.get? (Table.update disk ((filesOf format (before ++ w :: after)).map
      fun f => ((dir.child f.1).toString, f.2))) (w.place dir format) = some w.text := by
  have hpart : ∀ name ∈ Table.keys (filesOf format (before ++ w :: after)), Path.IsPart name := by
    intro name hname
    obtain ⟨w, -, rfl⟩ := mem_keys_filesOf.1 hname
    exact w.isPart_file hformat
  have hinj : ∀ a ∈ Table.keys (filesOf format (before ++ w :: after)),
      ∀ b ∈ Table.keys (filesOf format (before ++ w :: after)),
        (dir.child a).toString = (dir.child b).toString ↔ a = b :=
    fun a ha b hb => Path.toString_child_inj hdir (hpart a ha) (hpart b hb)
  have hkeyed := Table.keyed_mapKeys (f := fun name => (dir.child name).toString) keyed_filesOf
    fun a ha b hb => (hinj a ha b hb).1
  have hmapped := Table.get?_mapKeys (f := fun name => (dir.child name).toString) (w.file format)
    fun row hrow => hinj _ (List.mem_map_of_mem hrow) _
      (mem_keys_filesOf.2 ⟨w, List.mem_append_right _ List.mem_cons_self, rfl⟩)
  rw [Table.get?_update _ hkeyed, Sheet.place, hmapped, get?_filesOf h]
  rfl

/-- Updating a directory with the files of pages. -/
theorem holds_of_update (hformat : format = "rst" ∨ format = "md") (hdir : dir.Proper)
    {r : Table String} (h : update dir (filesOf format ws) true disk = (.ok disk', r)) :
    Holds out dir format ws disk (removeProbes [dir, out] disk') := by
  have hkeys : ∀ path, path ∈ Table.keys
      ((filesOf format ws).map fun f => ((dir.child f.1).toString, f.2)) ↔
        ∃ w ∈ ws, w.place dir format = path := by
    intro path
    have hpaths := Table.keys_mapKeys (filesOf format ws) fun name => (dir.child name).toString
    rw [hpaths, mem_paths_filesOf]
  have hprobe : ∀ path, (∃ w ∈ ws, w.place dir format = path) →
      ¬([dir, out].any fun d => isProbe d path) = true := by
    rintro _ ⟨w, -, rfl⟩
    simp [w.isProbe_place hformat hdir]
  refine ⟨fun path hbelow => ?_, fun path hbelow => ?_, ?_⟩
  · rw [← not_iff_not, ← Table.get?_eq_none_iff, get?_removeProbes, get?_of_update h]
    constructor
    · intro hnone hin
      rw [if_neg (hprobe path hin), if_pos (.inr (mem_paths_filesOf.2 hin))] at hnone
      exact Table.get?_eq_none_iff.1 hnone (Table.mem_keys_update.2 (.inr ((hkeys path).2 hin)))
    · intro hout
      rw [← mem_paths_filesOf] at hout
      rw [if_neg (not_or.2 ⟨by simp [hbelow], hout⟩), ite_self]
  · have hnone : path ∉ Table.keys
        ((filesOf format ws).map fun f => ((dir.child f.1).toString, f.2)).reverse := by
      rw [Table.keys, List.map_reverse, List.mem_reverse]
      intro hin
      obtain ⟨w, -, rfl⟩ := (hkeys path).1 hin
      rw [Sheet.place, Path.isBelow_child hdir (w.isPart_file hformat)] at hbelow
      cases hbelow
    have hany : ([dir, out].any fun d => isProbe d path) = isProbe out path := by
      simp [isProbe_of_not_below hbelow]
    have hsame : disk'.get? path = disk.get? path := by
      rw [get?_of_update h, if_pos (.inl hbelow), Table.get?_update_reverse,
        Table.get?_eq_none_iff.2 hnone, Option.none_or]
    rw [get?_removeProbes, hany, hsame]
  · rintro before w after rfl hafter
    have hw : w ∈ before ++ w :: after := List.mem_append_right _ List.mem_cons_self
    rw [get?_removeProbes, if_neg (hprobe _ ⟨w, hw, rfl⟩), get?_of_update h,
      if_pos (.inr (mem_paths_filesOf.2 ⟨w, hw, rfl⟩)), get?_paths_filesOf hformat hdir hafter]

/-- **What a run leaves.** -/
theorem holds_run {sys : System} {p : Probing} (hdir : dir.Proper)
    (h : (run tree ignoreFiles sys out dir fullname s disk p).error = none) :
    ∃ ws, Visit.pages tree ignoreFiles { s with options := withPageDefaults s.options }
        ⟨s.depth.toNat, true, false, none, fullname⟩ = .ok ws ∧
      (s.format = "rst" ∨ s.format = "md") ∧
      Holds out dir s.format ws disk (run tree ignoreFiles sys out dir fullname s disk p).disk := by
  obtain ⟨generated, stopped, hfiles⟩ :
    ∃ generated stopped, files tree ignoreFiles s fullname = (generated, stopped) := ⟨_, _, rfl⟩
  cases stopped with
  | some e =>
    simp only [run, hfiles] at h
    cases h
  | none =>
    obtain ⟨ws, hws, rfl⟩ := exists_pages_of_files hfiles
    obtain ⟨w, rest, rfl, -⟩ := rest_pages hws
    have hformat := format_of_pageText (made_of_mem_pages hws w List.mem_cons_self).text
    refine ⟨_, hws, hformat, ?_⟩
    simp only [run, hfiles] at h ⊢
    split at h
    · next disk' r hupdate =>
      exact holds_of_update hformat hdir hupdate
    · cases h

/-! ### Lists of files -/

/-- The list of files at the end of a page. -/
def toctree (format : String) (files : List String) : String :=
  if files.isEmpty then ""
  else if format = "rst" then
    "\n.. toctree::\n   :hidden:\n\n   " ++
      String.join (files.map fun file => "\n   " ++ file ++ "\n   ") ++ "\n"
  else
    "\n```\x7btoctree\x7d\n:hidden:\n\n" ++
      String.join (files.map fun file => "\n" ++ file ++ "\n") ++ "\n```\n"

/-- A text ends with a list of files, each of which stands on a line of its own. -/
def EndsWith (format text : String) (files : List String) : Prop :=
  (∃ start, text = start ++ toctree format files) ∧ ∀ file ∈ files, '\n' ∉ file.toList

/-- A file of a directory lists another one. -/
def Links (dir : Path) (format : String) (disk : Table String) (a b : String) : Prop :=
  ∃ text files, disk.get? (dir.child a).toString = some text ∧ EndsWith format text files ∧
    b ∈ files

theorem exists_restructured (p : Page) : ∃ start, p.restructured =
    start ++ toctree "rst" (p.below.map fun name => fileName name ++ "." ++ "rst") := by
  have hentry : ∀ name, "\n   " ++ fileName name ++ ".rst\n   " =
      "\n   " ++ (fileName name ++ "." ++ "rst") ++ "\n   " := by
    intro name
    rw [show ".rst\n   " = "." ++ ("rst" ++ "\n   ") by decide]
    simp only [String.append_assoc]
  have htree : (if p.below.isEmpty then "" else "\n.. toctree::\n   :hidden:\n\n   " ++
      String.join (p.below.map fun name => "\n   " ++ fileName name ++ ".rst\n   ") ++ "\n") =
      toctree "rst" (p.below.map fun name => fileName name ++ "." ++ "rst") := by
    simp only [toctree, List.isEmpty_map, if_true, hentry, List.map_map, Function.comp_def]
  unfold Page.restructured
  exact ⟨_, congrArg (fun list => _ ++ list) htree⟩

theorem exists_markdown (p : Page) : ∃ start, p.markdown =
    start ++ toctree "md" (p.below.map fun name => fileName name ++ "." ++ "md") := by
  have hentry : ∀ name, "\n" ++ fileName name ++ ".md\n" =
      "\n" ++ (fileName name ++ "." ++ "md") ++ "\n" := by
    intro name
    rw [show ".md\n" = "." ++ ("md" ++ "\n") by decide]
    simp only [String.append_assoc]
  have hformat : ("md" = "rst") = False := by decide
  have htree : (if p.below.isEmpty then "" else "\n```\x7btoctree\x7d\n:hidden:\n\n" ++
      String.join (p.below.map fun name => "\n" ++ fileName name ++ ".md\n") ++ "\n```\n") =
      toctree "md" (p.below.map fun name => fileName name ++ "." ++ "md") := by
    simp only [toctree, List.isEmpty_map, hformat, if_false, hentry, List.map_map,
      Function.comp_def]
  unfold Page.markdown
  exact ⟨_, congrArg (fun list => _ ++ list) htree⟩

theorem exists_start_of_pageText {p : Page} {text : String} (h : pageText format p = .ok text) :
    ∃ start, text =
      start ++ toctree format (p.below.map fun name => fileName name ++ "." ++ format) := by
  unfold pageText at h
  split at h
  · rw [← Except.ok.inj h]
    exact exists_restructured p
  · rw [← Except.ok.inj h]
    exact exists_markdown p
  · cases h

/-- A page ends with the list of the files of the pages below it. -/
theorem Sheet.Made.endsWith (h : w.Made tree ignoreFiles s) :
    EndsWith s.format w.text (w.entries s.format) := by
  obtain ⟨l, hpage, hbelow⟩ := exists_layout h.page
  have hkeys : w.page.below = w.below.keys := by rw [hpage, hbelow]; rfl
  refine ⟨?_, fun file hfile => ?_⟩
  · rw [Sheet.entries, ← hkeys]
    exact exists_start_of_pageText h.text
  · obtain ⟨name, -, rfl⟩ := List.mem_map.1 hfile
    have hname : '\n' ∉ (fileName name).toList := notMem_fileName (by decide) (by decide) name
    rcases format_of_pageText h.text with hrst | hmd
    · simp [hrst, hname]
    · simp [hmd, hname]

/-- Every file that a page lists is that of a page. -/
theorem exists_sheet_of_mem_entries (h : v.pages tree ignoreFiles s = .ok ws) (hw : w ∈ ws)
    {file : String} (hfile : file ∈ w.entries format) :
    ∃ w' ∈ ws, w.Lists w' ∧ w'.file format = file := by
  obtain ⟨name, hname, rfl⟩ := List.mem_map.1 hfile
  obtain ⟨c, hc, rfl⟩ := List.mem_map.1 hname
  obtain ⟨w', hw', hvisit⟩ := exists_sheet_of_mem_below h w hw c hc
  refine ⟨w', hw', ⟨c, hc, hvisit⟩, ?_⟩
  rw [Sheet.file, hvisit]
  rfl

theorem Sheet.Lists.file_mem_entries (h : w.Lists w') : w'.file format ∈ w.entries format := by
  obtain ⟨c, hc, hvisit⟩ := h
  refine List.mem_map.2 ⟨c.1, List.mem_map_of_mem hc, ?_⟩
  rw [Sheet.file, hvisit]
  rfl

/-- Of the pages with the file of a given one the last stays. -/
theorem Holds.exists_last (h : Holds out dir format ws disk disk') (hw : w ∈ ws) :
    ∃ w' ∈ ws, w'.file format = w.file format ∧
      disk'.get? (w.place dir format) = some w'.text := by
  obtain ⟨w', hfind⟩ := Option.isSome_iff_exists.1 (List.find?_isSome
    (p := fun w' => w'.file format == w.file format) |>.2
    ⟨w, List.mem_reverse.2 hw, beq_self_eq_true (w.file format)⟩)
  obtain ⟨hfile, after, before, hreverse, hafter⟩ := List.find?_eq_some_iff_append.1 hfind
  have hws : ws = before.reverse ++ w' :: after.reverse := by
    rw [← List.reverse_reverse ws, hreverse]
    simp
  rw [beq_iff_eq] at hfile
  refine ⟨w', hws ▸ List.mem_append_right _ List.mem_cons_self, hfile, ?_⟩
  have hlast := h.last _ w' _ hws fun w'' hw'' => by
    simpa [hfile] using hafter w'' (List.mem_reverse.1 hw'')
  rwa [Sheet.place, hfile] at hlast

/-- A file is reached from the index of its directory. -/
def Reached (dir : Path) (format : String) (disk : Table String) (file : String) : Prop :=
  Relation.ReflTransGen (Links dir format disk) ("index" ++ "." ++ format) file

/-- Where pages with the same file list the same files, all files are reached from the index. -/
theorem Holds.reaches (hpages : v.pages tree ignoreFiles s = .ok ws) (hfirst : v.first = true)
    (h : Holds out dir s.format ws disk disk')
    (hsame : ∀ w ∈ ws, ∀ w' ∈ ws, w.file s.format = w'.file s.format →
      w.entries s.format = w'.entries s.format) :
    ∀ w ∈ ws, Reached dir s.format disk' (w.file s.format) := by
  obtain ⟨root, rest, hws, hroot, hreach⟩ := reaches_of_mem_pages hpages
  intro w hw
  induction hreach w hw with
  | refl =>
    rw [Reached, Sheet.file, hroot, if_pos hfirst]
  | tail _ hstep ih =>
    obtain ⟨ha, hb, hlists⟩ := hstep
    refine (ih ha).tail ?_
    obtain ⟨a', ha', hfile, htext⟩ := h.exists_last ha
    refine ⟨_, _, htext, (made_of_mem_pages hpages a' ha').endsWith, ?_⟩
    rw [hsame a' ha' _ ha hfile]
    exact hlists.file_mem_entries

/-! ### Tidy trees -/

theorem Layout.division_congr {deeper deeper' : Bool} {fullname' : String}
    (l : Layout tree ignoreFiles s deeper fullname)
    (l' : Layout tree ignoreFiles s deeper' fullname') (hdeeper : deeper = deeper')
    (hname : fullname = fullname') : l.division = l'.division := by
  subst hdeeper hname
  rw [l.unique l']

theorem Layout.object_congr {deeper deeper' : Bool} {fullname' : String}
    (l : Layout tree ignoreFiles s deeper fullname)
    (l' : Layout tree ignoreFiles s deeper' fullname') (hname : fullname = fullname') :
    l.object = l'.object := by
  subst hname
  exact Option.some.inj (l.at?_object.symm.trans l'.at?_object)

/-- In a tidy tree the names of pages are normal. -/
theorem Sheet.Made.normalize_fullname (htidy : tree.Tidy) (h : w.Made tree ignoreFiles s) :
    Name.normalize w.fullname = w.fullname := by
  obtain ⟨l, -, -⟩ := exists_layout h.page
  refine Name.normalize_of_isNormal (Name.isNormal_of_isAddress fun n hn => ?_)
  exact htidy.names _ (Object.mem_entries_of_at? (Object.splitString_ne_nil _ _) l.at?_object) n hn

/-- In a tidy tree pages of globals are not about modules, and the other pages stand as deep as
their names are long. -/
theorem level_of_mem_pages (htidy : tree.Tidy) (h : v.pages tree ignoreFiles s = .ok ws)
    (hv : v.isGlobal = false) :
    ∀ w ∈ ws, (w.isGlobal = true →
        ∀ deeper, ∀ l : Layout tree ignoreFiles s deeper w.fullname,
          l.object.kind? ≠ some .module_) ∧
      (w.isGlobal = false → (splitString '.' w.fullname).length + w.depth =
        (splitString '.' v.fullname).length + v.depth) := by
  obtain ⟨root, rest, hws, hroot, hreach⟩ := reaches_of_mem_pages h
  intro w hw
  induction hreach w hw with
  | refl =>
    rw [hroot]
    refine ⟨fun hglobal => ?_, fun _ => rfl⟩
    rw [hv] at hglobal
    cases hglobal
  | @tail a b _ hstep ih =>
    obtain ⟨ha, hb, hlists⟩ := hstep
    have hmade := made_of_mem_pages h a ha
    obtain ⟨hglobal, hlocal⟩ := ih ha
    refine ⟨fun hb deeper l => hmade.kind_of_global htidy hlists hb l, fun hb => ?_⟩
    obtain ⟨c, hc, hvisit⟩ := hlists
    obtain ⟨l, m, hm, -, hname, htop⟩ := hmade.exists_member hc
    have hdepth : a.depth ≠ 0 := fun hzero => by
      rw [hmade.below_of_depth hzero] at hc
      cases hc
    have halocal : a.isGlobal = false := Bool.eq_false_iff.2 fun htrue => by
      obtain ⟨l', -, hbelow⟩ := exists_layout hmade.page
      rw [hbelow, Layout.below_of_kind (hglobal htrue _ l')] at hc
      cases hc
    have hbname : b.fullname = childName a.fullname m := by rw [hvisit, hname]; rfl
    have hbdepth : b.depth = a.depth - 1 := by rw [hvisit]; rfl
    have hbglobal : b.isGlobal = c.2 := by rw [hvisit]; rfl
    rw [← hbglobal, hb] at htop
    have hpath : m.path = splitString '.' a.fullname ++ [m.name] := by
      rcases l.member_cases hm with ⟨hpath, -⟩ | ⟨hpath, -, -⟩
      · exact hpath
      · rw [(l.toplevel_iff htidy.toMarked hm).2 hpath] at htop
        cases htop
    have hlevel := hlocal halocal
    rw [hbname, l.splitString_childName htidy.toMarked htidy.undotted hm, hpath,
      List.length_append, List.length_singleton, hbdepth]
    omega

/-- In a tidy tree pages of the same object list the same pages. -/
theorem below_eq_of_fullname (htidy : tree.Tidy) (h : v.pages tree ignoreFiles s = .ok ws)
    (hv : v.isGlobal = false) (hw : w ∈ ws) (hw' : w' ∈ ws) (hname : w.fullname = w'.fullname) :
    w.below = w'.below := by
  obtain ⟨l, -, hbelow⟩ := exists_layout (made_of_mem_pages h w hw).page
  obtain ⟨l', -, hbelow'⟩ := exists_layout (made_of_mem_pages h w' hw').page
  have hobject := l.object_congr l' hname
  rw [hbelow, hbelow']
  by_cases hkind : l.object.kind? = some .module_
  · obtain ⟨hglobal, hlocal⟩ := level_of_mem_pages htidy h hv w hw
    obtain ⟨hglobal', hlocal'⟩ := level_of_mem_pages htidy h hv w' hw'
    have hlevel := hlocal (Bool.eq_false_iff.2 fun htrue => hglobal htrue _ l hkind)
    have hlevel' := hlocal' (Bool.eq_false_iff.2 fun htrue =>
      hglobal' htrue _ l' (hobject ▸ hkind))
    have hdepth : w.depth = w'.depth := by
      rw [hname] at hlevel
      omega
    rw [l.division_congr l' (by rw [hdepth]) hname]
  · rw [Layout.below_of_kind hkind, Layout.below_of_kind (hobject ▸ hkind)]

/-- In a tidy tree no other page is about the object of the first one. -/
theorem fullname_ne_of_rest {root : Sheet} {rest : List Sheet} (htidy : tree.Tidy)
    (h : v.pages tree ignoreFiles s = .ok (root :: rest)) (hv : v.isGlobal = false)
    (hw : w ∈ rest) : w.fullname ≠ root.fullname := by
  intro hname
  obtain ⟨_, _, hws, hroot, hrest⟩ := rest_pages h
  obtain ⟨rfl, rfl⟩ := List.cons.inj hws
  have hdepth : w.depth < root.depth := by
    rw [hroot]
    exact (hrest w hw).2
  have hmem : w ∈ root :: rest := List.mem_cons_of_mem _ hw
  obtain ⟨hglobal, hlocal⟩ := level_of_mem_pages htidy h hv w hmem
  cases hw : w.isGlobal with
  | false =>
    have hlevel := hlocal hw
    rw [hname, ← hroot] at hlevel
    omega
  | true =>
    obtain ⟨l, -, hbelow⟩ := exists_layout (made_of_mem_pages h root List.mem_cons_self).page
    obtain ⟨l', -, -⟩ := exists_layout (made_of_mem_pages h w hmem).page
    rw [Layout.below_of_kind (l'.object_congr l hname ▸ hglobal hw _ l')] at hbelow
    -- something is listed on the first page if there are others
    obtain ⟨_, _, hws, -, hreach⟩ := reaches_of_mem_pages h
    obtain ⟨rfl, rfl⟩ := List.cons.inj hws
    rcases (hreach w hmem).cases_head with rfl | ⟨b, ⟨-, -, c, hc, -⟩, -⟩
    · omega
    · rw [hbelow] at hc
      cases hc

/-- In a tidy tree distinct objects have distinct files exactly if no page but the first one could
be called `index`. -/
theorem distinct_iff {root : Sheet} {rest : List Sheet} (format : String) (htidy : tree.Tidy)
    (h : v.pages tree ignoreFiles s = .ok (root :: rest)) (hv : v.isGlobal = false)
    (hfirst : v.first = true) :
    (∀ w ∈ root :: rest, ∀ w' ∈ root :: rest,
        w.file format = w'.file format ↔ w.fullname = w'.fullname) ↔
      ∀ w ∈ rest, w.fullname ≠ "index" := by
  obtain ⟨_, _, hws, hroot, hrest⟩ := rest_pages h
  obtain ⟨rfl, rfl⟩ := List.cons.inj hws
  have hmade := made_of_mem_pages h
  have hindex : root.key = "index" := by
    rw [Sheet.key, hroot, if_pos hfirst]
  have hkey : ∀ w ∈ rest, w.key = w.fullname := by
    intro w hw
    rw [Sheet.key, (hrest w hw).1, if_neg Bool.false_ne_true,
      (hmade w (List.mem_cons_of_mem _ hw)).normalize_fullname htidy]
  simp only [Sheet.file_eq_iff]
  constructor
  · intro hall w hw hname
    have hmem : w ∈ root :: rest := List.mem_cons_of_mem _ hw
    refine fullname_ne_of_rest htidy h hv hw ((hall w hmem root List.mem_cons_self).1 ?_)
    rw [hkey w hw, hname, hindex]
  · intro hnot w hw w' hw'
    rcases List.mem_cons.1 hw with rfl | hrest
    · rcases List.mem_cons.1 hw' with rfl | hrest'
      · simp only
      · rw [hindex, hkey w' hrest']
        exact iff_of_false (hnot w' hrest').symm (fullname_ne_of_rest htidy h hv hrest').symm
    · rcases List.mem_cons.1 hw' with rfl | hrest'
      · rw [hindex, hkey w hrest]
        exact iff_of_false (hnot w hrest) (fullname_ne_of_rest htidy h hv hrest)
      · rw [hkey w hrest, hkey w' hrest']

/-- The directory of a run whose first page is `root`, as it was left on the disk `disk'`. -/
structure Directory (tree : Object) (out dir : Path) (format : String) (root : Sheet)
    (rest : List Sheet) (disk disk' : Table String) : Prop extends
    Holds out dir format (root :: rest) disk disk' where
  key_root : root.key = "index"
  key_rest : ∀ w ∈ rest, w.key = Name.normalize w.fullname
  /-- Files are shared exactly by pages whose keys agree. -/
  shared_iff : ∀ w ∈ root :: rest, ∀ w' ∈ root :: rest,
    w.place dir format = w'.place dir format ↔ w.key = w'.key
  endsWith : ∀ w ∈ root :: rest, EndsWith format w.text (w.entries format)
  /-- What pages list is there. -/
  listed : ∀ w ∈ root :: rest, ∀ file ∈ w.entries format, ∃ w' ∈ rest, w'.file format = file
  /-- All files are reached if pages with one key list the same files. -/
  reached : (∀ w ∈ root :: rest, ∀ w' ∈ root :: rest,
      w.key = w'.key → w.entries format = w'.entries format) →
    ∀ w ∈ root :: rest, Reached dir format disk' (w.file format)
  /-- In a tidy tree distinct objects have distinct files exactly if no object but the first is
  called `index`. -/
  distinct : tree.Tidy →
    ((∀ w ∈ root :: rest, ∀ w' ∈ root :: rest,
        w.file format = w'.file format ↔ w.fullname = w'.fullname) ↔
      ∀ w ∈ rest, w.fullname ≠ "index")
  /-- Then the index stays, and all files are reached from it. -/
  index : tree.Tidy → (∀ w ∈ rest, w.fullname ≠ "index") →
    disk'.get? (root.place dir format) = some root.text ∧
    ∀ w ∈ root :: rest, Reached dir format disk' (w.file format)

/-- **The directory of a run that ends well.** It holds the files of the pages and no others, the
last page of a file stays, and files are shared exactly by pages whose keys agree. Pages list files
that are there. All files are reached from the index if pages with one key list the same files; in a
tidy tree distinct objects have distinct files, the index stays and all files are reached from it if
no object but the first is called `index`. -/
theorem directory_of_run {sys : System} {p : Probing} (hdir : dir.Proper)
    (h : (run tree ignoreFiles sys out dir fullname s disk p).error = none) :
    ∃ root rest, Visit.pages tree ignoreFiles { s with options := withPageDefaults s.options }
        ⟨s.depth.toNat, true, false, none, fullname⟩ = .ok (root :: rest) ∧
      root.fullname = fullname ∧
      Directory tree out dir s.format root rest disk
        (run tree ignoreFiles sys out dir fullname s disk p).disk := by
  obtain ⟨ws, hpages, hformat, hholds⟩ := holds_run hdir h
  obtain ⟨root, rest, rfl, hroot, hrest⟩ := rest_pages hpages
  have hreaches := Holds.reaches (s := { s with options := withPageDefaults s.options }) hpages rfl
    hholds
  refine ⟨root, rest, hpages, congrArg Visit.fullname hroot, hholds, ?_, ?_, ?_, ?_, ?_, ?_, ?_, ?_⟩
  · rw [Sheet.key, hroot]
    rfl
  · intro w hw
    rw [Sheet.key, (hrest w hw).1, if_neg Bool.false_ne_true]
  · intro w _ w' _
    rw [Sheet.place_eq_iff hformat hdir, Sheet.file_eq_iff]
  · exact fun w hw => (made_of_mem_pages hpages w hw).endsWith
  · intro w hw file hfile
    obtain ⟨w', hw', ⟨c, -, hvisit⟩, hfile⟩ := exists_sheet_of_mem_entries hpages hw hfile
    refine ⟨w', (List.mem_cons.1 hw').resolve_left ?_, hfile⟩
    rintro rfl
    rw [hroot] at hvisit
    cases congrArg Visit.first hvisit
  · intro hsame
    refine hreaches fun w hw w' hw' hfile => ?_
    exact hsame w hw w' hw' (Sheet.file_eq_iff.1 hfile)
  · exact fun htidy => distinct_iff s.format htidy hpages rfl rfl
  · intro htidy hnot
    have hdistinct := (distinct_iff s.format htidy hpages rfl rfl).2 hnot
    refine ⟨hholds.last [] root rest rfl fun w hw hfile => ?_, ?_⟩
    · have hmem : w ∈ root :: rest := List.mem_cons_of_mem _ hw
      refine fullname_ne_of_rest htidy hpages rfl hw ?_
      exact (hdistinct w hmem root List.mem_cons_self).1 hfile
    · refine hreaches fun w hw w' hw' hfile => ?_
      rw [Sheet.entries, Sheet.entries, below_eq_of_fullname htidy hpages rfl hw hw'
        ((hdistinct w hw w' hw').1 hfile)]

/-- The module `m`, and a global `index` that is defined in its file. -/
def indexTree : Object :=
  ⟨.unknown false, .bare,
    [("m", ⟨{ Object.Details.unknown false with files := [⟨"", ["m.lua"]⟩] }, .bare, []⟩),
      ("index", ⟨{ Object.Details.unknown false with
        files := [⟨"", ["m.lua"]⟩], toplevel := true }, .data none none, []⟩)]⟩

/-- All members and globals get pages. -/
def globalSettings : Settings :=
  { pageSettings with options := ("globals", .all) :: pageSettings.options }

/-- Generates the pages of the module `m` into the directory `api`. -/
def runOf (tree : Object) (s : Settings) (disk : Table String) : Outcome :=
  run tree false ⟨"linux", 0⟩ ⟨"", ["out"]⟩ ⟨"", ["api"]⟩ "m" s disk ⟨[], []⟩

/-- The pages of the module `m`. -/
def pagesOf (tree : Object) (s : Settings) : Except Error (List Sheet) :=
  Visit.pages tree false { s with options := withPageDefaults s.options }
    ⟨s.depth.toNat, true, false, none, "m"⟩

/-- The names and the files of pages. -/
def outline (r : Except Error (List Sheet)) : Option (List (String × String)) :=
  r.toOption.map fun ws => ws.map fun w => (w.fullname, w.file "rst")

theorem exists_of_outline {root : Sheet} {rest : List Sheet} {a b : String × String}
    (h : outline (.ok (root :: rest)) = some [a, b]) :
    ∃ w, rest = [w] ∧ (root.fullname = a.1 ∧ root.file "rst" = a.2) ∧
      w.fullname = b.1 ∧ w.file "rst" = b.2 := by
  have hrows : (root :: rest).map (fun w => (w.fullname, w.file "rst")) = [a, b] :=
    Option.some.inj h
  obtain ⟨w, rfl⟩ : ∃ w, rest = [w] := by
    refine List.length_eq_one_iff.1 ?_
    simpa using congrArg List.length hrows
  simp only [List.map_cons, List.map_nil, List.cons.injEq, and_true] at hrows
  exact ⟨w, rfl, Prod.mk.inj hrows.1, Prod.mk.inj hrows.2⟩

/-- The page of a global `index` is written over the first one. In the directory of a module with a
variable both pages stay, and a file that was there before does not. -/
theorem directory_of_index :
    (∃ root w : Sheet, pagesOf indexTree globalSettings = .ok [root, w] ∧
      root.fullname = "m" ∧ w.fullname = "index" ∧
      (runOf indexTree globalSettings []).disk.get? (root.place ⟨"", ["api"]⟩ "rst") =
        some w.text) ∧
    Reached ⟨"", ["api"]⟩ "rst"
      (runOf (moduleTree "x") pageSettings [("api/old.rst", "")]).disk "m.x.rst" ∧
    "api/old.rst" ∉ (runOf (moduleTree "x") pageSettings [("api/old.rst", "")]).disk.keys := by
  have hdir : Path.Proper ⟨"", ["api"]⟩ := by
    have hread := Path.proper_ofString "api"
    rwa [show Path.ofString "api" = ⟨"", ["api"]⟩ by decide +kernel] at hread
  constructor
  · have herror : (runOf indexTree globalSettings []).error = none := by decide +kernel
    have houtline : outline (pagesOf indexTree globalSettings) =
        some [("m", "index.rst"), ("index", "index.rst")] := by decide +kernel
    obtain ⟨root, rest, hpages, -, hdirectory⟩ := directory_of_run hdir herror
    obtain ⟨w, rfl, ⟨hroot, hfile⟩, hw, hfile'⟩ :=
      exists_of_outline ((congrArg outline hpages).symm.trans houtline)
    refine ⟨root, w, hpages, hroot, hw, ?_⟩
    have hlast := hdirectory.last [root] w [] rfl (List.forall_mem_nil _)
    rwa [Sheet.place, show globalSettings.format = "rst" from rfl, hfile', ← hfile] at hlast
  · have herror : (runOf (moduleTree "x") pageSettings [("api/old.rst", "")]).error = none := by
      decide +kernel
    have houtline : outline (pagesOf (moduleTree "x") pageSettings) =
        some [("m", "index.rst"), ("m.x", "m.x.rst")] := by decide +kernel
    obtain ⟨root, rest, hpages, -, hdirectory⟩ := directory_of_run hdir herror
    obtain ⟨w, rfl, ⟨-, hfile⟩, hw, hfile'⟩ :=
      exists_of_outline ((congrArg outline hpages).symm.trans houtline)
    constructor
    · have hnot : ∀ w' ∈ [w], w'.fullname ≠ "index" := by
        rw [List.forall_mem_singleton, hw]
        decide
      have hreached := (hdirectory.index tidy_moduleTree hnot).2 w (by simp)
      rwa [show pageSettings.format = "rst" from rfl, hfile'] at hreached
    · rw [runOf, hdirectory.inside "api/old.rst" (by decide +kernel)]
      simp only [List.mem_cons, List.not_mem_nil, or_false, exists_eq_or_imp, exists_eq_left,
        Sheet.place, show pageSettings.format = "rst" from rfl, hfile, hfile']
      decide +kernel

end LuaDocs.Apidoc
