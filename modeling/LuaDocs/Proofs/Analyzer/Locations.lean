import LuaDocs.Analyzer.EmmyLua
import LuaDocs.Proofs.Except
import LuaDocs.Proofs.Path

/-!
# Where members and types are defined

A member has one location and a type has a list of locations. The file of a member is noted as it is
written and the file of a type as it is resolved, so that a member and a type at the same location
are told to be in the same place only if the file as it is written leads to itself.
-/

namespace LuaDocs.EmmyLua

open Analysis Json Object

section

variable [FileSystem] {project : Path} {loc data : Json} {file : String} {line : Int} {d : Details}

/-- The document gives the file and the line of a location. -/
structure IsLocation (loc : Json) (file : String) (line : Int) : Prop where
  file : loc.item "file" = .ok (.str file)
  line : ∃ number, loc.item "line" = .ok number ∧ number.whole = .ok line

/-- The file of a location, seen from the project. -/
def writtenFile (project : Path) (file : String) : Path := project.join (.ofString file)

omit [FileSystem] in
theorem IsLocation.isTrue (h : IsLocation loc file line) : loc.isTrue = true := by
  have hfile := h.file
  rw [item.eq_def] at hfile
  split at hfile
  · next members =>
    cases members with
    | nil => cases hfile
    | cons row rest => rfl
  · cases hfile

omit [FileSystem] in
theorem IsLocation.fileOf (h : IsLocation loc file line) (project : Path) :
    fileOf project loc = .ok (writtenFile project file) := by
  rw [EmmyLua.fileOf, Except.bind_of_ok h.file]
  rfl

omit [FileSystem] in
theorem IsLocation.lineOf (h : IsLocation loc file line) : lineOf loc = .ok (line - 1) := by
  obtain ⟨number, hitem, hwhole⟩ := h.line
  rw [EmmyLua.lineOf, Except.bind_of_ok hitem, Except.bind_of_ok hwhole]
  rfl

/-- The details of a member at a location. -/
theorem located_of_isLocation (h : IsLocation loc file line)
    (hdata : data.entryOr "loc" .null = .ok loc) :
    located project data d = .ok { d with
      files := [writtenFile project file]
      foreign := !(writtenFile project file).isBelow project
      commentFile := some (writtenFile project file).resolve
      line := some (line - 1) } := by
  have hlook : look (data.entryOr "loc" .null) = .ok loc := by rw [hdata]; rfl
  rw [located, Except.bind_of_ok hlook, h.isTrue]
  show (fileOf project loc >>= _) = _
  rw [Except.bind_of_ok (h.fileOf project), Except.bind_of_ok h.lineOf]
  rfl

/-- The details of a type with one location. -/
theorem locatedAll_of_isLocation (h : IsLocation loc file line)
    (hdata : data.entryOr "loc" .null = .ok (.arr [loc])) :
    locatedAll project data d = .ok { d with
      files := [(writtenFile project file).resolve]
      foreign := !(writtenFile project file).resolve.isBelow project
      commentFile := some (writtenFile project file).resolve
      line := some (line - 1) } := by
  have hlook : look (data.entryOr "loc" .null) = .ok (.arr [loc]) := by rw [hdata]; rfl
  have hfiles : ([loc].mapM fun loc => do return (← fileOf project loc).resolve) =
      (.ok [(writtenFile project file).resolve] : Reader (List Path)) := by
    rw [List.mapM_cons, Except.bind_of_ok (h.fileOf project)]
    rfl
  rw [locatedAll, Except.bind_of_ok hlook]
  show (([loc].mapM fun loc => do return (← fileOf project loc).resolve) >>= _) = _
  rw [Except.bind_of_ok hfiles]
  show (fileOf project loc >>= _) = _
  rw [Except.bind_of_ok (h.fileOf project), Except.bind_of_ok h.lineOf, List.all_cons, List.all_nil,
    Bool.and_true]
  rfl

omit [FileSystem] in
/-- A file that is written from the project lies in it as it is written. -/
theorem isBelow_writtenFile (h : (Path.ofString file).isAbsolute = false) :
    (writtenFile project file).isBelow project = true := by
  rw [writtenFile, Path.join, if_neg (by simp [h]), Path.isBelow]
  simp

/-- **A member and a type at the same location** have the same file of documentation and the same
line. They have the same files, and agree altogether, exactly if the file as it is written leads to
itself. Whether they belong to the project is seen from the file as it is resolved for the type, and
from the file as it is written for the member, so that a member whose file is written from the
project belongs to it wherever the file is. -/
theorem located_eq_locatedAll_iff (project : Path) (member type : Json)
    (hloc : IsLocation loc file line) (hmember : member.entryOr "loc" .null = .ok loc)
    (htype : type.entryOr "loc" .null = .ok (.arr [loc])) (d : Details) :
    ∃ m t, located project.resolve member d = .ok m ∧ locatedAll project.resolve type d = .ok t ∧
      m.commentFile = t.commentFile ∧ m.line = t.line ∧
      (m = t ↔
        (writtenFile project.resolve file).resolve = writtenFile project.resolve file) ∧
      (m.files = t.files ↔
        (writtenFile project.resolve file).resolve = writtenFile project.resolve file) ∧
      t.foreign = !(writtenFile project.resolve file).resolve.isBelow project.resolve ∧
      m.foreign = !(writtenFile project.resolve file).isBelow project.resolve ∧
      ((Path.ofString file).isAbsolute = false → m.foreign = false) := by
  have hfiles : [writtenFile project.resolve file] = [(writtenFile project.resolve file).resolve] ↔
      (writtenFile project.resolve file).resolve = writtenFile project.resolve file := by
    rw [List.singleton_inj, eq_comm]
  refine ⟨_, _, located_of_isLocation hloc hmember, locatedAll_of_isLocation hloc htype, rfl, rfl,
    ⟨fun heq => ?_, fun hsame => ?_⟩, hfiles, rfl, rfl, fun hrelative => ?_⟩
  · exact hfiles.1 (congrArg Details.files heq)
  · rw [hsame]
  · rw [isBelow_writtenFile hrelative]
    rfl

end

/-- A location outside the project, written from the project. -/
def outerLocation : Json := .obj [("file", .str "../other/a.lua"), ("line", .int 3)]

attribute [local instance] FileSystem.linkless

/-- At a location outside the project, a type does not belong to the project and a member does. -/
theorem located_outerLocation :
    IsLocation outerLocation "../other/a.lua" 3 ∧
      ∃ m t, located (Path.ofString "/proj").resolve (.obj [("loc", outerLocation)])
          (.unknown false) = .ok m ∧
        locatedAll (Path.ofString "/proj").resolve (.obj [("loc", .arr [outerLocation])])
          (.unknown false) = .ok t ∧
        m.files ≠ t.files ∧ m.foreign = false ∧ t.foreign = true := by
  have hloc : IsLocation outerLocation "../other/a.lua" 3 := ⟨rfl, .int 3, rfl, rfl⟩
  obtain ⟨m, t, hm, ht, -, -, -, hfiles, hforeign, -, hrelative⟩ :=
    located_eq_locatedAll_iff (Path.ofString "/proj") (.obj [("loc", outerLocation)])
      (.obj [("loc", .arr [outerLocation])]) hloc rfl rfl (.unknown false)
  have helsewhere : (writtenFile (Path.ofString "/proj").resolve "../other/a.lua").resolve ≠
      writtenFile (Path.ofString "/proj").resolve "../other/a.lua" := by
    decide +kernel
  refine ⟨hloc, m, t, hm, ht, mt hfiles.1 helsewhere, hrelative (by decide +kernel), ?_⟩
  rw [hforeign]
  decide +kernel

end LuaDocs.EmmyLua
