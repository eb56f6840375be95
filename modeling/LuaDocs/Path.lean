import LuaDocs.Text.Split

/-!
# Paths of files

A path is a list of components below a root. Paths are compared as they are written, except that
empty components and components `.` are dropped. Nothing here looks at a disk: which path another
one leads to is what the file system says.
-/

namespace LuaDocs

open Text

/-- A path: the slashes it starts with (none for a relative path) and its components. -/
structure Path where
  /-- The slashes before the first component: none, one or two. -/
  root : String
  parts : List String
  deriving DecidableEq, Repr

/-- A file system: the path that another one leads to when the working directory, links and
components `..` are taken into account. Such a path leads to itself. -/
class FileSystem where
  resolve : Path → Path
  resolve_resolve (p : Path) : resolve (resolve p) = resolve p

namespace Path

/-- The slashes that stand for the root: two are kept, and any other number counts as one. -/
def rootOf (s : List Char) : String :=
  match (s.takeWhile fun c => c == '/').length with
  | 0 => ""
  | 2 => "//"
  | _ => "/"

/-- The components of a text that say something. -/
def partsOf (s : String) : List String :=
  (splitString '/' s).filter fun p => p != "" && p != "."

/-- Reads a path. -/
def ofString (s : String) : Path := ⟨rootOf s.toList, partsOf s⟩

/-- Writes a path; a relative path without components is written as a dot. -/
def toString (p : Path) : String :=
  if p.root.isEmpty && p.parts.isEmpty then "."
  else p.root ++ joinStrings '/' p.parts

/-- The path does not depend on a directory. -/
def isAbsolute (p : Path) : Bool := !p.root.isEmpty

/-- The path `q` seen from the directory `p`. -/
def join (p q : Path) : Path := if q.isAbsolute then q else ⟨p.root, p.parts ++ q.parts⟩

/-- A component below a directory. -/
def child (p : Path) (name : String) : Path := p.join (ofString name)

/-- The path that a path leads to. -/
def resolve [FileSystem] (p : Path) : Path := FileSystem.resolve p

/-- A path that is resolved stays as it is. -/
@[simp] theorem resolve_resolve [FileSystem] (p : Path) : p.resolve.resolve = p.resolve :=
  FileSystem.resolve_resolve p

/-- The path with the home directory of a user for a first component that starts with a tilde, where
`home` gives the directories of users; the user without a name is the one who runs the program. -/
def expandUser? (home : String → Option Path) (p : Path) : Option Path :=
  match p.isAbsolute, p.parts with
  | false, first :: rest =>
    match first.toList with
    | '~' :: user => (home (String.ofList user)).map fun dir => ⟨dir.root, dir.parts ++ rest⟩
    | _ => some p
  | _, _ => some p

/-- The path is the directory `dir` or lies in it. -/
def isBelow (p dir : Path) : Bool := p.root == dir.root && dir.parts.isPrefixOf p.parts

/-- The directory that holds the path. -/
def parent (p : Path) : Path := ⟨p.root, p.parts.dropLast⟩

/-- The last component. -/
def fileName (p : Path) : String := p.parts.getLast?.getD ""

/-! ### A file system without links -/

/-- The directory reached from another one by one component; the components of both stand in
reverse order. Nothing stands above the root. -/
def enter (reached : List String) (c : String) : List String :=
  if c == ".." then reached.tail else c :: reached

theorem up_notMem_foldl_enter {parts r : List String} (hr : ".." ∉ r) :
    ".." ∉ parts.foldl enter r := by
  refine List.foldlRecOn (motive := fun r => ".." ∉ r) _ _ hr fun r hr c _ => ?_
  unfold enter
  split
  · exact mt List.mem_of_mem_tail hr
  · next hc => exact mt List.mem_cons.1 (not_or.2 ⟨fun h => hc (by simp [← h]), hr⟩)

theorem foldl_enter_of_notMem {parts : List String} (h : ".." ∉ parts) (r : List String) :
    parts.foldl enter r = parts.reverse ++ r := by
  induction parts generalizing r with
  | nil => rfl
  | cons c parts ih =>
    obtain ⟨hc, hparts⟩ := not_or.1 (mt List.mem_cons.2 h)
    have henter : enter r c = c :: r := by rw [enter, if_neg (by simpa using Ne.symm hc)]
    rw [List.foldl_cons, henter, ih hparts, List.reverse_cons, List.append_assoc,
      List.singleton_append]

end Path

/-- A file system without links: components `..` lead to the directory above. -/
@[reducible] def FileSystem.linkless : FileSystem where
  resolve p := ⟨p.root, (p.parts.foldl Path.enter []).reverse⟩
  resolve_resolve p := by
    have hup : ".." ∉ (p.parts.foldl Path.enter []).reverse := by
      rw [List.mem_reverse]
      exact Path.up_notMem_foldl_enter List.not_mem_nil
    rw [Path.foldl_enter_of_notMem hup, List.append_nil, List.reverse_reverse]

end LuaDocs
