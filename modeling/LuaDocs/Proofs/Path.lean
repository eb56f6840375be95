import LuaDocs.Path
import LuaDocs.Proofs.Text.Split

/-!
# Paths as they are written

A path that was read is written in such a way that reading it gives the path back, and so is a file
in a directory that was read. Two files in one directory are written alike only if they have the
same name.
-/

namespace LuaDocs.Path

open Text

variable {dir p : Path} {s t : String}

/-- The text is read as one component. -/
def IsPart (s : String) : Prop := s ≠ "" ∧ s ≠ "." ∧ '/' ∉ s.toList

/-- The path can be read: it starts with two slashes at most, and its components say something. -/
structure Proper (p : Path) : Prop where
  root : p.root = "" ∨ p.root = "/" ∨ p.root = "//"
  parts : ∀ part ∈ p.parts, IsPart part

theorem proper_ofString (s : String) : (ofString s).Proper := by
  refine ⟨?_, fun part hpart => ?_⟩
  · show rootOf s.toList = "" ∨ rootOf s.toList = "/" ∨ rootOf s.toList = "//"
    unfold rootOf
    split
    · exact .inl rfl
    · exact .inr (.inr rfl)
    · exact .inr (.inl rfl)
  · obtain ⟨hmem, hnames⟩ := List.mem_filter.1 hpart
    rw [Bool.and_eq_true, bne_iff_ne, bne_iff_ne] at hnames
    exact ⟨hnames.1, hnames.2, notMem_of_mem_splitString hmem⟩

theorem filter_parts {parts : List String} (h : ∀ part ∈ parts, IsPart part) :
    (parts.filter fun p => p != "" && p != ".") = parts := by
  refine List.filter_eq_self.2 fun part hpart => ?_
  obtain ⟨hempty, hdot, -⟩ := h part hpart
  simp [hempty, hdot]

theorem rootOf_append {root : String} (hroot : root = "" ∨ root = "/" ∨ root = "//")
    {r : List Char} (hr : ∀ c ∈ r.head?, c ≠ '/') : rootOf (root.toList ++ r) = root := by
  have hrest : r.takeWhile (fun c => c == '/') = [] := by
    cases r with
    | nil => rfl
    | cons c r => rw [List.takeWhile_cons_of_neg (by simpa using hr c rfl)]
  rcases hroot with rfl | rfl | rfl
  · simp [rootOf, hrest]
  · simp [rootOf, hrest]
  · simp [rootOf, hrest]

theorem partsOf_append {root : String} (hroot : root = "" ∨ root = "/" ∨ root = "//")
    (s : String) : partsOf (root ++ s) = partsOf s := by
  have hslash : ∀ t, partsOf ("/" ++ t) = partsOf t := fun t => by
    have hsplit : splitString '/' ("/" ++ t) = "" :: splitString '/' t :=
      splitString_append '/' "" t
    rw [partsOf, hsplit, List.filter_cons_of_neg (by decide), partsOf]
  rcases hroot with rfl | rfl | rfl
  · rw [String.empty_append]
  · exact hslash s
  · rw [show "//" ++ s = "/" ++ ("/" ++ s) by rw [← String.append_assoc]; rfl, hslash, hslash]

/-- Reading undoes writing. -/
theorem ofString_toString (h : p.Proper) (hne : p.parts ≠ []) : ofString p.toString = p := by
  obtain ⟨root, parts⟩ := p
  have htext : toString ⟨root, parts⟩ = root ++ joinStrings '/' parts :=
    if_neg (by simpa using fun _ => hne)
  have hsplit : splitString '/' (joinStrings '/' parts) = parts :=
    splitString_joinStrings hne fun part hpart => (h.parts part hpart).2.2
  have hfirst : ∀ c ∈ (joinStrings '/' parts).toList.head?, c ≠ '/' := by
    obtain ⟨first, rest, rfl⟩ := List.exists_cons_of_ne_nil hne
    obtain ⟨hempty, -, hslash⟩ := h.parts first List.mem_cons_self
    obtain ⟨d, ds, hfirst⟩ := List.exists_cons_of_ne_nil fun hnil =>
      hempty (String.toList_eq_nil_iff.1 hnil)
    rw [joinStrings, String.toList_ofList, List.map_cons, hfirst]
    rw [hfirst] at hslash
    intro c hc
    have hd : c = d := by
      by_cases hrest : rest.map String.toList = []
      · rw [hrest] at hc
        simpa [joinWith, List.intercalate, eq_comm] using hc
      · rw [joinWith_cons_of_ne_nil hrest] at hc
        simpa [eq_comm] using hc
    rw [hd]
    exact fun heq => hslash (heq ▸ List.mem_cons_self)
  rw [htext, ofString, String.toList_append, rootOf_append h.root hfirst, partsOf_append h.root,
    partsOf, hsplit, filter_parts h.parts]

/-! ### Files of a directory -/

theorem ofString_of_isPart (h : IsPart s) : ofString s = ⟨"", [s]⟩ := by
  have hroot : rootOf s.toList = "" := by
    refine rootOf_append (.inl rfl) fun c hc => ?_
    rintro rfl
    exact h.2.2 (List.mem_of_mem_head? hc)
  rw [ofString, hroot, partsOf, splitString_of_notMem h.2.2,
    filter_parts (List.forall_mem_singleton.2 h)]

theorem child_of_isPart (h : IsPart s) : dir.child s = ⟨dir.root, dir.parts ++ [s]⟩ := by
  rw [child, ofString_of_isPart h, join, isAbsolute]
  rfl

/-- A file of a directory is read back. -/
theorem ofString_toString_child (hdir : dir.Proper) (h : IsPart s) :
    ofString (dir.child s).toString = ⟨dir.root, dir.parts ++ [s]⟩ := by
  rw [child_of_isPart h]
  refine ofString_toString ⟨hdir.root, ?_⟩ (List.append_ne_nil_of_right_ne_nil _ (by simp))
  exact List.forall_mem_append.2 ⟨hdir.parts, List.forall_mem_singleton.2 h⟩

/-- Files of a directory are written alike only if they have the same name. -/
theorem toString_child_inj (hdir : dir.Proper) (hs : IsPart s) (ht : IsPart t) :
    (dir.child s).toString = (dir.child t).toString ↔ s = t := by
  refine ⟨fun h => ?_, fun h => by rw [h]⟩
  have hread := congrArg ofString h
  rw [ofString_toString_child hdir hs, ofString_toString_child hdir ht] at hread
  simpa using hread

/-- A file of a directory lies in it. -/
theorem isBelow_child (hdir : dir.Proper) (h : IsPart s) :
    (ofString (dir.child s).toString).isBelow dir = true := by
  rw [ofString_toString_child hdir h]
  simp [isBelow]

end LuaDocs.Path
