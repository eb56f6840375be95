import LuaDocs.Index

/-!
# Names made of parts

A full name is made of a module, a class and a name, any of which may be missing or empty. Which of
the parts are joined first makes no difference, so that a name below a class below a module is the
same as a name below what the module and the class make together. The names on a path of the tree
make the same full name as long as none of them is empty.
-/

namespace LuaDocs

open Text

variable {name : String} {path : List String}

namespace Text

variable {sep : Char}

theorem joinWith_cons_cons (sep : Char) (l m : List Char) (ls : List (List Char)) :
    joinWith sep (l :: m :: ls) = l ++ sep :: joinWith sep (m :: ls) :=
  joinWith_cons_of_ne_nil (List.cons_ne_nil m ls)

theorem joinWith_append {ls ms : List (List Char)} (hl : ls ≠ []) (hm : ms ≠ []) :
    joinWith sep (ls ++ ms) = joinWith sep [joinWith sep ls, joinWith sep ms] := by
  induction ls with
  | nil => exact absurd rfl hl
  | cons l rest ih =>
    cases rest with
    | nil =>
      rw [List.singleton_append, joinWith_cons_of_ne_nil hm]
      simp [joinWith, List.intercalate]
    | cons l' rest =>
      rw [List.cons_append, List.cons_append, joinWith_cons_cons, joinWith_cons_cons,
        ← List.cons_append, ih (List.cons_ne_nil _ _), joinWith_cons_cons, joinWith_cons_cons]
      simp

theorem joinWith_ne_nil {ls : List (List Char)} (hl : ls ≠ [])
    (h : ∀ l ∈ ls, l ≠ []) : joinWith sep ls ≠ [] := by
  cases ls with
  | nil => exact absurd rfl hl
  | cons l rest =>
    cases rest with
    | nil => simpa [joinWith, List.intercalate] using h l
    | cons m rest => simp [joinWith_cons_cons]

/-- Joining the parts of a text gives the text back. -/
theorem joinStrings_splitString (sep : Char) (s : String) :
    joinStrings sep (splitString sep s) = s := by
  rw [joinStrings, splitString, List.map_map]
  have hid : String.toList ∘ String.ofList = id := funext fun _ => String.toList_ofList
  rw [hid, List.map_id, joinWith_splitAt, String.ofList_toList]

theorem splitString_injective {s t : String}
    (h : splitString sep s = splitString sep t) : s = t := by
  rw [← joinStrings_splitString sep s, h, joinStrings_splitString]

@[simp] theorem joinStrings_nil (sep : Char) : joinStrings sep [] = "" := rfl

@[simp] theorem joinStrings_singleton (sep : Char) (name : String) :
    joinStrings sep [name] = name := by
  simp [joinStrings, joinWith, List.intercalate]

theorem joinStrings_append {p q : List String} (hp : p ≠ []) (hq : q ≠ []) :
    joinStrings sep (p ++ q) = joinStrings sep [joinStrings sep p, joinStrings sep q] := by
  simp only [joinStrings, List.map_append, List.map_cons, List.map_nil, String.toList_ofList]
  rw [joinWith_append (by simpa using hp) (by simpa using hq)]

theorem joinStrings_ne_empty (hp : path ≠ [])
    (h : ∀ name ∈ path, name ≠ "") : joinStrings sep path ≠ "" := by
  have hne : joinWith sep (path.map String.toList) ≠ [] := by
    refine joinWith_ne_nil (by simpa using hp) fun l hl => ?_
    obtain ⟨name, hname, rfl⟩ := List.mem_map.1 hl
    simpa using h name hname
  simpa [joinStrings] using hne

end Text

namespace Context

theorem nonEmpty_nonEmpty (o : Option String) : nonEmpty (nonEmpty o) = nonEmpty o := by
  simp [nonEmpty, Option.filter_filter]

@[simp] theorem nonEmpty_none : nonEmpty none = none := rfl

theorem nonEmpty_some (h : name ≠ "") : nonEmpty (some name) = some name := by
  simp [nonEmpty, h]

theorem nonEmpty_eq_none_iff {o : Option String} :
    nonEmpty o = none ↔ (o.getD "").isEmpty = true := by
  cases o <;> simp [nonEmpty]

theorem ne_empty_of_nonEmpty {o : Option String} (h : nonEmpty o = some name) :
    name ≠ "" := by
  rw [nonEmpty, Option.filter_eq_some_iff] at h
  simpa using h.2

end Context

namespace Index

open Context

variable {parts : List (Option String)}

/-- Parts that are missing and parts that are empty are left out alike. -/
theorem joinGiven_eq (parts : List (Option String)) :
    joinGiven parts = joinStrings '.' (parts.filterMap nonEmpty) := by
  have hparts : (parts.filterMap id).filter (fun s => !s.isEmpty) =
      parts.filterMap nonEmpty := by
    rw [List.filter_filterMap]
    rfl
  rw [joinGiven, hparts]

theorem ne_empty_of_mem_given (h : name ∈ parts.filterMap nonEmpty) : name ≠ "" := by
  obtain ⟨part, -, hpart⟩ := List.mem_filterMap.1 h
  exact ne_empty_of_nonEmpty hpart

/-- What parts make together is missing if all of them are. -/
theorem nonEmpty_joinGiven (parts : List (Option String)) :
    nonEmpty (some (joinGiven parts)) =
      if parts.filterMap nonEmpty = [] then none else some (joinGiven parts) := by
  split
  · next h =>
    rw [joinGiven_eq, h]
    rfl
  · next h =>
    rw [joinGiven_eq]
    exact nonEmpty_some (joinStrings_ne_empty h fun _ => ne_empty_of_mem_given)

/-- A part that is joined with nothing. -/
theorem nonEmpty_joinGiven_singleton (part : Option String) :
    nonEmpty (some (joinGiven [part])) = nonEmpty part := by
  rw [nonEmpty_joinGiven, joinGiven_eq]
  cases h : nonEmpty part <;> simp [h]

/-- Parts can be joined one after the other. -/
theorem joinGiven_append (ps qs : List (Option String)) :
    joinGiven (ps ++ qs) = joinGiven [some (joinGiven ps), some (joinGiven qs)] := by
  rw [joinGiven_eq (ps ++ qs), joinGiven_eq [_, _], List.filterMap_append]
  simp only [List.filterMap_cons, List.filterMap_nil, nonEmpty_joinGiven]
  by_cases hp : ps.filterMap nonEmpty = []
  · by_cases hq : qs.filterMap nonEmpty = []
    · simp [hp, hq]
    · simp [hp, hq, joinGiven_eq qs]
  · by_cases hq : qs.filterMap nonEmpty = []
    · simp [hp, hq, joinGiven_eq ps]
    · simp only [hp, hq, if_false]
      rw [joinStrings_append hp hq, joinGiven_eq ps, joinGiven_eq qs]

/-- The parts after the first one can be joined first. -/
theorem joinGiven_cons (part : Option String) (ps : List (Option String)) :
    joinGiven (part :: ps) = joinGiven [part, some (joinGiven ps)] := by
  have happend := joinGiven_append [part] ps
  rw [List.singleton_append] at happend
  rw [happend, joinGiven_eq [_, _], joinGiven_eq [part, _]]
  simp only [List.filterMap_cons, nonEmpty_joinGiven_singleton]

/-- Nothing is joined to a name. -/
theorem joinGiven_joinGiven (ps : List (Option String)) :
    joinGiven [some (joinGiven ps)] = joinGiven ps := by
  rw [joinGiven_eq [_]]
  simp only [List.filterMap_cons, List.filterMap_nil, nonEmpty_joinGiven]
  by_cases h : ps.filterMap nonEmpty = []
  · simp [h, joinGiven_eq ps]
  · simp [h]

/-- A missing part is left out. -/
theorem joinGiven_erase (ps qs : List (Option String)) :
    joinGiven (ps ++ none :: qs) = joinGiven (ps ++ qs) := by
  rw [joinGiven_eq, joinGiven_eq, List.filterMap_append, List.filterMap_append,
    List.filterMap_cons_none rfl]

/-- The names on a path, none of which is empty. -/
theorem joinGiven_path (h : ∀ name ∈ path, name ≠ "") :
    joinGiven (path.map some) = joinStrings '.' path := by
  have hgiven : (path.map some).filterMap nonEmpty = path := by
    induction path with
    | nil => rfl
    | cons name rest ih =>
      rw [List.map_cons, List.filterMap_cons_some (nonEmpty_some (h name List.mem_cons_self)),
        ih fun n hn => h n (List.mem_cons_of_mem _ hn)]
  rw [joinGiven_eq, hgiven]

/-- A path that is given in two parts. -/
theorem joinGiven_join {p q : List String} (h : ∀ name ∈ p ++ q, name ≠ "") :
    joinGiven [some (joinStrings '.' p), some (joinStrings '.' q)] = joinStrings '.' (p ++ q) := by
  have hparts := List.forall_mem_append.1 h
  rw [← joinGiven_path hparts.1, ← joinGiven_path hparts.2, ← joinGiven_append, ← List.map_append,
    joinGiven_path h]

/-- A name below a module and a class that make a path together. -/
theorem joinGiven_below
    (h : ∀ n ∈ path ++ [name], n ≠ "") (hparts : joinGiven parts = joinStrings '.' path) :
    joinGiven (parts ++ [some name]) = joinStrings '.' (path ++ [name]) := by
  rw [List.forall_mem_append] at h
  have hpath : joinGiven parts = joinGiven (path.map some) := by
    rw [hparts, joinGiven_path h.1]
  rw [joinGiven_append, hpath, ← joinGiven_append, ← joinGiven_path (List.forall_mem_append.2 h)]
  simp

end Index

end LuaDocs
