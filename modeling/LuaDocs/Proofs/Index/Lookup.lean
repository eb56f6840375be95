import LuaDocs.Proofs.Name.Components

/-!
# Looking up full names

A reference to an object by its full name, where there is neither a module nor a class nor a module
in use, looks for what the name means: the name without parentheses and outer blanks, with its keys
in normal form. So it finds the object under this very name exactly if the name is not empty and
means itself. Normal names mean themselves.
-/

namespace LuaDocs.Index

open Text

variable {name : String}

/-- A normal name means itself. -/
theorem referredName_of_isNormal (h : Name.IsNormal name) : referredName name = name := by
  have hparens : name.endsWith "()" = false := by
    rw [Bool.eq_false_iff]
    intro hends
    rw [String.endsWith_eq_endsWith_toSlice, String.Slice.endsWith_string_iff] at hends
    obtain ⟨before, hbefore⟩ := hends
    rw [String.copy_toSlice] at hbefore
    exact (h.ends.2 ')' (by rw [← hbefore]; simp)).2 rfl
  have hstrip : strip name = name := by
    rw [strip, trim_of_ends h.ends.1 fun d hd => (h.ends.2 d hd).1, String.ofList_toList]
  simp only [referredName, hparens, Bool.false_eq_true, if_false, hstrip]
  exact Name.normalize_of_isNormal h

/-- Where there is neither a module nor a class nor a module in use, what is found is the object
under the name that is meant. -/
theorem find?_blank (t : Index) (role : Option String) (hname : referredName name ≠ "") :
    t.find? ⟨some "", some "", none⟩ role name =
      .ok ((t.objects.get? (referredName name)).map fun row => (referredName name, row)) := by
  have hempty : Context.nonEmpty (some "") = none := rfl
  have hgiven := Context.nonEmpty_some hname
  rw [find?, if_neg (by simpa using hname), candidates]
  split
  · cases h : t.objects.get? (referredName name) <;>
      simp [h, bind, Except.bind, pure, Except.pure]
  · cases h : t.objects.get? (referredName name) <;>
      simp [h, joinGiven_eq, hempty, hgiven, bind, Except.bind, pure, Except.pure]

/-- **An object is found by its full name** exactly if the name is not empty and means itself. -/
theorem find?_self_iff {t : Index} {key : String} {row : ObjectRow}
    (h : t.objects.get? key = some row) (role : Option String) :
    t.find? ⟨some "", some "", none⟩ role key = .ok (some (key, row)) ↔
      key ≠ "" ∧ referredName key = key := by
  by_cases hempty : referredName key = ""
  · have hnone : t.find? ⟨some "", some "", none⟩ role key = .ok none := by
      rw [find?, if_pos (by simpa using hempty)]
    rw [hnone, hempty]
    constructor
    · rintro ⟨⟩
    · rintro ⟨hne, heq⟩
      exact absurd heq.symm hne
  · rw [find?_blank t role hempty]
    constructor
    · intro hfound
      obtain ⟨row', -, heq⟩ := Option.map_eq_some_iff.1 (Except.ok.inj hfound)
      obtain ⟨hsame, -⟩ := Prod.mk.inj heq
      exact ⟨hsame ▸ hempty, hsame⟩
    · rintro ⟨-, hsame⟩
      rw [hsame, h, Option.map_some]

/-- A name can be looked up unless all modules are in use, which leaves none to search. -/
theorem exists_find?_iff (t : Index) {scope : Scope} {role : Option String}
    (hrole : role ≠ some "mod") :
    (∃ found, t.find? scope role name = .ok found) ↔
      (scope.usedModules = some .all → referredName name = "") := by
  rw [find?]
  by_cases hempty : referredName name = ""
  · simp [hempty]
  · rw [if_neg (by simpa using hempty), candidates, if_neg (by simpa using hrole)]
    cases hused : scope.usedModules with
    | none => simp [bind, Except.bind, pure, Except.pure]
    | some used => cases used <;> simp [hempty, bind, Except.bind, pure, Except.pure]

/-- What is found is an object that is described. -/
theorem get?_of_find? {t : Index} {scope : Scope} {role : Option String} {key : String}
    {row : ObjectRow} (h : t.find? scope role name = .ok (some (key, row))) :
    t.objects.get? key = some row := by
  unfold find? at h
  dsimp only at h
  split at h
  · cases h
  · obtain ⟨names, -, h⟩ := Except.ok_of_bind h
    obtain ⟨n, -, hn⟩ := List.exists_of_findSome?_eq_some (Except.ok.inj h)
    obtain ⟨_, hrow, heq⟩ := Option.map_eq_some_iff.1 hn
    obtain ⟨rfl, rfl⟩ := Prod.mk.inj heq
    exact hrow

end LuaDocs.Index
