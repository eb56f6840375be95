import LuaDocs.InheritedMembers
import LuaDocs.Proofs.Name.Called
import LuaDocs.Proofs.Text.Split
import LuaDocs.Role

/-!
# The parent and the own name of an object

The last component of a full name is the object's own name, and what stands before it names its
parent. The lists of members and of inherited members cut a full name at the dots outside brackets.
The general index, the tables of contents and the titles of references cut it at its last dot. They
agree exactly if there is no dot in the last component: identifiers have none, but keys may.
-/

namespace LuaDocs

open Text

namespace Name

variable {c : List Char}

theorem IsIdentifier.notMem_dot (h : IsIdentifier c) : '.' ∉ c := fun hdot =>
  Bool.eq_false_iff.1 isNameChar_dot (h.2 '.' hdot)

/-- Only a key has a dot, and not at its start. -/
theorem IsPart.ne_nil_of_dot {u v : List Char} (h : IsPart c) (hc : c = u ++ '.' :: v) :
    u ≠ [] := by
  rintro rfl
  rcases h with h | ⟨type, rfl, -⟩
  · exact h.notMem_dot (hc ▸ List.mem_cons_self)
  · cases hc

theorem mem_joinStrings {path : List String} {name : String} {d : Char} (hname : name ∈ path)
    (hd : d ∈ name.toList) : d ∈ (joinStrings '.' path).toList := by
  rw [toList_joinStrings]
  cases path with
  | nil => cases hname
  | cons first rest =>
    rw [List.map_cons, join_cons, List.mem_append]
    rcases List.mem_cons.1 hname with rfl | hname
    · exact .inl hd
    · exact .inr (List.mem_flatMap.2 ⟨_, List.mem_map_of_mem hname, List.mem_cons_of_mem _ hd⟩)

theorem toList_joinStrings_concat {path : List String} (hp : path ≠ []) (own : String) :
    (joinStrings '.' (path ++ [own])).toList =
      (joinStrings '.' path).toList ++ '.' :: own.toList := by
  rw [joinStrings_append hp (List.cons_ne_nil own []), joinStrings_singleton]
  simp [joinStrings, joinWith, List.intercalate]

end Name

namespace Index

open Name

/-- The components of a full name are found. -/
theorem components_joinStrings {path : List String} (hne : path ≠ [])
    (h : ∀ c ∈ path, IsPart c.toList) : components (joinStrings '.' path) = path := by
  unfold components
  split
  · rw [toList_joinStrings, split_join (by simpa using hne) (List.forall_mem_map.2 h), List.map_map]
    simp [Function.comp_def]
  · next hplain =>
    refine splitString_joinStrings hne fun c hc => ?_
    rcases h c hc with hname | ⟨type, htype, -⟩
    · exact hname.notMem_dot
    · have hbracket := mem_joinStrings hc (d := '[') (htype ▸ List.mem_cons_self)
      exact absurd (List.contains_iff_mem.2 hbracket) hplain

end Index

namespace Text

/-- A text with a dot has a last one. -/
theorem exists_last_dot {s : List Char} (h : '.' ∈ s) : ∃ u v, s = u ++ '.' :: v ∧ '.' ∉ v := by
  obtain ⟨v, u, hs, hv⟩ := List.eq_append_cons_of_mem (List.mem_reverse.2 h)
  refine ⟨u.reverse, v.reverse, ?_, mt List.mem_reverse.1 hv⟩
  rw [← List.reverse_reverse s, hs]
  simp

end Text

namespace Role

variable {s u v : List Char}

theorem passes_reverse (hv : '.' ∉ v) : ∀ c ∈ v.reverse, (c != '.') = true := fun _ hc =>
  bne_iff_ne.2 fun hdot => hv (hdot ▸ List.mem_reverse.1 hc)

/-- A title with a tilde before it is what stands after the last dot, -/
theorem implicit_of_dot (hv : '.' ∉ v) : (implicit ('~' :: (u ++ '.' :: v))).1 = v := by
  have htext : (u ++ '.' :: v).reverse = v.reverse ++ '.' :: u.reverse := by simp
  simp [implicit, htext, List.dropWhile_append_of_pos (passes_reverse hv),
    List.takeWhile_append_of_pos (passes_reverse hv)]

/-- or all of it if there is no dot. -/
theorem implicit_of_notMem (h : '.' ∉ s) : (implicit ('~' :: s)).1 = s := by
  have hnil : s.reverse.dropWhile (fun c => c != '.') = [] := by
    rw [← List.append_nil s.reverse, List.dropWhile_append_of_pos (passes_reverse h)]
    rfl
  simp [implicit, hnil]

end Role

namespace Naming

variable {n : Naming} {u v : List Char}

/-- The text in the general index of an object with the given parent. -/
def indexedUnder (n : Naming) (t : ObjType) (parent : Option String) : String :=
  n.name ++ " (" ++ t.name ++ (parent.elim "" fun p => " in " ++ p) ++ ")"

theorem indexText_eq (n : Naming) (t : ObjType) : n.indexText t =
    n.indexedUnder t (Context.nonEmpty (some (joinStrings '.' n.tocParts.dropLast))) := by
  unfold indexText tocParts
  dsimp only
  generalize joinStrings '.' (splitString '.' n.fullname).dropLast = before
  by_cases hbefore : before = ""
  · have hnone : Context.nonEmpty (some "") = none := rfl
    simp [hbefore, hnone, indexedUnder]
  · simp [hbefore, Context.nonEmpty_some hbefore, indexedUnder, String.append_assoc]

theorem indexedUnder_inj {t : ObjType} {p q : Option String} :
    n.indexedUnder t p = n.indexedUnder t q ↔ p = q := by
  constructor
  · intro h
    cases p <;> cases q <;> simp_all [indexedUnder, ← String.toList_inj]
  · rintro rfl
    rfl

/-- What is found at the last dot of a full name. -/
theorem cut_of_dot (hn : n.fullname.toList = u ++ '.' :: v) (hv : '.' ∉ v) :
    n.tocParts.getLast? = some (String.ofList v) ∧
      joinStrings '.' n.tocParts.dropLast = String.ofList u := by
  rw [tocParts, splitString, hn, splitAt_append_sep, splitAt_of_notMem hv]
  refine ⟨by simp, ?_⟩
  rw [List.map_append, List.map_singleton, List.dropLast_concat, joinStrings, List.map_map]
  simp [Function.comp_def, joinWith_splitAt]

/-- **When the parent and the own name of an object are found everywhere.** The key under which it
is listed among the members of its parent, and the name under which it is inherited, are always made
of its components. The general index shows that key, and the tables of contents and the titles of
references show the last component, exactly if there is no dot in it. -/
theorem own_name_iff {path : List String} {own : String} (hpath : ∀ c ∈ path, Name.IsPart c.toList)
    (hown : Name.IsPart own.toList) (hn : n.fullname = joinStrings '.' (path ++ [own]))
    (t : ObjType) :
    Index.parent? n.fullname = (if path = [] then none else some (joinStrings '.' path)) ∧
    InheritedMembers.ownName n.fullname = own ∧
    (n.indexText t = n.indexedUnder t (Index.parent? n.fullname) ↔ '.' ∉ own.toList) ∧
    (n.tocParts.getLast? = some own ↔ '.' ∉ own.toList) ∧
    ((Role.implicit ('~' :: n.fullname.toList)).1 = own.toList ↔ '.' ∉ own.toList) := by
  have hcomponents : Index.components n.fullname = path ++ [own] := by
    rw [hn, Index.components_joinStrings (by simp)]
    exact List.forall_mem_append.2 ⟨hpath, List.forall_mem_singleton.2 hown⟩
  have hparent : Index.parent? n.fullname =
      if path = [] then none else some (joinStrings '.' path) := by
    rw [Index.parent?, hcomponents]
    by_cases hp : path = [] <;> simp [hp]
  refine ⟨hparent, by simp [InheritedMembers.ownName, hcomponents], ?_⟩
  rw [indexText_eq, indexedUnder_inj, hparent]
  by_cases hdot : '.' ∈ own.toList
  · -- the text is cut inside the last component
    obtain ⟨u, v, huv, hv⟩ := exists_last_dot hdot
    have hne : v ≠ own.toList := fun heq => hv (heq ▸ hdot)
    obtain ⟨w, hfull, hw⟩ : ∃ w, n.fullname.toList = w ++ '.' :: v ∧
        Context.nonEmpty (some (String.ofList w)) ≠
          if path = [] then none else some (joinStrings '.' path) := by
      by_cases hp : path = []
      · refine ⟨u, by rw [hn, hp, List.nil_append, joinStrings_singleton, huv], ?_⟩
        rw [if_pos hp, Context.nonEmpty_some]
        · simp
        · simpa using hown.ne_nil_of_dot huv
      · refine ⟨(joinStrings '.' path).toList ++ '.' :: u, ?_, ?_⟩
        · rw [hn, Name.toList_joinStrings_concat hp, huv]
          simp
        · rw [if_neg hp, Context.nonEmpty_some (by simp)]
          simp [← String.toList_inj]
    obtain ⟨hlast, hbefore⟩ := cut_of_dot hfull hv
    rw [hlast, hbefore, hfull, Role.implicit_of_dot hv]
    simp only [hdot, not_true, iff_false]
    exact ⟨hw, fun heq => hne (by rw [← Option.some.inj heq, String.toList_ofList]), hne⟩
  · by_cases hp : path = []
    · have hfull : n.fullname = own := by rw [hn, hp, List.nil_append, joinStrings_singleton]
      have htoc : n.tocParts = [own] := by rw [tocParts, hfull, splitString_of_notMem hdot]
      rw [if_pos hp, htoc, hfull, Role.implicit_of_notMem hdot]
      simp [hdot, Context.nonEmpty]
    · have hfull := congrArg String.toList hn
      rw [Name.toList_joinStrings_concat hp] at hfull
      obtain ⟨hlast, hbefore⟩ := cut_of_dot hfull hdot
      rw [hlast, hbefore, hfull, Role.implicit_of_dot hdot, if_neg hp]
      rw [String.ofList_toList, String.ofList_toList, Context.nonEmpty_some]
      · simp [hdot]
      · exact joinStrings_ne_empty hp fun c hc => by simpa using (hpath c hc).ne_nil

/-- A key with a dot in it is found among the members, but not in the general index. -/
theorem own_name_key :
    Index.parent? "m.[a.b]" = some "m" ∧ InheritedMembers.ownName "m.[a.b]" = "[a.b]" ∧
      (⟨"m.[a.b]", some "m", none, "[a.b]"⟩ : Naming).indexText .data ≠
        "[a.b] (data in m)" := by
  have hfull : "m.[a.b]" = joinStrings '.' (["m"] ++ ["[a.b]"]) := by decide +kernel
  have hpath : ∀ c ∈ ["m"], Name.IsPart c.toList :=
    List.forall_mem_singleton.2 (.inl ⟨by decide, List.all_eq_true.1 (by decide +kernel)⟩)
  have hkey : Name.IsPart "[a.b]".toList :=
    .inr ⟨"a.b".toList, by decide +kernel, by decide +kernel⟩
  obtain ⟨hparent, hown, htext, -⟩ :=
    own_name_iff (n := ⟨"m.[a.b]", some "m", none, "[a.b]"⟩) hpath hkey hfull .data
  have hm : joinStrings '.' ["m"] = "m" := joinStrings_singleton '.' "m"
  rw [if_neg (List.cons_ne_nil _ _), hm] at hparent
  refine ⟨hparent, hown, fun heq => htext.1 ?_ (by decide +kernel)⟩
  rw [hparent, heq]
  decide +kernel

end Naming

end LuaDocs
