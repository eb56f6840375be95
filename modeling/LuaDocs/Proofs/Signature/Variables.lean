import LuaDocs.Proofs.Name.Called

/-!
# Variables with a type

A variable is declared by its name and, after a blank, its type. The name goes on as long as
components can be read, and a component needs no dot before it. So a type that starts like an
identifier is taken for more of the name, and only a type that starts with some other sign is read
as a type.
-/

namespace LuaDocs

open Text

namespace Name

variable {a s : List Char} {name type : String}

/-- After an identifier and a blank the name may go on. -/
theorem readComponents?_blank (ha : IsIdentifier a) (hs : trimStart s = s) :
    readComponents? (a ++ ' ' :: s) = (components? s).map fun p => (a :: p.1, p.2) := by
  have hblank : trimStart (' ' :: s) = s := hs
  have hread := component?_append ha.1 ha.2 (r := ' ' :: s) fun c hc => by
    obtain rfl : ' ' = c := Option.some.inj hc
    decide +kernel
  rw [hblank] at hread
  rw [readComponents?, IsComponent.trimStart_append (.inl ha), hread]

/-- What cannot continue a name is left after it. -/
theorem read?_of_ended (hname : isPlain name = true) (h : Ended type.toList) :
    read? (name ++ " " ++ type) = some (name, type) := by
  have htext : (name ++ " " ++ type).toList = name.toList ++ ' ' :: type.toList := by simp
  rw [read?, htext, readComponents?_blank (isIdentifier_of_isPlain hname) h.trimmed, h.components]
  simp [join, List.intercalate]

/-- What starts like an identifier continues a name as it starts one. -/
theorem read?_of_isNameChar (hname : isPlain name = true)
    (htype : trimStart type.toList = type.toList) {c : Char} (hc : c ∈ type.toList.head?)
    (hword : isNameChar c = true) :
    read? (name ++ " " ++ type) = (read? type).map fun p => (name ++ "." ++ p.1, p.2) := by
  have htext : (name ++ " " ++ type).toList = name.toList ++ ' ' :: type.toList := by simp
  obtain ⟨t, ht⟩ := List.head?_eq_some_iff.1 hc
  obtain ⟨⟨d, rest⟩, hread⟩ : ∃ p, component? type.toList = some p := by
    rw [ht] at htype ⊢
    unfold component?
    split
    · exact ⟨_, rfl⟩
    · simp [identifier?, htype, hword]
  have hdot : type.toList.head? ≠ some '.' := by
    rw [ht]
    intro heq
    rw [Option.some.inj heq, isNameChar_dot] at hword
    cases hword
  have hown : readComponents? type.toList = (components? rest).map fun p => (d :: p.1, p.2) := by
    rw [readComponents?, htype, hread]
  rw [read?, htext, readComponents?_blank (isIdentifier_of_isPlain hname) htype,
    components?_of_component? hdot hread, read?, hown]
  cases components? rest with
  | none => rfl
  | some p => simp [join_cons, continuation, String.append_assoc]

end Name

namespace Signature

/-- **When the type after a name is read as a type**: a variable that is declared by an identifier
and a type has this name and this type exactly if the type does not start like an identifier. If it
does, the name at the start of the type is taken for more of the name of the variable. -/
theorem readData_typed_iff (name type : String) (hname : Name.isPlain name = true)
    (htrim : strip type = type)
    (hfirst : ∀ c ∈ type.toList.head?, c ≠ '.' ∧ c ≠ '[') :
    (readData (name ++ " " ++ type) = .ok (name, type) ↔
      ∀ c ∈ type.toList.head?, isNameChar c = false) ∧
    ((∃ c ∈ type.toList.head?, isNameChar c = true) → readData (name ++ " " ++ type) =
      (readData type).map fun p => (name ++ "." ++ p.1, p.2)) := by
  have hstart : trimStart type.toList = type.toList := by
    rw [← htrim, strip, String.toList_ofList, trimStart_trim]
  have hmore : ∀ c ∈ type.toList.head?, isNameChar c = true → readData (name ++ " " ++ type) =
      (readData type).map fun p => (name ++ "." ++ p.1, p.2) := by
    intro c hc hword
    rw [readData, readData, readName, readName, Name.read?_of_isNameChar hname hstart hc hword]
    cases Name.read? type <;> rfl
  refine ⟨⟨fun h c hc => ?_, fun h => ?_⟩, ?_⟩
  · rw [Bool.eq_false_iff]
    intro hword
    rw [hmore c hc hword] at h
    obtain ⟨p, -, hp⟩ := Except.ok_of_map h
    -- a name with more after it is longer
    have hlength := congrArg String.length (Prod.mk.inj hp).1
    rw [String.length_append, String.length_append] at hlength
    have hdot : ".".length = 1 := rfl
    omega
  · have hended : Name.Ended type.toList := by
      rw [Name.ended_iff]
      intro c hc
      obtain ⟨t, ht⟩ := List.head?_eq_some_iff.1 hc
      rw [ht] at hstart
      exact ⟨isBlank_of_trimStart hstart, h c hc, hfirst c hc⟩
    rw [readData, readName, Name.read?_of_ended hname hended]
    exact congrArg (fun s => Except.ok (name, s)) htrim
  · rintro ⟨c, hc, hword⟩
    exact hmore c hc hword

/-- A type in braces is read as a type, and one that is a word is not. -/
theorem readData_word : readData "size {integer}" = .ok ("size", "{integer}") ∧
    readData "size integer" = .ok ("size.integer", "") := by
  have hbrace : "{integer}".toList.head? = some '{' := by decide +kernel
  have hletter : "integer".toList.head? = some 'i' := by decide +kernel
  constructor
  · refine (readData_typed_iff "size" "{integer}" (by decide +kernel) (by decide +kernel)
      fun c hc => ?_).1.2 fun c hc => ?_
    · obtain rfl := Option.some.inj (hbrace.symm.trans hc)
      decide
    · obtain rfl := Option.some.inj (hbrace.symm.trans hc)
      decide +kernel
  · have hword : readData "integer" = .ok ("integer", "") :=
      Except.toOption_eq_some.1 (by decide +kernel)
    have h := (readData_typed_iff "size" "integer" (by decide +kernel) (by decide +kernel)
      fun c hc => ?_).2 ⟨'i', hletter, by decide +kernel⟩
    · rw [hword] at h
      exact h
    · obtain rfl := Option.some.inj (hletter.symm.trans hc)
      decide

end Signature

end LuaDocs
