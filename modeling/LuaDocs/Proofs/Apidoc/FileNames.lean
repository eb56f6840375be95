import LuaDocs.Apidoc
import LuaDocs.Proofs.Path
import LuaDocs.Proofs.Text.Percent

/-!
# Names of files

The name of the file of a page is the normal form of the name of its object, in which the characters
that are not kept are written as bytes. From a text that is written so the kept characters and the
bytes can be read back, and from these the UTF-8 form of the text. So two objects have the same file
exactly if their names have the same normal form. The sign before a byte is an exclamation mark.
With a percent sign in its place the name of the file is the percent encoding of the normal form,
because an exclamation mark is not kept either.
-/

namespace LuaDocs

open Text

namespace Apidoc

/-! ### Encoded names -/

/-- The character stays in file names. -/
def isKept (c : Char) : Bool := isUnreserved c || isSafe c

theorem isKept_hexDigit : ∀ n < 16, isKept (hexDigit n) = true := by decide

/-- The characters of a text that are kept, and the bytes of the others. -/
def codes (s : List Char) : List (Char ⊕ UInt8) :=
  s.flatMap fun c => if isKept c then [.inl c] else (String.utf8EncodeChar c).map .inr

/-- How a kept character or a byte is written. -/
def codeText : Char ⊕ UInt8 → List Char
  | .inl c => [c]
  | .inr b => ['!', hexDigit (b.toNat / 16), hexDigit (b.toNat % 16)]

/-- The bytes for which a kept character or a byte stands. -/
def codeBytes : Char ⊕ UInt8 → List UInt8
  | .inl c => String.utf8EncodeChar c
  | .inr b => [b]

theorem isKept_of_mem_codes {s : List Char} {c : Char} (h : .inl c ∈ codes s) :
    isKept c = true := by
  obtain ⟨d, -, hd⟩ := List.mem_flatMap.1 h
  split at hd
  · next hkept =>
    rw [List.mem_singleton] at hd
    rwa [Sum.inl.inj hd]
  · simp at hd

theorem ne_of_isKept {c d : Char} (hc : isKept c = true) (hd : isKept d = false) : c ≠ d := by
  rintro rfl
  rw [hc] at hd
  cases hd

theorem hexDigits_inj {b b' : UInt8} (hhigh : hexDigit (b.toNat / 16) = hexDigit (b'.toNat / 16))
    (hlow : hexDigit (b.toNat % 16) = hexDigit (b'.toNat % 16)) : b = b' := by
  have hb := b.toNat_lt
  have hb' := b'.toNat_lt
  have hdiv := hexDigit_inj _ (by omega) _ (by omega) hhigh
  have hmod := hexDigit_inj _ (by omega) _ (by omega) hlow
  exact UInt8.toNat_inj.1 (by omega)

/-- What was written can be read back. -/
theorem flatMap_codeText_inj {xs ys : List (Char ⊕ UInt8)} (hx : ∀ c, .inl c ∈ xs → isKept c = true)
    (hy : ∀ c, .inl c ∈ ys → isKept c = true)
    (h : xs.flatMap codeText = ys.flatMap codeText) : xs = ys := by
  have hsign : isKept '!' = false := by decide
  induction xs generalizing ys with
  | nil =>
    cases ys with
    | nil => rfl
    | cons y ys => cases y <;> cases h
  | cons x xs ih =>
    have hxs : ∀ c, .inl c ∈ xs → isKept c = true := fun c hc => hx c (List.mem_cons_of_mem _ hc)
    cases ys with
    | nil => cases x <;> cases h
    | cons y ys =>
      have hys : ∀ c, .inl c ∈ ys → isKept c = true := fun c hc => hy c (List.mem_cons_of_mem _ hc)
      rw [List.flatMap_cons, List.flatMap_cons] at h
      cases x with
      | inl c =>
        have hc := hx c List.mem_cons_self
        cases y with
        | inl d =>
          obtain ⟨rfl, hrest⟩ := List.cons.inj h
          rw [ih hxs hys hrest]
        | inr b => exact absurd (List.cons.inj h).1 (ne_of_isKept hc hsign)
      | inr b =>
        cases y with
        | inl d =>
          have hd := hy d List.mem_cons_self
          exact absurd (List.cons.inj h).1.symm (ne_of_isKept hd hsign)
        | inr b' =>
          obtain ⟨-, h⟩ := List.cons.inj h
          obtain ⟨hhigh, h⟩ := List.cons.inj h
          obtain ⟨hlow, hrest⟩ := List.cons.inj h
          rw [hexDigits_inj hhigh hlow, ih hxs hys hrest]

/-- The codes of a text stand for its bytes. -/
theorem flatMap_codeBytes_codes (s : List Char) :
    (codes s).flatMap codeBytes = s.flatMap String.utf8EncodeChar := by
  rw [codes, List.flatMap_assoc]
  refine congrArg (fun f => s.flatMap f) (funext fun c => ?_)
  split
  · simp [codeBytes]
  · rw [List.flatMap_map]
    exact List.flatMap_singleton' _

theorem codes_injective {s t : List Char} (h : codes s = codes t) : s = t := by
  refine eq_of_flatMap_utf8EncodeChar ?_
  rw [← flatMap_codeBytes_codes, h, flatMap_codeBytes_codes]

theorem map_percentByte (b : UInt8) :
    ((percentByte b).map fun c => if c == '%' then '!' else c) = codeText (.inr b) := by
  have hb := b.toNat_lt
  have hhigh := hexDigit_ne_percent (b.toNat / 16) (by omega)
  have hlow := hexDigit_ne_percent (b.toNat % 16) (by omega)
  simp [percentByte, codeText, hhigh, hlow]

/-- The name of a file is the normal form of the name, written in codes. -/
theorem toList_fileName (name : String) :
    (fileName name).toList = (codes (Name.normalize name).toList).flatMap codeText := by
  rw [fileName, String.toList_ofList, percentEncode, List.map_flatMap, codes, List.flatMap_assoc]
  refine congrArg (fun f => (Name.normalize name).toList.flatMap f) (funext fun c => ?_)
  rw [percentChar, ← isKept]
  split
  · next hkept =>
    have hsign : c ≠ '%' := ne_of_isKept hkept (by decide)
    simp [codeText, hsign]
  · rw [toList_toUTF8_singleton, List.map_flatMap, List.flatMap_map]
    exact congrArg (fun f => (String.utf8EncodeChar c).flatMap f) (funext map_percentByte)

/-- **Two objects have the same file exactly if their names have the same normal form.** -/
theorem fileName_inj {a b : String} :
    fileName a = fileName b ↔ Name.normalize a = Name.normalize b := by
  constructor
  · intro h
    have hcodes := congrArg String.toList h
    rw [toList_fileName, toList_fileName] at hcodes
    exact String.toList_inj.1 (codes_injective (flatMap_codeText_inj
      (fun _ => isKept_of_mem_codes) (fun _ => isKept_of_mem_codes) hcodes))
  · intro h
    rw [← String.toList_inj, toList_fileName, toList_fileName, h]

theorem fileName_eq_index_iff {name : String} :
    fileName name = "index" ↔ Name.normalize name = "index" := by
  have hindex : fileName "index" = "index" ∧ Name.normalize "index" = "index" := by
    decide +kernel
  rw [← hindex.1, fileName_inj, hindex.2, hindex.1]

/-- No other characters stand in file names than those that are kept and exclamation marks. -/
theorem isKept_of_mem_fileName {name : String} {c : Char} (h : c ∈ (fileName name).toList) :
    isKept c = true ∨ c = '!' := by
  rw [toList_fileName, List.mem_flatMap] at h
  obtain ⟨code, hcode, hmem⟩ := h
  cases code with
  | inl d =>
    rw [codeText, List.mem_singleton] at hmem
    exact .inl (hmem ▸ isKept_of_mem_codes hcode)
  | inr b =>
    have hb := b.toNat_lt
    have hhigh := isKept_hexDigit (b.toNat / 16) (by omega)
    have hlow := isKept_hexDigit (b.toNat % 16) (by omega)
    simp only [codeText, List.mem_cons, List.not_mem_nil, or_false] at hmem
    rcases hmem with rfl | rfl | rfl
    · exact .inr rfl
    · exact .inl hhigh
    · exact .inl hlow

theorem notMem_fileName {c : Char} (hc : isKept c = false) (hsign : c ≠ '!') (name : String) :
    c ∉ (fileName name).toList := by
  intro h
  rcases isKept_of_mem_fileName h with hkept | hmark
  · exact ne_of_isKept hkept hc rfl
  · exact hsign hmark

/-! ### Reading names back -/

/-- No exclamation mark is left in a percent encoding. -/
theorem notMem_percentEncode (s : List Char) : '!' ∉ percentEncode isSafe s := by
  have hsign : isKept '!' = false := by decide
  intro h
  obtain ⟨c, -, hc⟩ := List.mem_flatMap.1 h
  rw [percentChar, ← isKept] at hc
  split at hc
  · next hkept => exact ne_of_isKept hkept hsign (List.mem_singleton.1 hc).symm
  · obtain ⟨byte, -, hbyte⟩ := List.mem_flatMap.1 hc
    have hlt := byte.toNat_lt
    have hhigh := isKept_hexDigit (byte.toNat / 16) (by omega)
    have hlow := isKept_hexDigit (byte.toNat % 16) (by omega)
    simp only [percentByte, List.mem_cons, List.not_mem_nil, or_false] at hbyte
    rcases hbyte with heq | heq | heq
    · cases heq
    · exact ne_of_isKept hhigh hsign heq.symm
    · exact ne_of_isKept hlow hsign heq.symm

/-- With percent signs in the place of exclamation marks, the name of a file is the percent encoding
of the normal form of the name. -/
theorem map_toList_fileName (name : String) :
    ((fileName name).toList.map fun c => if c == '!' then '%' else c) =
      percentEncode isSafe (Name.normalize name).toList := by
  rw [fileName, String.toList_ofList, List.map_map]
  refine (List.map_congr_left fun c hc => ?_).trans (List.map_id _)
  have hne : c ≠ '!' := fun heq => notMem_percentEncode _ (heq ▸ hc)
  by_cases hsign : c = '%'
  · simp [hsign]
  · simp [hsign, hne]

/-- **The normal form of a name is read from the name of its file**, so no other normal form has
this file; and the name of the file has only letters, digits and a few signs. -/
theorem percentDecode_fileName (name : String) :
    percentDecode ((fileName name).toList.map fun c => if c == '!' then '%' else c) =
        (Name.normalize name).toList ∧
      (∀ other, fileName other = fileName name → Name.normalize other = Name.normalize name) ∧
      ∀ c ∈ (fileName name).toList, c.isAlphanum = true ∨
        c ∈ ['_', '.', '-', '~', '(', ')', '[', ']', '!'] := by
  refine ⟨?_, fun other => fileName_inj.1, fun c hc => ?_⟩
  · rw [map_toList_fileName, percentDecode_percentEncode (by decide)]
  · rcases isKept_of_mem_fileName hc with hkept | rfl
    · simp only [isKept, isUnreserved, isSafe, Bool.or_eq_true, beq_iff_eq] at hkept
      simp only [List.mem_cons, List.not_mem_nil]
      grind
    · exact .inr (by decide)

example : fileName "m.[a|'!é']" = "m.[a!20!7C!20!27!21!C3!A9!27]" := by decide +kernel

end Apidoc

end LuaDocs
