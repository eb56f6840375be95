import LuaDocs.Text.Percent
import LuaDocs.Text.Utf8

/-!
# Reading encoded texts back

A text is encoded twice: its characters are written as bytes, and bytes are written as percent signs
with two digits. Both steps can be undone. A percent sign that two digits do not follow stands for
itself, so every text can be decoded; but none arises by encoding, where a percent sign is always
written as a byte.
-/

namespace LuaDocs.Text

/-! ### Bytes of characters -/

theorem toList_loop (bytes : ByteArray) (i : Nat) (r : List UInt8) :
    ByteArray.toList.loop bytes i r = r.reverse ++ bytes.data.toList.drop i := by
  fun_induction ByteArray.toList.loop bytes i r with
  | case1 i r hi ih =>
    have hlength : i < bytes.data.toList.length := by simpa using hi
    have hget : bytes.get! i = bytes.data.toList[i] := by
      show bytes.data[i]! = _
      rw [getElem!_pos bytes.data i hi, Array.getElem_toList]
    rw [ih, List.drop_eq_getElem_cons hlength, hget]
    simp
  | case2 i r hi =>
    rw [List.drop_eq_nil_of_le (by simpa using Nat.le_of_not_lt hi)]
    simp

/-- The bytes of one character. -/
theorem toList_toUTF8_singleton (c : Char) :
    (String.singleton c).toUTF8.toList = String.utf8EncodeChar c := by
  have hbytes : (String.singleton c).toUTF8 = [c].utf8Encode := by
    rw [String.toUTF8, ← String.toByteArray_ofList]
    rfl
  rw [hbytes, ByteArray.toList, toList_loop]
  simp [List.utf8Encode]

/-- A text is determined by the bytes of its characters. -/
theorem eq_of_flatMap_utf8EncodeChar {s t : List Char}
    (h : s.flatMap String.utf8EncodeChar = t.flatMap String.utf8EncodeChar) : s = t := by
  have hbytes : (String.ofList s).toByteArray = (String.ofList t).toByteArray := by
    rw [String.toByteArray_ofList, String.toByteArray_ofList, List.utf8Encode, h, List.utf8Encode]
  exact String.ofList_inj.1 (String.toByteArray_inj.1 hbytes)

/-! ### Characters of bytes -/

theorem utf8Tail_cons {low high b : Nat} (h : low ≤ b ∧ b ≤ high) (value more : Nat)
    (bytes : List Nat) : utf8Tail low high value (more + 1) (b :: bytes) =
      utf8Tail 0x80 0xbf (value * 64 + (b - 0x80)) more bytes := by
  rw [utf8Tail, if_pos (by simpa using h)]

theorem utf8Decode_of_lead {b code : Nat} {bytes rest : List Nat} {lead : Utf8Lead}
    (hlead : utf8Lead? b = some lead)
    (htail : utf8Tail lead.low lead.high lead.value lead.more bytes = (some code, rest)) :
    utf8Decode (b :: bytes) = Char.ofNat code :: utf8Decode rest := by
  rw [utf8Decode, hlead]
  simp [htail]

section

variable {v : Nat} (bytes : List Nat)

theorem utf8Decode_one (hv : v ≤ 0x7f) :
    utf8Decode (v :: bytes) = Char.ofNat v :: utf8Decode bytes := by
  have hlead : utf8Lead? v = none := if_pos (by omega)
  rw [utf8Decode, hlead]
  simp only [if_pos (show v < 0x80 by omega)]

theorem utf8Decode_two (hlow : 0x7f < v) (hhigh : v ≤ 0x7ff) :
    utf8Decode ((v / 64 % 32 + 192) :: (v % 64 + 128) :: bytes) =
      Char.ofNat v :: utf8Decode bytes := by
  have hlead : utf8Lead? (v / 64 % 32 + 192) = some ⟨v / 64 % 32 + 192 - 0xc0, 1, 0x80, 0xbf⟩ := by
    rw [utf8Lead?, if_neg (by omega), if_pos (by omega)]
  refine utf8Decode_of_lead hlead ?_
  dsimp only
  rw [utf8Tail_cons (by omega), utf8Tail]
  exact congrArg (fun n => (some n, bytes)) (by omega)

/-- The range of the second byte leaves out the surrogates. -/
theorem utf8Decode_three (hlow : 0x7ff < v) (hhigh : v ≤ 0xffff)
    (hvalid : v < 0xd800 ∨ 0xdfff < v) :
    utf8Decode ((v / 4096 % 16 + 224) :: (v / 64 % 64 + 128) :: (v % 64 + 128) :: bytes) =
      Char.ofNat v :: utf8Decode bytes := by
  have hlead : utf8Lead? (v / 4096 % 16 + 224) = some ⟨v / 4096 % 16 + 224 - 0xe0, 2,
      if v / 4096 % 16 + 224 = 0xe0 then 0xa0 else 0x80,
      if v / 4096 % 16 + 224 = 0xed then 0x9f else 0xbf⟩ := by
    rw [utf8Lead?, if_neg (by omega), if_neg (by omega), if_pos (by omega)]
    simp only [beq_iff_eq]
  refine utf8Decode_of_lead hlead ?_
  dsimp only
  rw [utf8Tail_cons, utf8Tail_cons (by omega), utf8Tail]
  · exact congrArg (fun n => (some n, bytes)) (by omega)
  · split <;> split <;> omega

theorem utf8Decode_four (hlow : 0xffff < v) (hhigh : v < 0x110000) :
    utf8Decode ((v / 262144 % 8 + 240) :: (v / 4096 % 64 + 128) :: (v / 64 % 64 + 128) ::
      (v % 64 + 128) :: bytes) = Char.ofNat v :: utf8Decode bytes := by
  have hlead : utf8Lead? (v / 262144 % 8 + 240) = some ⟨v / 262144 % 8 + 240 - 0xf0, 3,
      if v / 262144 % 8 + 240 = 0xf0 then 0x90 else 0x80,
      if v / 262144 % 8 + 240 = 0xf4 then 0x8f else 0xbf⟩ := by
    rw [utf8Lead?, if_neg (by omega), if_neg (by omega), if_neg (by omega), if_pos (by omega)]
    simp only [beq_iff_eq]
  refine utf8Decode_of_lead hlead ?_
  dsimp only
  rw [utf8Tail_cons, utf8Tail_cons (by omega), utf8Tail_cons (by omega), utf8Tail]
  · exact congrArg (fun n => (some n, bytes)) (by omega)
  · split <;> split <;> omega

end

/-- A character is read from the bytes by which it is encoded. -/
theorem utf8Decode_utf8EncodeChar_append (c : Char) (bytes : List Nat) :
    utf8Decode ((String.utf8EncodeChar c).map UInt8.toNat ++ bytes) = c :: utf8Decode bytes := by
  have hc : Char.ofNat c.val.toNat = c := Char.ofNat_toNat c
  have hvalid : c.val.toNat < 0xd800 ∨ 0xdfff < c.val.toNat ∧ c.val.toNat < 0x110000 := c.valid
  have hbyte {n : Nat} (hn : n < 256) : (UInt8.ofNat n).toNat = n := UInt8.toNat_ofNat_of_lt' hn
  rw [String.utf8EncodeChar]
  split
  · next h =>
    have hone := utf8Decode_one bytes h
    simpa (disch := omega) only [List.map_cons, List.map_nil, List.cons_append, List.nil_append,
      hbyte, hc] using hone
  split
  · next h h' =>
    have htwo := utf8Decode_two bytes (Nat.lt_of_not_le h) h'
    simpa (disch := omega) only [List.map_cons, List.map_nil, List.cons_append, List.nil_append,
      hbyte, hc] using htwo
  split
  · next h h' h'' =>
    have hthree := utf8Decode_three bytes (Nat.lt_of_not_le h') h'' (by omega)
    simpa (disch := omega) only [List.map_cons, List.map_nil, List.cons_append, List.nil_append,
      hbyte, hc] using hthree
  · next h h' h'' =>
    have hfour := utf8Decode_four bytes (Nat.lt_of_not_le h'') (by omega)
    simpa (disch := omega) only [List.map_cons, List.map_nil, List.cons_append, List.nil_append,
      hbyte, hc] using hfour

/-- **A text is read from its bytes.** -/
theorem utf8Decode_flatMap_utf8EncodeChar (s : List Char) :
    utf8Decode ((s.flatMap String.utf8EncodeChar).map UInt8.toNat) = s := by
  induction s with
  | nil => rw [List.flatMap_nil, List.map_nil, utf8Decode]
  | cons c s ih => rw [List.flatMap_cons, List.map_append, utf8Decode_utf8EncodeChar_append, ih]

/-! ### Percent signs -/

theorem hexDigit_inj : ∀ m < 16, ∀ n < 16, hexDigit m = hexDigit n → m = n := by decide

theorem hexDigit_ne_percent : ∀ n < 16, hexDigit n ≠ '%' := by decide

/-- The value of a hexadecimal digit, in capitals or small letters. -/
def hexValue? (c : Char) : Option Nat :=
  if c.isDigit then some (c.toNat - '0'.toNat)
  else if 'A'.toNat ≤ c.toNat && c.toNat ≤ 'F'.toNat then some (c.toNat - 'A'.toNat + 10)
  else if 'a'.toNat ≤ c.toNat && c.toNat ≤ 'f'.toNat then some (c.toNat - 'a'.toNat + 10)
  else none

theorem hexValue?_hexDigit : ∀ n < 16, hexValue? (hexDigit n) = some n := by decide

/-- The bytes for which a text in percent encoding stands. A percent sign that two digits do not
follow stands for itself. -/
def percentBytes : List Char → List UInt8
  | '%' :: a :: b :: r =>
    match hexValue? a, hexValue? b with
    | some m, some n => UInt8.ofNat (16 * m + n) :: percentBytes r
    | _, _ => String.utf8EncodeChar '%' ++ percentBytes (a :: b :: r)
  | c :: r => String.utf8EncodeChar c ++ percentBytes r
  | [] => []

/-- The text for which a text in percent encoding stands. -/
def percentDecode (s : List Char) : List Char := utf8Decode ((percentBytes s).map UInt8.toNat)

theorem percentBytes_cons {c : Char} (h : c ≠ '%') (r : List Char) :
    percentBytes (c :: r) = String.utf8EncodeChar c ++ percentBytes r := by
  rw [percentBytes]
  rintro a b t rfl
  exact absurd rfl h

theorem percentBytes_percentByte (byte : UInt8) (r : List Char) :
    percentBytes (percentByte byte ++ r) = byte :: percentBytes r := by
  have hbyte := byte.toNat_lt
  have hhigh := hexValue?_hexDigit (byte.toNat / 16) (by omega)
  have hlow := hexValue?_hexDigit (byte.toNat % 16) (by omega)
  have hvalue : 16 * (byte.toNat / 16) + byte.toNat % 16 = byte.toNat := by omega
  rw [percentByte, List.cons_append, List.cons_append, List.cons_append, List.nil_append,
    percentBytes, hhigh, hlow]
  simp [hvalue]

theorem percentBytes_flatMap_percentByte (bytes : List UInt8) (r : List Char) :
    percentBytes (bytes.flatMap percentByte ++ r) = bytes ++ percentBytes r := by
  induction bytes with
  | nil => rfl
  | cons byte bytes ih =>
    rw [List.flatMap_cons, List.append_assoc, percentBytes_percentByte, ih, List.cons_append]

variable {safe : Char → Bool}

theorem percentBytes_percentChar (hsafe : safe '%' = false) (c : Char) (r : List Char) :
    percentBytes (percentChar safe c ++ r) = String.utf8EncodeChar c ++ percentBytes r := by
  rw [percentChar]
  split
  · next hkept =>
    have hsign : c ≠ '%' := by
      rintro rfl
      rw [hsafe] at hkept
      exact absurd hkept (by decide)
    exact percentBytes_cons hsign r
  · rw [percentBytes_flatMap_percentByte, toList_toUTF8_singleton]

theorem percentBytes_percentEncode (hsafe : safe '%' = false) (s : List Char) :
    percentBytes (percentEncode safe s) = s.flatMap String.utf8EncodeChar := by
  rw [percentEncode]
  induction s with
  | nil => rfl
  | cons c s ih =>
    rw [List.flatMap_cons, List.flatMap_cons, percentBytes_percentChar hsafe, ih]

/-- **A text is read from its percent encoding**, if percent signs are encoded. -/
theorem percentDecode_percentEncode (hsafe : safe '%' = false) (s : List Char) :
    percentDecode (percentEncode safe s) = s := by
  rw [percentDecode, percentBytes_percentEncode hsafe, utf8Decode_flatMap_utf8EncodeChar]

end LuaDocs.Text
