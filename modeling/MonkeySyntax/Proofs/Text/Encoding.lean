import Mathlib.Algebra.Ring.Nat
import MonkeySyntax.Proofs.Text.Ascii
import MonkeySyntax.Text.Line

/-!
# MonkeySyntax — characters and their bytes

Places are counted in bytes and columns in characters. This module relates a list of characters to
its bytes in UTF-8.

* **`encode`** — the bytes of a list of characters, one character after the other.
* **`mem_encode_iff`** — a byte of ASCII stands among the bytes exactly if its character stands among
  the characters: no other character has bytes of ASCII.
* **`byteLength_eq_length_iff`** — there are as many bytes as characters exactly in a text of ASCII.
* **`exists_split_at`** — a place before the end falls in a character, either on its first byte or
  behind a byte that is not of ASCII.
-/

namespace MonkeySyntax

/-- The bytes of the characters in UTF-8. -/
def encode (chars : List Char) : List UInt8 :=
  chars.flatMap String.utf8EncodeChar

@[simp]
theorem encode_nil : encode [] = [] := rfl

@[simp]
theorem encode_cons (c : Char) (chars : List Char) :
    encode (c :: chars) = String.utf8EncodeChar c ++ encode chars := rfl

@[simp]
theorem encode_append (chars others : List Char) :
    encode (chars ++ others) = encode chars ++ encode others := by
  simp [encode]

theorem utf8_eq_encode (text : String) : utf8 text = encode text.toList :=
  utf8_eq_flatMap text

@[simp]
theorem length_encode (chars : List Char) : (encode chars).length = byteLength chars := by
  induction chars with
  | nil => rfl
  | cons c rest ih => simp [byteLength, ih]

/-- The places of a text end with its bytes. -/
theorem utf8ByteSize_eq (text : String) : text.utf8ByteSize = byteLength text.toList := by
  rw [← length_utf8, utf8_eq_encode, length_encode]

theorem byteLength_flatten (pieces : List (List Char)) :
    byteLength pieces.flatten = (pieces.map byteLength).sum := by
  induction pieces with
  | nil => rfl
  | cons piece pieces ih => simp [ih]

/-! ## Bytes of ASCII -/

/-- A character that is not of ASCII has no byte of ASCII. -/
theorem high_of_mem_utf8EncodeChar {c : Char} (hc : 128 ≤ c.toNat) {byte : UInt8}
    (h : byte ∈ String.utf8EncodeChar c) : 128 ≤ byte.toNat := by
  have hvalue : ¬ c.val.toNat ≤ 0x7f := Nat.not_le_of_lt hc
  unfold String.utf8EncodeChar at h
  simp only [hvalue, if_false] at h
  split at h
  · simp only [List.mem_cons, List.not_mem_nil, or_false] at h
    rcases h with rfl | rfl <;> simp only [UInt8.toNat_ofNat'] <;> omega
  · split at h <;> simp only [List.mem_cons, List.not_mem_nil, or_false] at h
    · rcases h with rfl | rfl | rfl <;> simp only [UInt8.toNat_ofNat'] <;> omega
    · rcases h with rfl | rfl | rfl | rfl <;> simp only [UInt8.toNat_ofNat'] <;> omega

theorem toUInt8_inj_of_ascii {c d : Char} (hc : c.toNat < 128) (hd : d.toNat < 128) :
    c.toUInt8 = d.toUInt8 ↔ c = d := by
  rw [← UInt8.toNat_inj, toNat_toUInt8 hc, toNat_toUInt8 hd, Char.toNat_inj]

theorem mem_encodeChar_iff {c d : Char} (hd : d.toNat < 128) :
    d.toUInt8 ∈ String.utf8EncodeChar c ↔ d = c := by
  by_cases hc : c.toNat < 128
  · rw [utf8EncodeChar_of_ascii hc, List.mem_singleton, toUInt8_inj_of_ascii hd hc]
  · constructor
    · intro hmem
      have hhigh := high_of_mem_utf8EncodeChar (Nat.le_of_not_lt hc) hmem
      rw [toNat_toUInt8 hd] at hhigh
      omega
    · rintro rfl
      exact absurd hd hc

/-- **No other character has the byte of a character of ASCII.** -/
theorem mem_encode_iff {d : Char} (hd : d.toNat < 128) {chars : List Char} :
    d.toUInt8 ∈ encode chars ↔ d ∈ chars := by
  unfold encode
  simp only [List.mem_flatMap, mem_encodeChar_iff hd, exists_eq_right']

theorem encode_of_ascii {chars : List Char} (h : ∀ c ∈ chars, c.toNat < 128) :
    encode chars = chars.map Char.toUInt8 := by
  have hascii : ∀ c ∈ (String.ofList chars).toList, c.toNat < 128 := by
    rwa [String.toList_ofList]
  have hutf8 := utf8_of_ascii hascii
  rwa [utf8_eq_encode, String.toList_ofList] at hutf8

/-! ## Bytes and characters -/

theorem utf8Size_eq_one_iff {c : Char} : c.utf8Size = 1 ↔ c.toNat < 128 := by
  rw [Char.utf8Size_eq_one_iff, UInt32.le_iff_toNat_le]
  exact Nat.lt_succ_iff.symm

theorem length_le_byteLength (chars : List Char) : chars.length ≤ byteLength chars := by
  induction chars with
  | nil => exact Nat.le_refl 0
  | cons c rest ih =>
    have hpos := c.utf8Size_pos
    simp only [byteLength, List.length_cons]
    omega

/-- **A text has as many bytes as characters exactly if it is of ASCII.** -/
theorem byteLength_eq_length_iff {chars : List Char} :
    byteLength chars = chars.length ↔ ∀ c ∈ chars, c.toNat < 128 := by
  induction chars with
  | nil => simp [byteLength]
  | cons c rest ih =>
    have hpos := c.utf8Size_pos
    have hle := length_le_byteLength rest
    rw [List.forall_mem_cons, ← ih, ← utf8Size_eq_one_iff, byteLength, List.length_cons]
    omega

/-- Behind the bytes of some characters stands the first one of the next. -/
theorem getElem?_encode (before after : List Char) (c : Char) :
    (encode (before ++ c :: after))[byteLength before]? = (String.utf8EncodeChar c).head? := by
  have hpos : 0 < (String.utf8EncodeChar c).length := by
    rw [String.length_utf8EncodeChar]
    exact c.utf8Size_pos
  rw [encode_append, encode_cons, ← length_encode, List.getElem?_append_right (Nat.le_refl _),
    Nat.sub_self, List.getElem?_append_left hpos, List.head?_eq_getElem?]

/-- A place before the end falls in a character. -/
theorem exists_split_in {chars : List Char} {position : Nat} (h : position < byteLength chars) :
    ∃ before c after, chars = before ++ c :: after ∧ byteLength before ≤ position ∧
      position < byteLength before + c.utf8Size := by
  induction chars generalizing position with
  | nil => exact absurd h (Nat.not_lt_zero _)
  | cons c rest ih =>
    rw [byteLength] at h
    by_cases hfirst : position < c.utf8Size
    · exact ⟨[], c, rest, rfl, Nat.zero_le _, by simpa [byteLength] using hfirst⟩
    · have hrest : position - c.utf8Size < byteLength rest := by omega
      obtain ⟨before, d, after, rfl, hle, hlt⟩ := ih hrest
      refine ⟨c :: before, d, after, rfl, ?_, ?_⟩ <;> rw [byteLength] <;> omega

/-- A place before the end is that of a character, or it is behind a byte that is not of ASCII. -/
theorem exists_split_at {chars : List Char} {position : Nat} (h : position < byteLength chars) :
    (∃ before c after, chars = before ++ c :: after ∧ byteLength before = position) ∨
      ∃ i byte, position = i + 1 ∧ (encode chars)[i]? = some byte ∧ 128 ≤ byte.toNat := by
  obtain ⟨before, c, after, rfl, hle, hlt⟩ := exists_split_in h
  rcases Nat.lt_or_eq_of_le hle with hinside | heq
  · -- a character of several bytes has none of ASCII
    right
    have hhigh : 128 ≤ c.toNat := by
      have hsize := utf8Size_eq_one_iff (c := c)
      omega
    have hbyte : position - 1 - byteLength before < (String.utf8EncodeChar c).length := by
      rw [String.length_utf8EncodeChar]
      omega
    refine ⟨position - 1, (String.utf8EncodeChar c)[position - 1 - byteLength before], by omega, ?_,
      high_of_mem_utf8EncodeChar hhigh (List.getElem_mem hbyte)⟩
    rw [encode_append, encode_cons, List.getElem?_append_right (by rw [length_encode]; omega),
      length_encode, List.getElem?_append_left hbyte, List.getElem?_eq_getElem hbyte]
  · exact Or.inl ⟨before, c, after, rfl, heq⟩

end MonkeySyntax
