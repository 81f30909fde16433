import MonkeySyntax.Lexer.Scan

/-!
# MonkeySyntax — words and numbers as bytes

A character of ASCII is one byte, and reading the byte gives the character back. So the letters and
digits of a text are the letters and digits among its bytes, in both directions.
-/

namespace MonkeySyntax

/-- A text that can name something: letters of ASCII and underscores, at least one, and not a
reserved word. -/
def IsName (text : String) : Prop :=
  text.toList ≠ [] ∧ (∀ c ∈ text.toList, c.isAlpha = true ∨ c = '_') ∧
    TokenKind.isKeyword text = false

/-- A text of digits of ASCII, at least one. -/
def IsNumber (text : String) : Prop :=
  text.toList ≠ [] ∧ ∀ c ∈ text.toList, c.isDigit = true

instance (text : String) : Decidable (IsName text) :=
  decidable_of_iff (text.toList ≠ [] ∧ text.toList.all (fun c => c.isAlpha || c == '_') = true ∧
    TokenKind.isKeyword text = false) (by simp [IsName])

instance (text : String) : Decidable (IsNumber text) :=
  decidable_of_iff (text.toList ≠ [] ∧ text.toList.all Char.isDigit = true) (by simp [IsNumber])

/-! ## Bytes of ASCII -/

theorem utf8_eq_flatMap (text : String) :
    utf8 text = text.toList.flatMap String.utf8EncodeChar := by
  rw [utf8, String.toUTF8, ← String.utf8Encode_toList, List.utf8Encode]
  simp

theorem utf8EncodeChar_of_ascii {c : Char} (h : c.toNat < 128) :
    String.utf8EncodeChar c = [c.toUInt8] := by
  apply String.utf8EncodeChar_eq_singleton
  rw [Char.utf8Size, if_pos]
  rw [UInt32.le_iff_toNat_le]
  exact Nat.le_of_lt_succ h

theorem utf8_of_ascii {text : String} (h : ∀ c ∈ text.toList, c.toNat < 128) :
    utf8 text = text.toList.map Char.toUInt8 := by
  rw [utf8_eq_flatMap]
  generalize text.toList = chars at h ⊢
  induction chars with
  | nil => rfl
  | cons c rest ih =>
    obtain ⟨hc, hrest⟩ := List.forall_mem_cons.mp h
    rw [List.flatMap_cons, List.map_cons, utf8EncodeChar_of_ascii hc, ih hrest]
    rfl

theorem ofUInt8_toUInt8 {c : Char} (h : c.toNat < 128) : Char.ofUInt8 c.toUInt8 = c := by
  apply Char.toNat_inj.mp
  show c.toNat % 256 = c.toNat
  omega

/-- A text of ASCII is read back from its bytes. -/
theorem ofBytes_utf8 {text : String} (h : ∀ c ∈ text.toList, c.toNat < 128) :
    ofBytes (utf8 text) = text := by
  rw [ofBytes, utf8_of_ascii h, List.map_map]
  have hmap : text.toList.map (Char.ofUInt8 ∘ Char.toUInt8) = text.toList.map id :=
    List.map_congr_left fun c hc => ofUInt8_toUInt8 (h c hc)
  rw [hmap, List.map_id, String.ofList_toList]

theorem toUInt8_ofUInt8 (byte : UInt8) : (Char.ofUInt8 byte).toUInt8 = byte := by
  apply UInt8.toNat_inj.mp
  show byte.toNat % 256 = byte.toNat
  exact Nat.mod_eq_of_lt byte.toNat_lt

theorem toNat_ofUInt8 (byte : UInt8) : (Char.ofUInt8 byte).toNat = byte.toNat := by
  show byte.toUInt32.toNat = byte.toNat
  exact UInt8.toNat_toUInt32 byte

/-- Bytes of ASCII are read back from their text. -/
theorem utf8_ofBytes {bytes : List UInt8} (h : ∀ byte ∈ bytes, byte.toNat < 128) :
    utf8 (ofBytes bytes) = bytes := by
  have hascii : ∀ c ∈ (ofBytes bytes).toList, c.toNat < 128 := by
    intro c hc
    rw [toList_ofBytes] at hc
    obtain ⟨byte, hbyte, rfl⟩ := List.mem_map.mp hc
    rw [toNat_ofUInt8]
    exact h byte hbyte
  rw [utf8_of_ascii hascii, toList_ofBytes, List.map_map]
  have hmap : bytes.map (Char.toUInt8 ∘ Char.ofUInt8) = bytes.map id :=
    List.map_congr_left fun byte _ => toUInt8_ofUInt8 byte
  rw [hmap, List.map_id]

/-! ## Letters and digits

As numbers, the letters and digits of a text and those of its bytes are the same. -/

theorem isAlpha_iff_toNat {c : Char} :
    c.isAlpha = true ↔ (65 ≤ c.toNat ∧ c.toNat ≤ 90) ∨ (97 ≤ c.toNat ∧ c.toNat ≤ 122) := by
  have hlower : c.isLower = true ↔ 97 ≤ c.toNat ∧ c.toNat ≤ 122 := by
    show (decide (c.val ≥ 'a'.val) && decide (c.val ≤ 'z'.val)) = true ↔ _
    rw [Bool.and_eq_true]
    exact and_congr decide_eq_true_iff decide_eq_true_iff
  show (c.isUpper || c.isLower) = true ↔ _
  rw [Bool.or_eq_true]
  exact or_congr decide_eq_true_iff hlower

theorem isLetter_iff_toNat {byte : UInt8} :
    isLetter byte = true ↔ ((97 ≤ byte.toNat ∧ byte.toNat ≤ 122) ∨
      (65 ≤ byte.toNat ∧ byte.toNat ≤ 90)) ∨ byte.toNat = 95 := by
  simp only [isLetter, Bool.or_eq_true, Bool.and_eq_true, decide_eq_true_eq, beq_iff_eq,
    UInt8.le_iff_toNat_le, ← UInt8.toNat_inj]
  exact Iff.rfl

theorem isDigit_iff_toNat {byte : UInt8} :
    isDigit byte = true ↔ 48 ≤ byte.toNat ∧ byte.toNat ≤ 57 := by
  simp only [isDigit, Bool.and_eq_true, decide_eq_true_eq, UInt8.le_iff_toNat_le]
  exact Iff.rfl

theorem toNat_lt_of_isLetter {byte : UInt8} (h : isLetter byte = true) : byte.toNat < 128 := by
  have hletter := isLetter_iff_toNat.mp h
  omega

theorem toNat_lt_of_isDigit {byte : UInt8} (h : isDigit byte = true) : byte.toNat < 128 := by
  have hdigit := isDigit_iff_toNat.mp h
  omega

theorem toNat_toUInt8 {c : Char} (h : c.toNat < 128) : c.toUInt8.toNat = c.toNat := by
  show c.toNat % 256 = c.toNat
  omega

theorem isAlpha_ofUInt8 {byte : UInt8} (h : isLetter byte = true) :
    (Char.ofUInt8 byte).isAlpha = true ∨ Char.ofUInt8 byte = '_' := by
  rw [isAlpha_iff_toNat, ← Char.toNat_inj, toNat_ofUInt8]
  show _ ∨ byte.toNat = 95
  have hletter := isLetter_iff_toNat.mp h
  omega

theorem isDigit_ofUInt8 {byte : UInt8} (h : isDigit byte = true) :
    (Char.ofUInt8 byte).isDigit = true := by
  rw [Char.isDigit_iff_toNat, toNat_ofUInt8]
  exact isDigit_iff_toNat.mp h

theorem ascii_of_isAlpha {c : Char} (h : c.isAlpha = true ∨ c = '_') : c.toNat < 128 := by
  rcases h with h | rfl
  · have hletter := isAlpha_iff_toNat.mp h
    omega
  · decide

theorem ascii_of_isDigit {c : Char} (h : c.isDigit = true) : c.toNat < 128 := by
  have hdigit : 48 ≤ c.toNat ∧ c.toNat ≤ 57 := Char.isDigit_iff_toNat.mp h
  omega

theorem isLetter_toUInt8 {c : Char} (h : c.isAlpha = true ∨ c = '_') :
    isLetter c.toUInt8 = true := by
  rw [isLetter_iff_toNat, toNat_toUInt8 (ascii_of_isAlpha h)]
  rcases h with h | rfl
  · have hletter := isAlpha_iff_toNat.mp h
    omega
  · decide

theorem isDigit_toUInt8 {c : Char} (h : c.isDigit = true) : isDigit c.toUInt8 = true := by
  rw [isDigit_iff_toNat, toNat_toUInt8 (ascii_of_isDigit h)]
  exact Char.isDigit_iff_toNat.mp h

/-! ## Words and numbers -/

theorem letters_utf8 {text : String} (h : ∀ c ∈ text.toList, c.isAlpha = true ∨ c = '_') :
    ofBytes (utf8 text) = text ∧ ∀ byte ∈ utf8 text, isLetter byte = true := by
  have hascii : ∀ c ∈ text.toList, c.toNat < 128 := fun c hc => ascii_of_isAlpha (h c hc)
  refine ⟨ofBytes_utf8 hascii, ?_⟩
  intro byte hbyte
  rw [utf8_of_ascii hascii] at hbyte
  obtain ⟨c, hc, rfl⟩ := List.mem_map.mp hbyte
  exact isLetter_toUInt8 (h c hc)

theorem IsNumber.utf8 {text : String} (h : IsNumber text) :
    ofBytes (utf8 text) = text ∧ ∀ byte ∈ utf8 text, isDigit byte = true := by
  have hascii : ∀ c ∈ text.toList, c.toNat < 128 := fun c hc => ascii_of_isDigit (h.2 c hc)
  refine ⟨ofBytes_utf8 hascii, ?_⟩
  intro byte hbyte
  rw [utf8_of_ascii hascii] at hbyte
  obtain ⟨c, hc, rfl⟩ := List.mem_map.mp hbyte
  exact isDigit_toUInt8 (h.2 c hc)

theorem utf8_ne_nil {text : String} (h : text.toList ≠ []) : utf8 text ≠ [] := by
  intro hnil
  have hsize : text.utf8ByteSize = 0 := by rw [← length_utf8, hnil, List.length_nil]
  rw [String.utf8ByteSize_eq_zero_iff] at hsize
  exact h (by rw [hsize]; rfl)

theorem letters_ofBytes {bytes : List UInt8} (hnil : bytes ≠ [])
    (h : ∀ byte ∈ bytes, isLetter byte = true) :
    (ofBytes bytes).toList ≠ [] ∧ ∀ c ∈ (ofBytes bytes).toList, c.isAlpha = true ∨ c = '_' := by
  refine ⟨by simpa using hnil, ?_⟩
  intro c hc
  rw [toList_ofBytes] at hc
  obtain ⟨byte, hbyte, rfl⟩ := List.mem_map.mp hc
  exact isAlpha_ofUInt8 (h byte hbyte)

theorem isName_ofBytes {bytes : List UInt8} (hnil : bytes ≠ [])
    (h : ∀ byte ∈ bytes, isLetter byte = true)
    (hkeyword : TokenKind.isKeyword (ofBytes bytes) = false) : IsName (ofBytes bytes) := by
  obtain ⟨hchars, hletters⟩ := letters_ofBytes hnil h
  exact ⟨hchars, hletters, hkeyword⟩

theorem isNumber_ofBytes {bytes : List UInt8} (hnil : bytes ≠ [])
    (h : ∀ byte ∈ bytes, isDigit byte = true) : IsNumber (ofBytes bytes) := by
  refine ⟨by simpa using hnil, ?_⟩
  intro c hc
  rw [toList_ofBytes] at hc
  obtain ⟨byte, hbyte, rfl⟩ := List.mem_map.mp hc
  exact isDigit_ofUInt8 (h byte hbyte)

theorem ofBytes_utf8_of_mem_symbols {entry : String × TokenKind} (h : entry ∈ TokenKind.symbols) :
    ofBytes (utf8 entry.1) = entry.1 := by
  revert entry
  decide

theorem ascii_of_mem_symbols {entry : String × TokenKind} (h : entry ∈ TokenKind.symbols) :
    ∀ byte ∈ utf8 entry.1, byte.toNat < 128 := by
  have hall : ∀ entry ∈ TokenKind.symbols,
      (utf8 entry.1).all (fun byte => byte.toNat < 128) = true := by
    decide
  intro byte hbyte
  simpa using List.all_eq_true.mp (hall entry h) byte hbyte

end MonkeySyntax
