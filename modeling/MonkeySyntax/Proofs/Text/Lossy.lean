import MonkeySyntax.Proofs.Text.Ascii
import MonkeySyntax.Text.Lossy

/-!
# MonkeySyntax — bytes that are text

Of bytes that are the UTF-8 of a text nothing is replaced (`ofUtf8Lossy_utf8`). Bytes of ASCII are
always such bytes, and each of them is a character (`ofUtf8Lossy_of_ascii`).
-/

namespace MonkeySyntax

/-- Bytes that belong to the character before are stepped over. -/
theorem decodeLossy_covered (covered : Nat) (bytes : List UInt8) :
    decodeLossy covered bytes = decodeLossy 0 (bytes.drop covered) := by
  induction covered generalizing bytes with
  | zero => rfl
  | succ covered ih =>
    cases bytes with
    | nil => rfl
    | cons byte rest => exact ih rest

/-- A character is seen in the four bytes from its first one. -/
theorem utf8DecodeChar?_take (c : Char) (rest : List UInt8) :
    ((String.utf8EncodeChar c ++ rest).take 4).toByteArray.utf8DecodeChar? 0 = some c := by
  have hlength : (String.utf8EncodeChar c).length ≤ 4 := by
    rw [String.length_utf8EncodeChar]
    exact c.utf8Size_le_four
  rw [List.take_append, List.take_of_length_le hlength, List.toByteArray_append]
  exact ByteArray.utf8DecodeChar?_utf8EncodeChar_append

theorem decodeLossy_utf8EncodeChar (c : Char) (rest : List UInt8) :
    decodeLossy 0 (String.utf8EncodeChar c ++ rest) = c :: decodeLossy 0 rest := by
  have hlength : (String.utf8EncodeChar c).length = c.utf8Size := String.length_utf8EncodeChar c
  have htake := utf8DecodeChar?_take c rest
  cases hbytes : String.utf8EncodeChar c with
  | nil => exact absurd hbytes String.utf8EncodeChar_ne_nil
  | cons byte others =>
    rw [hbytes] at hlength htake
    rw [List.length_cons] at hlength
    rw [List.cons_append] at htake ⊢
    have hothers : c.utf8Size - 1 = others.length := by omega
    rw [decodeLossy, htake]
    dsimp only
    rw [decodeLossy_covered, hothers, List.drop_left]

/-- **Nothing is replaced in the bytes of a text.** -/
theorem ofUtf8Lossy_utf8 (text : String) : ofUtf8Lossy (utf8 text) = text := by
  have hchars : ∀ chars : List Char,
      decodeLossy 0 (chars.flatMap String.utf8EncodeChar) = chars := by
    intro chars
    induction chars with
    | nil => rfl
    | cons c chars ih => rw [List.flatMap_cons, decodeLossy_utf8EncodeChar, ih]
  rw [ofUtf8Lossy, utf8_eq_flatMap, hchars, String.ofList_toList]

/-- Bytes of ASCII are read one by one. -/
theorem ofUtf8Lossy_of_ascii {bytes : List UInt8} (h : ∀ byte ∈ bytes, byte.toNat < 128) :
    ofUtf8Lossy bytes = ofBytes bytes := by
  have hback : ofUtf8Lossy (utf8 (ofBytes bytes)) = ofBytes bytes := ofUtf8Lossy_utf8 _
  rwa [utf8_ofBytes h] at hback

end MonkeySyntax
