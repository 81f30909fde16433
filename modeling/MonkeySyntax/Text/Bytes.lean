/-!
# MonkeySyntax — source text as bytes

The lexer reads the UTF-8 bytes of the source, one byte at a time. `utf8` gives the bytes of a
text and `ofBytes` reads bytes back, each as the character with that code point. On ASCII the two
undo each other; a byte from 128 up reads as one character of its own (`é` as `Ã` and `©`), which is
how the text of a token shows a byte that starts no token.
-/

namespace MonkeySyntax

/-- The bytes of `text` in UTF-8. -/
def utf8 (text : String) : List UInt8 :=
  text.toUTF8.data.toList

/-- The text of `bytes`, each byte read as the character with that code point. -/
def ofBytes (bytes : List UInt8) : String :=
  String.ofList (bytes.map Char.ofUInt8)

@[simp]
theorem utf8_append (s t : String) : utf8 (s ++ t) = utf8 s ++ utf8 t := by
  simp [utf8]

@[simp]
theorem length_utf8 (s : String) : (utf8 s).length = s.utf8ByteSize := by
  rfl

@[simp]
theorem toList_ofBytes (bytes : List UInt8) : (ofBytes bytes).toList = bytes.map Char.ofUInt8 := by
  simp [ofBytes]

@[simp]
theorem ofBytes_append (as bs : List UInt8) : ofBytes (as ++ bs) = ofBytes as ++ ofBytes bs := by
  simp [ofBytes]

end MonkeySyntax
