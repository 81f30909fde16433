import MonkeySyntax.Text.Bytes

/-!
# MonkeySyntax — bytes that need not be text

`ofUtf8Lossy` reads bytes as UTF-8. Bytes that are no character are read as U+FFFD: a byte that
begins none on its own, and the longest beginning of a character that does not go on as one
together.
-/

namespace MonkeySyntax

/-- What stands for bytes that are no character. -/
def replacementChar : Char :=
  '\ufffd'

/-- A byte behind the first one of a character. -/
def isContinuation (byte : UInt8) : Bool :=
  0x80 ≤ byte && byte ≤ 0xbf

/-- Whether a character of three or four bytes that begins with `first` can go on with `second`.
Four first bytes leave a part of the continuations out: these would give a character that has a
shorter form, a surrogate, or a number past the last character. -/
def canFollow (first second : UInt8) : Bool :=
  isContinuation second &&
    match first with
    | 0xe0 => 0xa0 ≤ second
    | 0xed => second ≤ 0x9f
    | 0xf0 => 0x90 ≤ second
    | 0xf4 => second ≤ 0x8f
    | _ => 0xe1 ≤ first && first ≤ 0xf3

/-- How many of the bytes, which do not begin with a character, are replaced together. -/
def malformedLength : List UInt8 → Nat
  | first :: second :: rest =>
    if canFollow first second then
      if 0xf0 ≤ first && rest.head?.any isContinuation then 3 else 2
    else
      1
  | _ => 1

/-- The characters of the bytes, of which the first `covered` belong to the character before. -/
def decodeLossy : (covered : Nat) → List UInt8 → List Char
  | _, [] => []
  | covered + 1, _ :: rest => decodeLossy covered rest
  | 0, byte :: rest =>
    match ((byte :: rest).take 4).toByteArray.utf8DecodeChar? 0 with
    | some c => c :: decodeLossy (c.utf8Size - 1) rest
    | none => replacementChar :: decodeLossy (malformedLength (byte :: rest) - 1) rest

/-- The text of `bytes` in UTF-8, with U+FFFD for what is no character. -/
def ofUtf8Lossy (bytes : List UInt8) : String :=
  String.ofList (decodeLossy 0 bytes)

end MonkeySyntax
