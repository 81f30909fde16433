import MonkeySyntax.Text.Bytes
import MonkeySyntax.Token.Basic

/-!
# MonkeySyntax — from bytes to tokens

The tokens of a byte list, without any state. Blanks (space, tab, newline, carriage return) separate
tokens and are dropped. Of what begins at a byte that is no blank, `lexeme` takes the longest
symbol, the whole run of letters or the whole run of digits; a byte that begins none of these is a
token of its own, of kind `illegal`.

`scan` walks the list once. It carries the offset of the byte that it looks at and how many of the
bytes from there on belong to a token that it has already given out, so that it recurses on the
list alone.
-/

namespace MonkeySyntax

def isBlank (byte : UInt8) : Bool :=
  byte == 0x20 || byte == 0x09 || byte == 0x0a || byte == 0x0d

/-- A byte of a word: an ASCII letter or the underscore. -/
def isLetter (byte : UInt8) : Bool :=
  (0x61 ≤ byte && byte ≤ 0x7a) || (0x41 ≤ byte && byte ≤ 0x5a) || byte == 0x5f

def isDigit (byte : UInt8) : Bool :=
  0x30 ≤ byte && byte ≤ 0x39

/-- The longest symbol that `bytes` begins with, and its kind. -/
def symbolAt? (bytes : List UInt8) : Option (String × TokenKind) :=
  TokenKind.symbols.find? fun entry => (utf8 entry.1).isPrefixOf bytes

/-- The kind and the bytes of the token at the front of `bytes`, which is not a blank. At the end of
the bytes that is the end of the input, which has none. -/
def lexeme (bytes : List UInt8) : TokenKind × List UInt8 :=
  match symbolAt? bytes with
  | some (text, kind) => (kind, utf8 text)
  | none =>
    match bytes with
    | [] => (.eof, [])
    | byte :: _ =>
      if isLetter byte then
        let word := bytes.takeWhile isLetter
        (.ofWord (ofBytes word), word)
      else if isDigit byte then
        (.integer, bytes.takeWhile isDigit)
      else
        (.illegal, [byte])

/-- The tokens of `bytes`, which stand at `offset` in the source and of which the first `covered`
belong to the token before. The end of the input is not among them. -/
def scan : (offset covered : Nat) → (bytes : List UInt8) → List Token
  | _, _, [] => []
  | offset, covered + 1, _ :: rest => scan (offset + 1) covered rest
  | offset, 0, byte :: rest =>
    if isBlank byte then
      scan (offset + 1) 0 rest
    else
      let (kind, text) := lexeme (byte :: rest)
      Token.ofOffsets kind (ofBytes text) offset (offset + text.length) ::
        scan (offset + 1) (text.length - 1) rest

@[simp]
theorem scan_nil (offset covered : Nat) : scan offset covered [] = [] := by
  cases covered <;> rfl

/-- Bytes that belong to the token before are stepped over. -/
theorem scan_covered (offset covered : Nat) (bytes : List UInt8) :
    scan offset covered bytes = scan (offset + covered) 0 (bytes.drop covered) := by
  induction covered generalizing offset bytes with
  | zero => rfl
  | succ covered ih =>
    cases bytes with
    | nil => simp
    | cons byte rest =>
      rw [List.drop_succ_cons, scan, ih]
      congr 1
      omega

end MonkeySyntax
