import MonkeySyntax.Lexer.Scan
import MonkeySyntax.Text.Lossy

/-!
# MonkeySyntax — the lexer

A `Lexer` hands out the tokens of a source one at a time. It goes over the source byte by byte: it
holds the byte at which it stands, and it knows the place of the one to be read next. Behind the
last byte it holds a zero. A source may have zeros of its own, so the end is told by the place
(`Lexer.atEnd`) and never by the byte.

It can be asked in two ways: `nextToken` gives the end of the input again and again, `next?` gives
it once and nothing after that. Both read on from the same place, so they can be mixed; `reset`
starts over. A lexer is a value: to keep a place in the source is to keep the lexer.
-/

namespace MonkeySyntax

/-- A place in a source, and whether `next?` has already given out the end of the input. -/
structure Lexer where
  source : Array UInt8
  /-- The place of the byte that is held. -/
  position : Nat
  /-- The place of the byte that is read next. -/
  readPosition : Nat
  /-- The byte at `position`, or zero behind the last one. -/
  held : UInt8
  ended : Bool
  deriving DecidableEq, Repr, Inhabited

namespace Lexer

/-! ## Bytes -/

/-- The byte behind the held one, or zero at the end. -/
def following (lexer : Lexer) : UInt8 :=
  lexer.source.getD lexer.readPosition 0

/-- Moves on to the byte that is read next. -/
def readByte (lexer : Lexer) : Lexer :=
  { lexer with
    position := lexer.readPosition
    readPosition := lexer.readPosition + 1
    held := lexer.following }

def atEnd (lexer : Lexer) : Bool :=
  lexer.source.size ≤ lexer.position

/-- Moves on over at most `n` bytes that are accepted. -/
def readUpTo (accept : UInt8 → Bool) : (n : Nat) → Lexer → Lexer
  | 0, lexer => lexer
  | n + 1, lexer =>
    if !lexer.atEnd && accept lexer.held then lexer.readByte.readUpTo accept n else lexer

/-- Moves on over all bytes that are accepted, of which there are no more than are left. -/
def readWhile (accept : UInt8 → Bool) (lexer : Lexer) : Lexer :=
  lexer.readUpTo accept (lexer.source.size - lexer.position)

/-- The text between two places. -/
def slice (lexer : Lexer) (start stop : Nat) : String :=
  ofUtf8Lossy (lexer.source.extract start stop).toList

/-- The lexer at the first byte. -/
def reset (lexer : Lexer) : Lexer :=
  readByte { lexer with position := 0, readPosition := 0, held := 0, ended := false }

def ofSource (text : String) : Lexer :=
  readByte ⟨text.toUTF8.data, 0, 0, 0, false⟩

/-! ## Tokens -/

/-- The kind of the symbol at the held byte, and the lexer at its last byte. Two symbols go on with
an equals sign. -/
def symbol? (lexer : Lexer) : Option (TokenKind × Lexer) :=
  match Char.ofUInt8 lexer.held with
  | '=' => some (if lexer.following = 0x3d then (.equal, lexer.readByte) else (.assign, lexer))
  | '!' => some (if lexer.following = 0x3d then (.notEqual, lexer.readByte) else (.bang, lexer))
  | ';' => some (.semicolon, lexer)
  | '(' => some (.openParen, lexer)
  | ')' => some (.closeParen, lexer)
  | '\x7b' => some (.openCurly, lexer)
  | '\x7d' => some (.closeCurly, lexer)
  | ',' => some (.comma, lexer)
  | '+' => some (.plus, lexer)
  | '-' => some (.dash, lexer)
  | '/' => some (.slash, lexer)
  | '*' => some (.star, lexer)
  | '<' => some (.less, lexer)
  | '>' => some (.greater, lexer)
  | _ => none

/-- The token at the held byte, which is neither a blank nor behind the end, and the lexer behind
it. -/
def tokenHere (lexer : Lexer) : Token × Lexer :=
  let start := lexer.position
  match lexer.symbol? with
  | some (kind, last) =>
    let later := last.readByte
    (.ofOffsets kind (later.slice start later.position) start later.position, later)
  | none =>
    if isLetter lexer.held then
      let later := lexer.readWhile isLetter
      let word := later.slice start later.position
      (.ofOffsets (.ofWord word) word start later.position, later)
    else if isDigit lexer.held then
      let later := lexer.readWhile isDigit
      (.ofOffsets .integer (later.slice start later.position) start later.position, later)
    else
      let later := lexer.readByte
      (.ofOffsets .illegal (ofBytes [lexer.held]) start later.position, later)

/-- The next token; at the end of the input that token, for ever. -/
def nextToken (lexer : Lexer) : Token × Lexer :=
  let lexer := lexer.readWhile isBlank
  if lexer.atEnd then
    (.endOfInput lexer.position, lexer)
  else
    lexer.tokenHere

/-- The next token; nothing once the end of the input has been given out in this way. -/
def next? (lexer : Lexer) : Option Token × Lexer :=
  if lexer.ended then
    (none, lexer)
  else
    let (token, later) := lexer.nextToken
    (some token, if token.kind = .eof then { later with ended := true } else later)

/-- The tokens that `next?` gives out until it gives nothing, but no more than `n`. -/
def collectUpTo : (n : Nat) → Lexer → List Token × Lexer
  | 0, lexer => ([], lexer)
  | n + 1, lexer =>
    match lexer.next? with
    | (none, later) => ([], later)
    | (some token, later) =>
      let (others, last) := later.collectUpTo n
      (token :: others, last)

/-- All the tokens that `next?` still gives out. Each of them but the end of the input covers a
byte of the source. -/
def collect (lexer : Lexer) : List Token × Lexer :=
  lexer.collectUpTo (lexer.source.size + 1)

/-! ## What is still to come -/

/-- The bytes from the held one on. -/
def unread (lexer : Lexer) : List UInt8 :=
  lexer.source.toList.drop lexer.position

/-- The tokens still to come before the end of the input. -/
def pending (lexer : Lexer) : List Token :=
  scan lexer.position 0 lexer.unread

def endToken (lexer : Lexer) : Token :=
  .endOfInput lexer.source.size

end Lexer

/-- The tokens of a source, the end of the input last. -/
def tokenize (text : String) : List Token :=
  (Lexer.ofSource text).collect.1

end MonkeySyntax
