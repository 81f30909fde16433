import MonkeySyntax.Token.Kind

/-!
# MonkeySyntax — tokens and their places

A `Token` has a kind, its text and the span of source bytes that it covers. A place in the source
is a 32-bit word: an offset past `2 ^ 32` is kept modulo `2 ^ 32`, so tokens are made from offsets
in `Nat` by `Token.ofOffsets` and nothing is computed on the words themselves.
-/

namespace MonkeySyntax

/-- A byte offset into the source. -/
abbrev Position := UInt32

/-- The bytes from `start` up to, and not including, `stop`. -/
structure Span where
  start : Position
  stop : Position
  deriving DecidableEq, Repr, Inhabited

/-- A lexical unit: its kind, its text and where it stands. -/
structure Token where
  kind : TokenKind
  literal : String
  span : Span
  deriving DecidableEq, Repr, Inhabited

namespace Token

/-- The token that covers the bytes `start`, …, `stop - 1`. -/
def ofOffsets (kind : TokenKind) (literal : String) (start stop : Nat) : Token :=
  ⟨kind, literal, ⟨start.toUInt32, stop.toUInt32⟩⟩

/-- The end of an input of `size` bytes: a token without text at that offset. -/
def endOfInput (size : Nat) : Token :=
  ofOffsets .eof "" size size

def isOneOf (token : Token) (kinds : List TokenKind) : Bool :=
  kinds.contains token.kind

/-- The token as a sentence, with the label of its kind. -/
def describe (token : Token) : String :=
  "Type: [" ++ token.kind.label ++ "] | Literal: '" ++ token.literal ++ "'"

/-- The token in a listing: the name of its kind, and its text where the kind does not fix it. -/
def listing (token : Token) : String :=
  let shown := if token.isOneOf [.identifier, .integer, .illegal] then token.literal else ""
  token.kind.name ++ " (" ++ shown ++ ")"

theorem isOneOf_iff {token : Token} {kinds : List TokenKind} :
    token.isOneOf kinds = true ↔ token.kind ∈ kinds := by
  simp [isOneOf]

/-- An offset that fits a word is read back from the token. -/
theorem start_ofOffsets {kind : TokenKind} {literal : String} {start stop : Nat}
    (h : start < UInt32.size) : (ofOffsets kind literal start stop).span.start.toNat = start := by
  simpa [ofOffsets] using Nat.mod_eq_of_lt h

end Token

end MonkeySyntax
