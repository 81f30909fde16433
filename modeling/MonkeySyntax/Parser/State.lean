import MonkeySyntax.Lexer.Basic
import MonkeySyntax.Parser.Reader

/-!
# MonkeySyntax — the state of the parser

A `Parser` stands at a token and sees the one after it. What it holds is the list of the tokens from
the current one on; behind the last of them stands the end of the input, for ever. To advance is to
drop the head of the list, so every later state is a suffix of an earlier one, and the number of
tokens ahead measures what is left to do.

Besides the tokens it holds the diagnostics so far, in the order in which they were found, and
the number of blocks that the statement being read has opened and not closed.
-/

namespace MonkeySyntax

/-- Where the parser stands and what it has found. -/
structure Parser where
  /-- The tokens from the current one on, without the end of the input. -/
  ahead : List Token
  /-- Where the input ends. -/
  stop : Position
  /-- The diagnostics in the order in which they were found. -/
  diagnostics : List Diagnostic
  /-- The blocks opened by the statement being read and not closed yet. -/
  openBlocks : Nat
  deriving DecidableEq, Repr, Inhabited

namespace Parser

def ofLexer (lexer : Lexer) : Parser :=
  ⟨lexer.pending, lexer.endToken.span.start, [], 0⟩

def ofSource (text : String) : Parser :=
  ofLexer (.ofSource text)

def endToken (parser : Parser) : Token :=
  ⟨.eof, "", ⟨parser.stop, parser.stop⟩⟩

def current (parser : Parser) : Token :=
  parser.ahead.headD parser.endToken

def peek (parser : Parser) : Token :=
  parser.ahead.tail.headD parser.endToken

/-- The parser one token on. At the end of the input it stays there. -/
def advance (parser : Parser) : Parser :=
  { parser with ahead := parser.ahead.tail }

/-- The number of tokens before the end of the input. -/
def remaining (parser : Parser) : Nat :=
  parser.ahead.length

def atEnd (parser : Parser) : Bool :=
  parser.current.kind = .eof

def position (parser : Parser) : Position :=
  parser.current.span.start

/-- The diagnostic that the next token is not of the kind `expected`. -/
def unexpected (parser : Parser) (expected : TokenKind) : Diagnostic :=
  ⟨.unexpectedToken expected parser.peek.kind, parser.peek.span.start⟩

def record (parser : Parser) (diagnostic : Diagnostic) : Parser :=
  { parser with diagnostics := parser.diagnostics ++ [diagnostic] }

def enterBlock (parser : Parser) : Parser :=
  { parser with openBlocks := parser.openBlocks + 1 }

def leaveBlock (parser : Parser) : Parser :=
  { parser with openBlocks := parser.openBlocks - 1 }

@[default_instance]
instance : Reader Parser where
  current := current
  peek := peek
  advance := advance
  enterBlock := enterBlock
  leaveBlock := leaveBlock
  remaining := remaining

/-! ## The tokens ahead -/

@[simp]
theorem ahead_advance (parser : Parser) : parser.advance.ahead = parser.ahead.tail := rfl

@[simp]
theorem remaining_advance (parser : Parser) : parser.advance.remaining = parser.remaining - 1 := by
  simp [remaining]

@[simp]
theorem current_advance (parser : Parser) : parser.advance.current = parser.peek := rfl

theorem remaining_advance_le {parser : Parser} {n : Nat} (h : parser.remaining ≤ n) :
    parser.advance.remaining ≤ n :=
  Nat.le_trans (remaining_advance parser ▸ Nat.sub_le parser.remaining 1) h

theorem remaining_advance_le_of_succ {parser : Parser} {n : Nat} (h : parser.remaining ≤ n + 1) :
    parser.advance.remaining ≤ n := by
  rw [remaining_advance]
  exact Nat.sub_le_of_le_add h

/-- Away from the end of the input, to advance uses up a token. -/
theorem remaining_advance_lt {parser : Parser} (h : parser.atEnd = false) :
    parser.advance.remaining < parser.remaining := by
  cases hahead : parser.ahead with
  | nil => simp [atEnd, current, endToken, hahead] at h
  | cons token rest => simp [remaining, hahead]

end Parser

end MonkeySyntax
