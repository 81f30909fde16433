import MonkeySyntax.Parser.Phrase

/-!
# MonkeySyntax — a parser on a lexer

A `Window` reads phrases without a list of the tokens. It holds two of them, the current one and the
one after it, and pulls the others out of a lexer when it moves on, one at a time. So no token is
made before it is looked at, and none is kept.

What a window reads and where it stands then is what a parser reads on the tokens of the lexer
(`Proofs/Parser/Window.lean`).
-/

namespace MonkeySyntax

/-- Two tokens, the lexer that gives those behind them, and what was found so far. -/
structure Window where
  lexer : Lexer
  current : Token
  peek : Token
  /-- The diagnostics in the order in which they were found. -/
  diagnostics : List Diagnostic
  /-- The blocks opened by the statement being read and not closed yet. -/
  openBlocks : Nat
  deriving DecidableEq, Repr, Inhabited

namespace Window

/-- A window on the first two tokens that the lexer gives. -/
def ofLexer (lexer : Lexer) : Window :=
  let (current, lexer) := lexer.nextToken
  let (peek, lexer) := lexer.nextToken
  ⟨lexer, current, peek, [], 0⟩

def ofSource (text : String) : Window :=
  ofLexer (.ofSource text)

/-- The window one token on. -/
def advance (window : Window) : Window :=
  let (next, lexer) := window.lexer.nextToken
  { window with lexer, current := window.peek, peek := next }

def atEnd (window : Window) : Bool :=
  window.current.kind = .eof

def record (window : Window) (diagnostic : Diagnostic) : Window :=
  { window with diagnostics := window.diagnostics ++ [diagnostic] }

def enterBlock (window : Window) : Window :=
  { window with openBlocks := window.openBlocks + 1 }

def leaveBlock (window : Window) : Window :=
  { window with openBlocks := window.openBlocks - 1 }

/-- The two tokens, and one for each byte of the source at most. -/
def remaining (window : Window) : Nat :=
  window.lexer.source.size + 2

instance : Reader Window where
  current := current
  peek := peek
  advance := advance
  enterBlock := enterBlock
  leaveBlock := leaveBlock
  remaining := remaining

/-! ## Programs

Statements are read, and broken ones are skipped, as a parser does it on its list. -/

/-- Moves on over at most `n` tokens to the last one of a broken statement, where `depth` blocks are
open. -/
def skipUpTo : (n depth : Nat) → Window → Window
  | 0, _, window => window
  | n + 1, depth, window =>
    match window.current.kind with
    | .eof => window
    | .semicolon => if depth = 0 then window else window.advance.skipUpTo n depth
    | .openCurly => window.advance.skipUpTo n (depth + 1)
    | .closeCurly =>
      if depth = 1 then
        if window.peek.kind = .semicolon then window.advance else window
      else
        window.advance.skipUpTo n (depth - 1)
    | _ => window.advance.skipUpTo n depth

/-- The window at the end of the statement that could not be read, with no block open. -/
def skipBroken (window : Window) : Window :=
  { window with openBlocks := 0 }.skipUpTo window.remaining window.openBlocks

/-- Reads one statement, or records why there is none and skips to its end; moves on behind it in
both cases. -/
def readStatement (grammar : Grammar Window) (window : Window) : Option Stmt × Window :=
  match grammar.statementRule window with
  | .ok statement window => (some statement, window.advance)
  | .error diagnostic window => (none, (window.record diagnostic).skipBroken.advance)

/-- Reads statements up to the end of the input, which is at most `n` tokens on. -/
def readStatements (grammar : Grammar Window) : (n : Nat) → Window → List Stmt × Window
  | 0, window => ([], window)
  | n + 1, window =>
    if window.atEnd then
      ([], window)
    else
      let (statement?, window) := window.readStatement grammar
      let (others, window) := window.readStatements grammar n
      (statement?.toList ++ others, window)

/-- Reads a program. -/
def parseProgram (window : Window) : Program × Window :=
  let (statements, window) := window.readStatements (.upTo window.remaining) window.remaining
  (⟨statements⟩, window)

end Window

end MonkeySyntax
