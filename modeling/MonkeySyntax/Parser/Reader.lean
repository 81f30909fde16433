import MonkeySyntax.Diagnostic.Basic

/-!
# MonkeySyntax — what reads tokens

To read a phrase is to look at the current token and at the one after it, to move on by one token,
and to count the blocks that are open. A `Reader` is a state with which this can be done. The rules
of the grammar are written over any of them, so they do not know where the tokens come from.

There are two. `Parser` (`Parser/State.lean`) has the tokens before it as a list; it says what is
read. `Window` (`Parser/Window.lean`) has two tokens and a lexer for the others; it says how.
-/

namespace MonkeySyntax

/-- A state that stands at a token and sees the one after it. -/
class Reader (σ : Type) where
  current : σ → Token
  peek : σ → Token
  /-- One token on. At the end of the input the state stays there. -/
  advance : σ → σ
  enterBlock : σ → σ
  leaveBlock : σ → σ
  /-- A bound on the number of tokens before the end of the input. -/
  remaining : σ → Nat

namespace Reader

variable {σ : Type} [Reader σ]

def position (state : σ) : Position :=
  (current state).span.start

/-- The diagnostic that the next token is not of the kind `expected`. -/
def unexpected (state : σ) (expected : TokenKind) : Diagnostic :=
  ⟨.unexpectedToken expected (peek state).kind, (peek state).span.start⟩

end Reader

end MonkeySyntax
