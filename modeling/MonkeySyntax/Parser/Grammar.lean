import MonkeySyntax.Parser.Power
import MonkeySyntax.Parser.Rule
import MonkeySyntax.Syntax.Tree

/-!
# MonkeySyntax — the repeated phrases of the grammar

Five phrases of the grammar occur inside themselves: an expression, the operators that follow an
operand, the rest of a list of arguments, the rest of a list of parameters, and the statements up to
the bracket that closes a block. A `Grammar` says how to read each of them.

The rules in `Parser/Expression.lean` and `Parser/Statement.lean` are written over a grammar, which
they ask for the phrases nested in the one that they read. They ask only after having used up a
token, or at the end of the input. So a grammar that is right where fewer tokens are left gives one
that is right here (`Grammar.step`), and `Grammar.atEnd`, which is right where none are left, is the
first of them.
-/

namespace MonkeySyntax

/-- How the phrases that occur inside themselves are read by readers of one type. -/
structure Grammar (σ : Type := Parser) where
  /-- An expression, up to the first operator of at most the given power. -/
  expr : Power → RuleOn σ Expr
  /-- The operators of more than the given power that follow an operand, and their operands. -/
  operators : Power → Expr → RuleOn σ Expr
  /-- The arguments that follow one, each after a comma. -/
  moreArguments : RuleOn σ (List Expr)
  /-- The parameters that follow one, each after a comma. -/
  moreParameters : RuleOn σ (List Identifier)
  /-- The statements from the current token to the bracket that closes the block. -/
  statements : RuleOn σ (List Stmt)

namespace Grammar

variable {σ : Type} [Reader σ]

def noExpression {α : Type} : RuleOn σ α := do
  let token ← Rule.current
  Rule.failHere (.notAnExpression token.kind)

def unclosedBlock {α : Type} : RuleOn σ α :=
  Rule.failHere (.unexpectedToken .closeCurly .eof)

/-- The phrases at the end of the input: no expression, an operand that nothing follows, lists that
do not go on, and a block that is not closed. -/
def atEnd : Grammar σ where
  expr _ := noExpression
  operators _ left := pure left
  moreArguments := pure []
  moreParameters := pure []
  statements := unclosedBlock

end Grammar

end MonkeySyntax
