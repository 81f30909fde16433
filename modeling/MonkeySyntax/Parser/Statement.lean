import MonkeySyntax.Parser.Expression

/-!
# MonkeySyntax — the rules of statements

A statement is a binding, a return, a block, or an expression on its own; the token that it starts
with tells which. It ends with a semicolon, which may be left out before a closing bracket and at
the end of the input, and after an expression that ends with a block.

As with expressions, the rules that belong to one kind of token do not look at that token.
-/

namespace MonkeySyntax

namespace Grammar

open Rule

variable {σ : Type} [Reader σ]

/-- A binding of what `value` reads. -/
def letOf (value : RuleOn σ Expr) : RuleOn σ Stmt := do
  let token ← current
  expect .identifier
  let name ← identifierRule
  expect .assign
  advance
  let value ← value
  endStatement value.endsWithBlock
  pure (.letBinding token name value)

/-- What `value` reads to return, or nothing where the statement ends at once. -/
def returnOf (value : RuleOn σ Expr) : RuleOn σ Stmt := do
  let token ← current
  match ← peekKind with
  | .semicolon | .closeCurly | .eof =>
    endStatement false
    pure (.returnValue token none)
  | _ =>
    advance
    let value ← value
    endStatement value.endsWithBlock
    pure (.returnValue token (some value))

/-- What `value` reads on its own. -/
def expressionOf (value : RuleOn σ Expr) : RuleOn σ Stmt := do
  let token ← current
  let value ← value
  endStatement value.endsWithBlock
  pure (.expression token value)

/-- The statement that starts with the current token, where `value` reads expressions and `block` a
block on its own. -/
def statementOf (value : RuleOn σ Expr) (block : RuleOn σ Stmt) : RuleOn σ Stmt := do
  let token ← current
  match token.kind with
  | .letKw => letOf value
  | .returnKw => returnOf value
  | .openCurly => block
  | _ => expressionOf value

/-- The statements from the current token to the bracket that closes the block. Each is read by
`statement`, and those behind it by `others`. -/
def statementsOf (statement : RuleOn σ Stmt) (others : RuleOn σ (List Stmt)) :
    RuleOn σ (List Stmt) := do
  let token ← current
  match token.kind with
  | .closeCurly => pure []
  | .eof => unclosedBlock
  | _ =>
    let statement ← statement
    advance
    let others ← others
    pure (statement :: others)

/-! ## The statements of a grammar -/

def letRule (grammar : Grammar σ) : RuleOn σ Stmt :=
  letOf (grammar.exprRule .lowest)

def returnRule (grammar : Grammar σ) : RuleOn σ Stmt :=
  returnOf (grammar.exprRule .lowest)

def expressionRule (grammar : Grammar σ) : RuleOn σ Stmt :=
  expressionOf (grammar.exprRule .lowest)

/-- A block on its own, after which a semicolon may stand. -/
def blockStatementRule (grammar : Grammar σ) : RuleOn σ Stmt := do
  let block ← grammar.blockRule
  endStatement true
  pure (.block block)

/-- The statement that starts with the current token. -/
def statementRule (grammar : Grammar σ) : RuleOn σ Stmt :=
  statementOf (grammar.exprRule .lowest) grammar.blockStatementRule

/-- The statements from the current token to the bracket that closes the block. -/
def statementsRule (grammar : Grammar σ) : RuleOn σ (List Stmt) :=
  statementsOf grammar.statementRule grammar.statements

/-! ## The grammar of an input -/

/-- The grammar whose nested phrases are read by `grammar`. -/
def step (grammar : Grammar σ) : Grammar σ where
  expr := grammar.exprRule
  operators := grammar.operatorsRule
  moreArguments := grammar.moreArgumentsRule
  moreParameters := grammar.moreParametersRule
  statements := grammar.statementsRule

/-- The grammar for inputs of which at most `n` tokens are left. -/
def upTo : (n : Nat) → Grammar σ
  | 0 => atEnd
  | n + 1 => (upTo n).step

end Grammar

end MonkeySyntax
