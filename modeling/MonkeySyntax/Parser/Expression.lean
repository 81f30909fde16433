import MonkeySyntax.Parser.Grammar
import MonkeySyntax.Text.Decimal

/-!
# MonkeySyntax — the rules of expressions

An expression is an operand and the operators that follow it. `operandRule` reads the operand by the
token that it starts with; `operatorsRule` goes on while the next token has more power than the
operator on the left. A right operand is read at the power of its own operator, so that operators of
equal power group to the left.

The rules that belong to one kind of token do not look at the token at which they stand; it is for
`operandRule` and `operatorRule` to choose the rule.
-/

namespace MonkeySyntax

namespace Grammar

open Rule

variable {σ : Type} [Reader σ]

/-! ## Operands of one token -/

def identifierRule : RuleOn σ Identifier := do
  let token ← current
  pure ⟨token, token.literal⟩

def integerRule : RuleOn σ Expr := do
  let token ← current
  match integerValue? token.literal with
  | some value => pure (.integer token value)
  | none => failHere (.invalidNumber token.literal)

def booleanRule : RuleOn σ Expr := do
  let token ← current
  pure (.boolean token (token.kind = .trueKw))

/-! ## Blocks

Only here is the count of open blocks changed. It is raised before the statements are read and
lowered after them, so a failure inside leaves it raised by the blocks that were open. -/

/-- A block, from the token that opens it to the bracket that closes it. -/
def blockRule (grammar : Grammar σ) : RuleOn σ Block := do
  let token ← current
  enterBlock
  advance
  let statements ← grammar.statements
  leaveBlock
  pure (.mk token statements)

/-! ## Operands of several tokens -/

def prefixOpRule (grammar : Grammar σ) : RuleOn σ Expr := do
  let token ← current
  advance
  let right ← grammar.expr .unary
  pure (.prefixOp token token.literal right)

def groupRule (grammar : Grammar σ) : RuleOn σ Expr := do
  advance
  let inner ← grammar.expr .lowest
  expect .closeParen
  pure inner

/-- The block after an `else`, if that comes next. -/
def alternativeRule (grammar : Grammar σ) : RuleOn σ (Option Block) := do
  if (← peekKind) = .elseKw then
    advance
    expect .openCurly
    let block ← grammar.blockRule
    pure (some block)
  else
    pure none

/-- A condition in parentheses, a block, and possibly another one. -/
def ifElseRule (grammar : Grammar σ) : RuleOn σ Expr := do
  let token ← current
  expect .openParen
  advance
  let condition ← grammar.expr .lowest
  expect .closeParen
  expect .openCurly
  let consequence ← grammar.blockRule
  let alternative ← grammar.alternativeRule
  pure (.ifElse token condition consequence alternative)

def moreParametersRule (grammar : Grammar σ) : RuleOn σ (List Identifier) := do
  if (← peekKind) = .comma then
    advance
    expect .identifier
    let parameter ← identifierRule
    let others ← grammar.moreParameters
    pure (parameter :: others)
  else
    pure []

/-- The parameters of a function and the parenthesis that closes them. -/
def parametersRule (grammar : Grammar σ) : RuleOn σ (List Identifier) := do
  if (← peekKind) = .closeParen then
    advance
    pure []
  else
    expect .identifier
    let parameter ← identifierRule
    let others ← grammar.moreParametersRule
    expect .closeParen
    pure (parameter :: others)

def functionRule (grammar : Grammar σ) : RuleOn σ Expr := do
  let token ← current
  expect .openParen
  let parameters ← grammar.parametersRule
  expect .openCurly
  let body ← grammar.blockRule
  pure (.function token parameters body)

/-- The operand that starts with the current token. -/
def operandRule (grammar : Grammar σ) : RuleOn σ Expr := do
  let token ← current
  match token.kind with
  | .identifier =>
    let name ← identifierRule
    pure (.identifier name)
  | .integer => integerRule
  | .trueKw | .falseKw => booleanRule
  | .bang | .dash => grammar.prefixOpRule
  | .openParen => grammar.groupRule
  | .ifKw => grammar.ifElseRule
  | .fnKw => grammar.functionRule
  | _ => noExpression

/-! ## Operators after an operand -/

def infixOpRule (grammar : Grammar σ) (power : Power) (left : Expr) : RuleOn σ Expr := do
  let token ← current
  advance
  let right ← grammar.expr power
  pure (.infixOp token left token.literal right)

def moreArgumentsRule (grammar : Grammar σ) : RuleOn σ (List Expr) := do
  if (← peekKind) = .comma then
    advance
    advance
    let argument ← grammar.expr .lowest
    let others ← grammar.moreArguments
    pure (argument :: others)
  else
    pure []

def argumentsRule (grammar : Grammar σ) : RuleOn σ (List Expr) := do
  if (← peekKind) = .closeParen then
    advance
    pure []
  else
    advance
    let argument ← grammar.expr .lowest
    let others ← grammar.moreArgumentsRule
    expect .closeParen
    pure (argument :: others)

def callRule (grammar : Grammar σ) (callee : Expr) : RuleOn σ Expr := do
  let token ← current
  let arguments ← grammar.argumentsRule
  pure (.call token callee arguments)

/-- What the current token makes of the operand on its left. -/
def operatorRule (grammar : Grammar σ) (power : Power) (left : Expr) : RuleOn σ Expr := do
  let token ← current
  match token.kind with
  | .plus | .dash | .star | .slash | .less | .greater | .equal | .notEqual =>
    grammar.infixOpRule power left
  | .openParen => grammar.callRule left
  | _ => pure left

/-- The operators of more than the given power that follow `left`, and their operands. -/
def operatorsRule (grammar : Grammar σ) (power : Power) (left : Expr) : RuleOn σ Expr := do
  let next ← peekKind
  if power < next.power then
    advance
    let left ← grammar.operatorRule next.power left
    grammar.operators power left
  else
    pure left

/-- An expression, up to the first operator of at most the given power. -/
def exprRule (grammar : Grammar σ) (power : Power) : RuleOn σ Expr := do
  let left ← grammar.operandRule
  grammar.operatorsRule power left

end Grammar

end MonkeySyntax
