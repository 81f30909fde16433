import MonkeySyntax.Parser.Statement

/-!
# MonkeySyntax — reading one phrase

Each phrase of the grammar can be read from where a parser stands, whatever the current token is.
These are the rules of `Parser/Expression.lean` and `Parser/Statement.lean` over the grammar for as
many tokens as the parser has left.
-/

namespace MonkeySyntax

namespace Parser

variable {σ : Type} [Reader σ]

/-- Reads by a rule over the grammar for the tokens that are left. -/
def reading {α : Type} (rule : Grammar σ → RuleOn σ α) : RuleOn σ α := fun state =>
  rule (.upTo (Reader.remaining state)) state

/-! ## Statements -/

def parseStatement : RuleOn σ Stmt := reading Grammar.statementRule

def parseLet : RuleOn σ Stmt := reading Grammar.letRule

def parseReturn : RuleOn σ Stmt := reading Grammar.returnRule

def parseExpressionStatement : RuleOn σ Stmt := reading Grammar.expressionRule

def parseBlock : RuleOn σ Block := reading Grammar.blockRule

/-! ## Expressions -/

def parseExpr (power : Power) : RuleOn σ Expr := reading (Grammar.exprRule · power)

def parseOperand : RuleOn σ Expr := reading Grammar.operandRule

def parseOperator (power : Power) (left : Expr) : RuleOn σ Expr :=
  reading (Grammar.operatorRule · power left)

def parseInfixOp (power : Power) (left : Expr) : RuleOn σ Expr :=
  reading (Grammar.infixOpRule · power left)

def parseCall (callee : Expr) : RuleOn σ Expr := reading (Grammar.callRule · callee)

def parseIdentifier : RuleOn σ Identifier := Grammar.identifierRule

def parseInteger : RuleOn σ Expr := Grammar.integerRule

def parseBoolean : RuleOn σ Expr := Grammar.booleanRule

def parsePrefixOp : RuleOn σ Expr := reading Grammar.prefixOpRule

def parseGroup : RuleOn σ Expr := reading Grammar.groupRule

def parseIfElse : RuleOn σ Expr := reading Grammar.ifElseRule

def parseFunction : RuleOn σ Expr := reading Grammar.functionRule

end Parser

end MonkeySyntax
