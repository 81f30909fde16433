import MonkeySyntax.Syntax.Tree

/-!
# MonkeySyntax — the tree as source text

Every node prints itself in one layout: operators in parentheses, one blank around an operator
between operands and none after an operator before its operand, every statement closed by a
semicolon (a block by its bracket) and the statements of a program on lines of their own.

Names and operators print their value. Numbers, truth values and the keywords `let`, `return` and
`fn` print the text of their token; the keyword `if` is always spelled `if`.
-/

namespace MonkeySyntax

mutual

def Expr.render : Expr → String
  | .identifier name => name.value
  | .integer token _ => token.literal
  | .boolean token _ => token.literal
  | .prefixOp _ operator right => "(" ++ operator ++ right.render ++ ")"
  | .infixOp _ left operator right =>
    "(" ++ left.render ++ " " ++ operator ++ " " ++ right.render ++ ")"
  | .ifElse _ condition consequence alternative =>
    "if (" ++ condition.render ++ ") " ++ consequence.render ++ Block.renderElse alternative
  | .function token parameters body =>
    token.literal ++ "(" ++ ", ".intercalate (parameters.map Identifier.value) ++ ") " ++
      body.render
  | .call _ callee arguments =>
    callee.render ++ "(" ++ ", ".intercalate (Expr.renderEach arguments) ++ ")"

def Expr.renderEach : List Expr → List String
  | [] => []
  | expression :: rest => expression.render :: Expr.renderEach rest

/-- The text of a block: each statement after a blank, and a blank before the closing bracket. -/
def Block.render : Block → String
  | .mk _ statements => "\x7b" ++ Stmt.renderBody statements ++ " \x7d"

/-- The text of what follows the block of an `if`. -/
def Block.renderElse : Option Block → String
  | none => ""
  | some alternative => " else " ++ alternative.render

def Stmt.render : Stmt → String
  | .letBinding token name value =>
    token.literal ++ " " ++ name.value ++ " = " ++ value.render ++ ";"
  | .returnValue token none => token.literal ++ ";"
  | .returnValue token (some value) => token.literal ++ " " ++ value.render ++ ";"
  | .expression _ value => value.render ++ ";"
  | .block body => body.render

/-- The texts of the statements of a block, each after a blank. -/
def Stmt.renderBody : List Stmt → String
  | [] => ""
  | statement :: rest => " " ++ statement.render ++ Stmt.renderBody rest

end

/-- The text of a program, a statement a line. -/
def Program.render (program : Program) : String :=
  "\n".intercalate (program.statements.map Stmt.render)

theorem Expr.renderEach_eq_map (expressions : List Expr) :
    Expr.renderEach expressions = expressions.map Expr.render := by
  induction expressions with
  | nil => rfl
  | cons expression rest ih => rw [Expr.renderEach, ih, List.map_cons]

end MonkeySyntax
