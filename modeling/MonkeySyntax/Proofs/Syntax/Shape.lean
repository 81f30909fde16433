import MonkeySyntax.Proofs.Lexer.Lexemes
import MonkeySyntax.Syntax.Render

/-!
# MonkeySyntax — the shape of a tree

A tree that is printed and read again has other tokens: they stand at other places, and where a tree
was made by hand they need not have been the tokens of its nodes at all. What is kept is its shape.

* **`Expr.retoken`** — the tree with other tokens and all else as it is: names, numbers, truth
  values and operators, the order of the parts and which of them are there.
* **`Expr.shape`** — the tree with the tokens that its nodes are read from, at no place. Of a token
  only the text of a number is kept, so trees of one shape differ in nothing else than tokens.
* **`Expr.bare`** — the tree with its own tokens, at no place. A statement that is an expression
  loses its token altogether, which is the first one of what was written, a parenthesis perhaps.
-/

namespace MonkeySyntax

def boolWord (value : Bool) : String :=
  if value then "true" else "false"

def TokenKind.ofBool (value : Bool) : TokenKind :=
  if value then .trueKw else .falseKw

/-! ## Other tokens -/

/-- What becomes of the tokens of a tree. -/
structure Retokening where
  /-- Of the token of a node, next to the one that the node is read from. -/
  node : (token standard : Token) → Token
  /-- Of the first token of a statement that is an expression. -/
  first : Token → Token

def Identifier.retoken (tokens : Retokening) (name : Identifier) : Identifier :=
  ⟨tokens.node name.token (.spelled .identifier name.value), name.value⟩

mutual

/-- The expression with other tokens. -/
def Expr.retoken (tokens : Retokening) : Expr → Expr
  | .identifier name => .identifier (name.retoken tokens)
  | .integer token value => .integer (tokens.node token (.spelled .integer token.literal)) value
  | .boolean token value =>
    .boolean (tokens.node token (.spelled (.ofBool value) (boolWord value))) value
  | .prefixOp token operator right =>
    .prefixOp (tokens.node token (.ofSymbol operator)) operator (right.retoken tokens)
  | .infixOp token left operator right =>
    .infixOp (tokens.node token (.ofSymbol operator)) (left.retoken tokens) operator
      (right.retoken tokens)
  | .ifElse token condition consequence alternative =>
    .ifElse (tokens.node token (.spelled .ifKw "if")) (condition.retoken tokens)
      (consequence.retoken tokens) (Block.retokenElse tokens alternative)
  | .function token parameters body =>
    .function (tokens.node token (.spelled .fnKw "fn")) (parameters.map (Identifier.retoken tokens))
      (body.retoken tokens)
  | .call token callee arguments =>
    .call (tokens.node token (.spelled .openParen "(")) (callee.retoken tokens)
      (Expr.retokenEach tokens arguments)

def Expr.retokenEach (tokens : Retokening) : List Expr → List Expr
  | [] => []
  | expression :: rest => expression.retoken tokens :: Expr.retokenEach tokens rest

def Block.retoken (tokens : Retokening) : Block → Block
  | .mk token statements =>
    .mk (tokens.node token (.spelled .openCurly "\x7b")) (Stmt.retokenEach tokens statements)

def Block.retokenElse (tokens : Retokening) : Option Block → Option Block
  | none => none
  | some alternative => some (alternative.retoken tokens)

def Stmt.retoken (tokens : Retokening) : Stmt → Stmt
  | .letBinding token name value =>
    .letBinding (tokens.node token (.spelled .letKw "let")) (name.retoken tokens)
      (value.retoken tokens)
  | .returnValue token none => .returnValue (tokens.node token (.spelled .returnKw "return")) none
  | .returnValue token (some value) =>
    .returnValue (tokens.node token (.spelled .returnKw "return")) (some (value.retoken tokens))
  | .expression token value => .expression (tokens.first token) (value.retoken tokens)
  | .block body => .block (body.retoken tokens)

def Stmt.retokenEach (tokens : Retokening) : List Stmt → List Stmt
  | [] => []
  | statement :: rest => statement.retoken tokens :: Stmt.retokenEach tokens rest

end

theorem Stmt.retokenEach_eq_map (tokens : Retokening) (statements : List Stmt) :
    Stmt.retokenEach tokens statements = statements.map (Stmt.retoken tokens) := by
  induction statements with
  | nil => rfl
  | cons statement rest ih => rw [Stmt.retokenEach, ih, List.map_cons]

/-! ## Shapes -/

namespace Retokening

/-- To the tokens that the nodes are read from. -/
def standard : Retokening where
  node _ standard := standard
  first _ := default

/-- To the same tokens at no place. -/
def unplaced : Retokening where
  node token _ := token.bare
  first _ := default

@[simp]
theorem node_standard (token standard : Token) :
    Retokening.standard.node token standard = standard := rfl

@[simp]
theorem node_unplaced (token standard : Token) :
    unplaced.node token standard = token.bare := rfl

theorem first_unplaced : unplaced.first = Retokening.standard.first := rfl

end Retokening

def Expr.shape (expression : Expr) : Expr :=
  expression.retoken .standard

def Block.shape (block : Block) : Block :=
  block.retoken .standard

def Stmt.shape (statement : Stmt) : Stmt :=
  statement.retoken .standard

namespace Program

def shape (program : Program) : Program :=
  ⟨Stmt.retokenEach .standard program.statements⟩

/-- The program at no place. -/
def bare (program : Program) : Program :=
  ⟨Stmt.retokenEach .unplaced program.statements⟩

end Program

end MonkeySyntax
