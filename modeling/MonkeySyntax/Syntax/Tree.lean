import MonkeySyntax.Token.Basic

/-!
# MonkeySyntax — the syntax tree

A program is a list of statements; statements hold expressions, and `if` and `fn` expressions hold
blocks of statements. Every node keeps the token that defines it, next to the value that was read
from it, so that a tree still knows where in the source it comes from. Parentheses and semicolons
leave no node.

A tree can also be made by hand, and then nothing ties a value to its token: `Syntax/Render.lean`
tells which of the two is printed.
-/

namespace MonkeySyntax

/-- A name, where it is bound or where it is used. -/
structure Identifier where
  token : Token
  value : String
  deriving DecidableEq, Repr, Inhabited

mutual

/-- A node that has a value. -/
inductive Expr where
  | identifier (name : Identifier)
  | integer (token : Token) (value : Int)
  | boolean (token : Token) (value : Bool)
  /-- An operator before its operand; the token is the operator. -/
  | prefixOp (token : Token) (operator : String) (right : Expr)
  /-- An operator between its operands; the token is the operator. -/
  | infixOp (token : Token) (left : Expr) (operator : String) (right : Expr)
  | ifElse (token : Token) (condition : Expr) (consequence : Block) (alternative : Option Block)
  | function (token : Token) (parameters : List Identifier) (body : Block)
  /-- A call; the token is the parenthesis that opens the arguments. -/
  | call (token : Token) (callee : Expr) (arguments : List Expr)
  deriving Repr

/-- Statements between curly brackets; the token is the bracket that opens them. -/
inductive Block where
  | mk (token : Token) (statements : List Stmt)
  deriving Repr

/-- A node that stands in a program or a block. -/
inductive Stmt where
  | letBinding (token : Token) (name : Identifier) (value : Expr)
  | returnValue (token : Token) (value : Option Expr)
  /-- An expression on its own; the token is the first one of the statement. -/
  | expression (token : Token) (value : Expr)
  | block (body : Block)
  deriving Repr

end

/-- The root of the tree: the statements in the order of the source. -/
structure Program where
  statements : List Stmt
  deriving Repr

instance : Inhabited Expr := ⟨.boolean default false⟩

instance : Inhabited Block := ⟨.mk default []⟩

instance : Inhabited Stmt := ⟨.block default⟩

instance : Inhabited Program := ⟨⟨[]⟩⟩

def Expr.token : Expr → Token
  | .identifier name => name.token
  | .integer token _ => token
  | .boolean token _ => token
  | .prefixOp token _ _ => token
  | .infixOp token _ _ _ => token
  | .ifElse token _ _ _ => token
  | .function token _ _ => token
  | .call token _ _ => token

/-- Whether the last part of the expression is a block: that of an `if` or `fn`, or of one that is
the right operand of an operator. Parentheses leave no node, so they make no difference. -/
def Expr.endsWithBlock : Expr → Bool
  | .ifElse _ _ _ _ => true
  | .function _ _ _ => true
  | .prefixOp _ _ right => right.endsWithBlock
  | .infixOp _ _ _ right => right.endsWithBlock
  | .identifier _ => false
  | .integer _ _ => false
  | .boolean _ _ => false
  | .call _ _ _ => false

namespace Block

def token : Block → Token
  | .mk token _ => token

def statements : Block → List Stmt
  | .mk _ statements => statements

end Block

def Stmt.token : Stmt → Token
  | .letBinding token _ _ => token
  | .returnValue token _ => token
  | .expression token _ => token
  | .block body => body.token

namespace Program

def size (program : Program) : Nat :=
  program.statements.length

def isEmpty (program : Program) : Bool :=
  program.statements.isEmpty

/-- The text of the token that defines the first statement; nothing for an empty program. -/
def literal (program : Program) : String :=
  match program.statements with
  | [] => ""
  | statement :: _ => statement.token.literal

end Program

end MonkeySyntax
