import MonkeySyntax.Diagnostic.Basic
import MonkeySyntax.Proofs.Syntax.Shape

/-!
# MonkeySyntax — trees at other places

A source that is moved has the same tokens at other places, and so has its tree. `place` says where
a position goes; kinds, texts and values are kept.

* **`Token.moved`**, **`Diagnostic.moved`**, **`Retokening.moved`** — what becomes of a token, of a
  diagnostic and of the tokens of a tree.
* **`Stmt.retoken_moved_id`** — where no position changes, nothing does.
* **`Expr.endsWithBlock_retoken`** — tokens do not decide how an expression ends.
-/

namespace MonkeySyntax

/-- The token where `place` puts it. -/
def Token.moved (place : Position → Position) (token : Token) : Token :=
  ⟨token.kind, token.literal, ⟨place token.span.start, place token.span.stop⟩⟩

/-- The diagnostic where `place` puts it. -/
def Diagnostic.moved (place : Position → Position) (diagnostic : Diagnostic) : Diagnostic :=
  ⟨diagnostic.cause, place diagnostic.position⟩

/-- Every token of a tree where `place` puts it. -/
def Retokening.moved (place : Position → Position) : Retokening where
  node token _ := token.moved place
  first token := token.moved place

variable (place : Position → Position)

@[simp]
theorem Token.kind_moved (token : Token) : (token.moved place).kind = token.kind := rfl

@[simp]
theorem Token.literal_moved (token : Token) : (token.moved place).literal = token.literal := rfl

/-! ## Where nothing moves -/

mutual

theorem Expr.retoken_moved_id (expression : Expr) :
    expression.retoken (.moved fun position => position) = expression := by
  cases expression with
  | identifier | integer | boolean => rfl
  | prefixOp token operator right =>
    rw [Expr.retoken, right.retoken_moved_id]
    rfl
  | infixOp token left operator right =>
    rw [Expr.retoken, left.retoken_moved_id, right.retoken_moved_id]
    rfl
  | ifElse token condition consequence alternative =>
    rw [Expr.retoken, condition.retoken_moved_id, consequence.retoken_moved_id,
      Block.retokenElse_moved_id alternative]
    rfl
  | function token parameters body =>
    have hparameters : parameters.map (Identifier.retoken (.moved fun position => position)) =
        parameters := List.map_id parameters
    rw [Expr.retoken, hparameters, body.retoken_moved_id]
    rfl
  | call token callee arguments =>
    rw [Expr.retoken, callee.retoken_moved_id, Expr.retokenEach_moved_id arguments]
    rfl

theorem Expr.retokenEach_moved_id (expressions : List Expr) :
    Expr.retokenEach (.moved fun position => position) expressions = expressions := by
  cases expressions with
  | nil => rfl
  | cons expression rest =>
    rw [Expr.retokenEach, expression.retoken_moved_id, Expr.retokenEach_moved_id rest]

theorem Block.retoken_moved_id (block : Block) :
    block.retoken (.moved fun position => position) = block := by
  obtain ⟨token, statements⟩ := block
  rw [Block.retoken, Stmt.retokenEach_moved_id statements]
  rfl

theorem Block.retokenElse_moved_id (alternative : Option Block) :
    Block.retokenElse (.moved fun position => position) alternative = alternative := by
  cases alternative with
  | none => rfl
  | some block => rw [Block.retokenElse, block.retoken_moved_id]

theorem Stmt.retoken_moved_id (statement : Stmt) :
    statement.retoken (.moved fun position => position) = statement := by
  cases statement with
  | letBinding token name value =>
    rw [Stmt.retoken, value.retoken_moved_id]
    rfl
  | returnValue token value =>
    cases value with
    | none => rfl
    | some value =>
      rw [Stmt.retoken, value.retoken_moved_id]
      rfl
  | expression token value =>
    rw [Stmt.retoken, value.retoken_moved_id]
    rfl
  | block body => rw [Stmt.retoken, body.retoken_moved_id]

theorem Stmt.retokenEach_moved_id (statements : List Stmt) :
    Stmt.retokenEach (.moved fun position => position) statements = statements := by
  cases statements with
  | nil => rfl
  | cons statement rest =>
    rw [Stmt.retokenEach, statement.retoken_moved_id, Stmt.retokenEach_moved_id rest]

end

/-! ## Ends -/

/-- The tokens of an expression do not decide whether it ends with a block. -/
@[simp]
theorem Expr.endsWithBlock_retoken (tokens : Retokening) :
    (expression : Expr) → (expression.retoken tokens).endsWithBlock = expression.endsWithBlock
  | .identifier _ | .integer _ _ | .boolean _ _ | .ifElse _ _ _ _ | .function _ _ _ | .call _ _ _ =>
    rfl
  | .prefixOp _ _ right => right.endsWithBlock_retoken tokens
  | .infixOp _ _ _ right => right.endsWithBlock_retoken tokens

end MonkeySyntax
