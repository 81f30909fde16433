import MonkeySyntax.Proofs.Grammar.Precedence
import MonkeySyntax.Proofs.Parser.Agreement

/-!
# MonkeySyntax — expressions read level by level

The grammar of `Proofs/Grammar/Derivation.lean` has its expressions in levels, and a parser can be
read off it that has a rule for each of them. The rule of a level reads an operand of the next
tighter one and then, as long as an operator of its own comes next, another such operand. No powers
are compared in it.

* **`Rule.fold`** — the loop of a level. `Rule.fold_eq` says that its bound does not show.
* **`Grammar.levelRule`** — the rules of the levels; `Grammar.levelled` is the grammar made of them
  and `Parser.parseLevel` reads by it.
* **`Grammar.Agree.levelStep`** — as with the other rules, grammars made from two that agree agree on
  one token more.

That this parser does the same as the other one is in `Proofs/Grammar/Levels.lean`.
-/

namespace MonkeySyntax

/-! ## Loops -/

namespace Rule

/-- One turn of a loop: if the next token is of one of these kinds, moves to it, has `apply` take the
operand on its left, and goes on with `next`. -/
def foldStep (kinds : List TokenKind) (apply next : Expr → Rule Expr) (left : Expr) :
    Rule Expr := do
  if (← peekKind) ∈ kinds then
    advance
    let left ← apply left
    next left
  else
    pure left

/-- At most `n` turns. -/
def foldUpTo (kinds : List TokenKind) (apply : Expr → Rule Expr) : (n : Nat) → Expr → Rule Expr
  | 0 => pure
  | n + 1 => foldStep kinds apply (foldUpTo kinds apply n)

/-- Turns as long as there is one of these kinds. Each uses up a token. -/
def fold (kinds : List TokenKind) (apply : Expr → Rule Expr) (left : Expr) : Rule Expr :=
  fun parser => foldUpTo kinds apply parser.remaining left parser

variable {kinds : List TokenKind} {apply apply' next next' : Expr → Rule Expr} {n : Nat}

theorem Agree.foldStep (h : ∀ left, Agree n (apply left) (apply' left))
    (hnext : ∀ left, Agree n (next left) (next' left)) (left : Expr) :
    Agree (n + 1) (foldStep kinds apply next left) (foldStep kinds apply' next' left) := by
  refine .bind .peekKind fun kind => ?_
  split
  · exact .advance <| .bind (h left) fun left => hnext left
  · exact .pure left

variable (hend : TokenKind.eof ∉ kinds)
include hend

/-- At the end of the input there is no turn to take. -/
theorem agree_foldUpTo_zero (m : Nat) (left : Expr) :
    Agree 0 (foldUpTo kinds apply m left) (pure left) := by
  cases m with
  | zero => exact .pure left
  | succ m =>
    intro parser hparser
    have hnil : parser.ahead = [] := List.length_eq_zero_iff.mp (Nat.le_zero.mp hparser)
    have hpeek : parser.peek.kind = .eof := by simp [Parser.peek, Parser.endToken, hnil]
    have hstays : foldUpTo kinds apply (m + 1) left parser = .ok left parser := by
      rw [foldUpTo, Rule.foldStep, bind_apply, peekKind_apply, hpeek]
      simp only [if_neg hend]
      rfl
    unfold leaves
    rw [hstays]
    exact ⟨rfl, .refl parser⟩

/-- Bounds that cover what is left make no difference. -/
theorem Agree.foldUpTo {m k : Nat} (h : ∀ left, Agree n (apply left) (apply' left)) (hm : n ≤ m)
    (hk : n ≤ k) (left : Expr) :
    Agree n (foldUpTo kinds apply m left) (foldUpTo kinds apply' k left) := by
  induction n generalizing m k left with
  | zero => exact (agree_foldUpTo_zero hend m left).trans (agree_foldUpTo_zero hend k left).symm
  | succ n ih =>
    obtain ⟨m, rfl⟩ := Nat.exists_eq_succ_of_ne_zero (Nat.ne_zero_of_lt hm)
    obtain ⟨k, rfl⟩ := Nat.exists_eq_succ_of_ne_zero (Nat.ne_zero_of_lt hk)
    have hless : ∀ left, Agree n (apply left) (apply' left) := fun left => (h left).mono n.le_succ
    exact .foldStep hless
      (fun left => ih hless (Nat.le_of_succ_le_succ hm) (Nat.le_of_succ_le_succ hk) left) left

theorem Agree.fold (h : ∀ left, Agree n (apply left) (apply' left)) (left : Expr) :
    Agree n (fold kinds apply left) (fold kinds apply' left) := by
  intro parser hparser
  have hless := fun left => (h left).mono hparser
  exact Agree.foldUpTo hend hless (Nat.le_refl _) (Nat.le_refl _) left parser (Nat.le_refl _)

/-- **A loop is its first turn and then the loop.** So its bound does not show. -/
theorem fold_eq (h : ∀ n left, Agree n (apply left) (apply left)) (left : Expr) :
    fold kinds apply left = foldStep kinds apply (fold kinds apply) left := by
  funext parser
  have hmore := Agree.foldUpTo hend (h parser.remaining) (Nat.le_refl _) (Nat.le_succ _) left
  have hturn : Agree (parser.remaining + 1)
      (foldStep kinds apply (Rule.foldUpTo kinds apply parser.remaining) left)
      (foldStep kinds apply (fold kinds apply) left) := by
    refine .foldStep (h _) (fun left other hother => ?_) left
    exact Agree.foldUpTo hend (h _) hother (Nat.le_refl _) left other (Nat.le_refl _)
  exact (hmore parser (Nat.le_refl _)).1.trans (hturn parser (Nat.le_succ _)).1

end Rule

/-! ## Levels

The rules of the levels are written over a grammar for the phrases that are nested in an expression
behind a token of its own. -/

namespace Grammar

open Rule

/-- An operand that starts with none of the operators before an operand. -/
def primaryLevel (grammar : Grammar) : Rule Expr := do
  let token ← current
  match token.kind with
  | .identifier =>
    let name ← identifierRule
    pure (.identifier name)
  | .integer => integerRule
  | .trueKw | .falseKw => booleanRule
  | .openParen => grammar.groupRule
  | .ifKw => grammar.ifElseRule
  | .fnKw => grammar.functionRule
  | _ => noExpression

/-- A primary operand and the calls of it. -/
def callLevel (grammar : Grammar) : Rule Expr := do
  let callee ← grammar.primaryLevel
  fold [.openParen] grammar.callRule callee

/-- Operators before an operand, which is of this level again. -/
def unaryLevel (grammar : Grammar) : Rule Expr := do
  let token ← current
  match token.kind with
  | .bang | .dash => grammar.prefixOpRule
  | _ => grammar.callLevel

/-- The operator at which the rule stands, and another operand. -/
def infixOf (operand : Rule Expr) (left : Expr) : Rule Expr := do
  let token ← current
  advance
  let right ← operand
  pure (.infixOp token left token.literal right)

/-- Operands with the operators of a level between them, to be grouped to the left. -/
def infixLevel (level : Level) (operand : Rule Expr) : Rule Expr := do
  let left ← operand
  fold level.operators (infixOf operand) left

def multiplicativeLevel (grammar : Grammar) : Rule Expr :=
  infixLevel .multiplicative grammar.unaryLevel

def additiveLevel (grammar : Grammar) : Rule Expr :=
  infixLevel .additive grammar.multiplicativeLevel

def relationalLevel (grammar : Grammar) : Rule Expr :=
  infixLevel .relational grammar.additiveLevel

def equalityLevel (grammar : Grammar) : Rule Expr :=
  infixLevel .equality grammar.relationalLevel

def levelRule (grammar : Grammar) : Level → Rule Expr
  | .equality => grammar.equalityLevel
  | .relational => grammar.relationalLevel
  | .additive => grammar.additiveLevel
  | .multiplicative => grammar.multiplicativeLevel
  | .unary => grammar.unaryLevel
  | .call => grammar.callLevel
  | .primary => grammar.primaryLevel

/-- The grammar whose expressions are read level by level, with the phrases nested in them read by
`grammar`. A level takes all of its operators, so none are left to be taken. -/
def levelStep (grammar : Grammar) : Grammar where
  expr power := grammar.levelRule (.above power)
  operators _ left := pure left
  moreArguments := grammar.moreArgumentsRule
  moreParameters := grammar.moreParametersRule
  statements :=
    statementsOf (statementOf grammar.equalityLevel grammar.blockStatementRule) grammar.statements

/-- The grammar of levels for inputs of which at most `n` tokens are left. -/
def levelled : (n : Nat) → Grammar
  | 0 => atEnd
  | n + 1 => (levelled n).levelStep

end Grammar

/-- Reads an expression of a level. -/
def Parser.parseLevel (level : Level) : Rule Expr := fun parser =>
  (Grammar.levelled parser.remaining).levelRule level parser

/-! ## Levels that agree -/

namespace Grammar

open Rule

theorem agree_infixLevel {n : Nat} {operand operand' : Rule Expr} (level : Level)
    (h : Rule.Agree n operand operand') :
    Rule.Agree n (infixLevel level operand) (infixLevel level operand') := by
  refine .bind h fun left => .fold level.eof_not_mem_operators (fun left => ?_) left
  refine .bind .current fun token => compositional_agree.advance' ?_
  exact .bind h fun right => .pure _

namespace Agree

variable {n : Nat} {grammar other : Grammar} (h : Agree n grammar other)
include h

theorem primaryLevel : Rule.Agree (n + 1) grammar.primaryLevel other.primaryLevel := by
  refine .bind .current fun token => ?_
  cases token.kind with
  | identifier => exact .bind compositional_agree.identifierRule fun name => .pure _
  | integer => exact compositional_agree.integerRule
  | trueKw | falseKw => exact compositional_agree.booleanRule
  | openParen => exact RuleName.group.agree h
  | ifKw => exact RuleName.ifElse.agree h
  | fnKw => exact RuleName.function.agree h
  | _ => exact compositional_agree.noExpression

theorem callLevel : Rule.Agree (n + 1) grammar.callLevel other.callLevel :=
  .bind h.primaryLevel fun callee => .fold (by decide) (fun left => (RuleName.call left).agree h) callee

theorem unaryLevel : Rule.Agree (n + 1) grammar.unaryLevel other.unaryLevel := by
  refine .bind .current fun token => ?_
  cases token.kind with
  | bang | dash => exact RuleName.prefixOp.agree h
  | _ => exact h.callLevel

theorem levelRule (level : Level) :
    Rule.Agree (n + 1) (grammar.levelRule level) (other.levelRule level) := by
  have hmultiplicative := agree_infixLevel .multiplicative h.unaryLevel
  have hadditive := agree_infixLevel .additive hmultiplicative
  have hrelational := agree_infixLevel .relational hadditive
  cases level with
  | primary => exact h.primaryLevel
  | call => exact h.callLevel
  | unary => exact h.unaryLevel
  | multiplicative => exact hmultiplicative
  | additive => exact hadditive
  | relational => exact hrelational
  | equality => exact agree_infixLevel .equality hrelational

/-- **Grammars of levels made from two that agree agree on one token more.** -/
theorem levelStep : Agree (n + 1) grammar.levelStep other.levelStep where
  expr power := h.levelRule (.above power)
  operators _ left := .pure left
  moreArguments := RuleName.moreArguments.agree h
  moreParameters := RuleName.moreParameters.agree h
  statements := by
    refine compositional_agree.statementsOf ?_ h.statements
    exact compositional_agree.statementOf (h.levelRule .equality) (RuleName.blockStatement.agree h)

end Agree

end Grammar

end MonkeySyntax
