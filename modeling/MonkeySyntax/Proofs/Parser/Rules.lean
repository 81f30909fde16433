import MonkeySyntax.Parser.Phrase

/-!
# MonkeySyntax — the rules of the grammar, one by one

What a rule does to a reader it does by its steps. So a property that every step has, and that a
sequence has if its parts do, is a property of all rules, and the same goes for a relation between
the rules over two grammars. This module has the case analysis for that, once for all of them.

* **`Grammar.RuleName`** — the rules by name, with the types of what they read.
* **`Rule.Compositional C`** — `C n` relates rules for readers with at most `n` tokens left, and it
  is kept where rules are put together. A step over a token leads to one token less.
* **`Grammar.RuleName.related`** — so rules are related over grammars whose nested phrases are
  related on one token less. There is one lemma for each rule.
* **`Grammar.related_upTo`** — and the grammars of one bound are.
-/

namespace MonkeySyntax

/-! ## Relations between rules -/

/-- Relations between rules that read the same from readers with at most `n` tokens left. -/
abbrev Rule.Relation (σ τ : Type) : Type 1 :=
  (n : Nat) → (α : Type) → RuleOn σ α → RuleOn τ α → Prop

namespace Rule

variable {σ α : Type} [Reader σ]

/-- Fails at the next token, where one of the kind `expected` should be. -/
def failNext (expected : TokenKind) : RuleOn σ α := fun state =>
  .error (Reader.unexpected state expected) state

/-- What follows an expected token follows a step over it. -/
theorem expect_bind_eq (kind : TokenKind) (next : Unit → RuleOn σ α) :
    expect kind >>= next = peekKind >>= fun found =>
      if found = kind then advance >>= next else failNext kind := by
  funext state
  rw [bind_apply, bind_apply, expect, peekKind]
  by_cases hkind : (Reader.peek state).kind = kind
  · simp only [if_pos hkind]
    rfl
  · simp only [if_neg hkind]
    rfl

theorem endStatement_eq (optional : Bool) :
    (endStatement optional : RuleOn σ Unit) = (peekKind : RuleOn σ TokenKind) >>= fun found =>
      match found with
      | .semicolon => advance
      | .closeCurly | .eof => pure ()
      | _ => if optional then pure () else failNext .semicolon := by
  funext state
  rw [bind_apply, peekKind, endStatement]
  dsimp only
  cases (Reader.peek state).kind <;> cases optional <;> rfl

end Rule

namespace Grammar

open Rule

section

variable {σ : Type} [Reader σ]

/-- A block of what `statements` reads. -/
def blockOf (statements : RuleOn σ (List Stmt)) : RuleOn σ Block := do
  let token ← current
  enterBlock
  advance
  let statements ← statements
  leaveBlock
  pure (.mk token statements)

theorem blockRule_eq (grammar : Grammar σ) : grammar.blockRule = blockOf grammar.statements := rfl

/-- The rules of the grammar by name, with the type of what they read. -/
inductive RuleName : Type → Type where
  | identifier : RuleName Identifier
  | integer : RuleName Expr
  | boolean : RuleName Expr
  | block : RuleName Block
  | prefixOp : RuleName Expr
  | group : RuleName Expr
  | alternative : RuleName (Option Block)
  | ifElse : RuleName Expr
  | moreParameters : RuleName (List Identifier)
  | parameters : RuleName (List Identifier)
  | function : RuleName Expr
  | operand : RuleName Expr
  | infixOp (power : Power) (left : Expr) : RuleName Expr
  | moreArguments : RuleName (List Expr)
  | arguments : RuleName (List Expr)
  | call (callee : Expr) : RuleName Expr
  | operator (power : Power) (left : Expr) : RuleName Expr
  | operators (power : Power) (left : Expr) : RuleName Expr
  | expr (power : Power) : RuleName Expr
  | letBinding : RuleName Stmt
  | returnValue : RuleName Stmt
  | expression : RuleName Stmt
  | blockStatement : RuleName Stmt
  | statement : RuleName Stmt
  | statements : RuleName (List Stmt)

def RuleName.rule {α : Type} (name : RuleName α) (grammar : Grammar σ) : RuleOn σ α :=
  match name with
  | identifier => identifierRule
  | integer => integerRule
  | boolean => booleanRule
  | block => grammar.blockRule
  | prefixOp => grammar.prefixOpRule
  | group => grammar.groupRule
  | alternative => grammar.alternativeRule
  | ifElse => grammar.ifElseRule
  | moreParameters => grammar.moreParametersRule
  | parameters => grammar.parametersRule
  | function => grammar.functionRule
  | operand => grammar.operandRule
  | infixOp power left => grammar.infixOpRule power left
  | moreArguments => grammar.moreArgumentsRule
  | arguments => grammar.argumentsRule
  | call callee => grammar.callRule callee
  | operator power left => grammar.operatorRule power left
  | operators power left => grammar.operatorsRule power left
  | expr power => grammar.exprRule power
  | letBinding => grammar.letRule
  | returnValue => grammar.returnRule
  | expression => grammar.expressionRule
  | blockStatement => grammar.blockStatementRule
  | statement => grammar.statementRule
  | statements => grammar.statementsRule

end

end Grammar

variable {σ τ : Type} [Reader σ] [Reader τ] {C : Rule.Relation σ τ} {n : Nat} {α β : Type}

/-- The relation `C` is kept where rules are put together from steps. -/
structure Rule.Compositional (C : Rule.Relation σ τ) : Prop where
  mono {n m : Nat} {α : Type} {rule : RuleOn σ α} {other : RuleOn τ α} :
    C n α rule other → m ≤ n → C m α rule other
  pure {n : Nat} {α : Type} (value : α) : C n α (pure value) (pure value)
  bind {n : Nat} {α β : Type} {rule : RuleOn σ α} {other : RuleOn τ α} {next : α → RuleOn σ β}
      {next' : α → RuleOn τ β} :
    C n α rule other → (∀ value, C n β (next value) (next' value)) →
      C n β (rule >>= next) (other >>= next')
  current {n : Nat} : C n Token current current
  peekKind {n : Nat} : C n TokenKind peekKind peekKind
  failHere {n : Nat} {α : Type} (cause : SyntaxError) : C n α (failHere cause) (failHere cause)
  failNext {n : Nat} {α : Type} (kind : TokenKind) : C n α (failNext kind) (failNext kind)
  /-- Behind a token that is passed over, one token less is left. -/
  advance {n : Nat} {β : Type} {next : Unit → RuleOn σ β} {next' : Unit → RuleOn τ β} :
    C n β (next ()) (next' ()) → C (n + 1) β (advance >>= next) (advance >>= next')
  block {n : Nat} {statements : RuleOn σ (List Stmt)} {statements' : RuleOn τ (List Stmt)} :
    C n (List Stmt) statements statements' →
      C (n + 1) Block (Grammar.blockOf statements) (Grammar.blockOf statements')

namespace Rule.Compositional

open Grammar

variable (hC : Rule.Compositional C)
include hC

theorem expect {kind : TokenKind} {next : Unit → RuleOn σ β} {next' : Unit → RuleOn τ β}
    (h : C n β (next ()) (next' ())) :
    C (n + 1) β (Rule.expect kind >>= next) (Rule.expect kind >>= next') := by
  rw [expect_bind_eq, expect_bind_eq]
  refine hC.bind hC.peekKind fun found => ?_
  split
  · exact hC.advance h
  · exact hC.failNext kind

/-- Where a token was passed over before, the one passed over here need not be counted. -/
theorem advance' {next : Unit → RuleOn σ β} {next' : Unit → RuleOn τ β}
    (h : C n β (next ()) (next' ())) : C n β (Rule.advance >>= next) (Rule.advance >>= next') :=
  hC.mono (hC.advance h) n.le_succ

theorem expect' {kind : TokenKind} {next : Unit → RuleOn σ β} {next' : Unit → RuleOn τ β}
    (h : C n β (next ()) (next' ())) :
    C n β (Rule.expect kind >>= next) (Rule.expect kind >>= next') :=
  hC.mono (hC.expect h) n.le_succ

theorem expectKind (kind : TokenKind) : C n Unit (Rule.expect kind) (Rule.expect kind) := by
  rw [← bind_pure (Rule.expect kind : RuleOn σ Unit), ← bind_pure (Rule.expect kind : RuleOn τ Unit)]
  exact hC.expect' (hC.pure ())

theorem endStatement (optional : Bool) :
    C n Unit (Rule.endStatement optional) (Rule.endStatement optional) := by
  have hadvance : C n Unit Rule.advance Rule.advance := by
    rw [← bind_pure (Rule.advance : RuleOn σ Unit), ← bind_pure (Rule.advance : RuleOn τ Unit)]
    exact hC.advance' (hC.pure ())
  rw [endStatement_eq, endStatement_eq]
  refine hC.bind hC.peekKind fun found => ?_
  cases found with
  | semicolon => exact hadvance
  | closeCurly | eof => exact hC.pure ()
  | _ =>
    cases optional with
    | true => exact hC.pure ()
    | false => exact hC.failNext .semicolon

/-! ### Operands of one token -/

theorem identifierRule : C n Identifier identifierRule identifierRule :=
  hC.bind hC.current fun _ => hC.pure _

theorem integerRule : C n Expr integerRule integerRule := by
  refine hC.bind hC.current fun token => ?_
  cases integerValue? token.literal with
  | none => exact hC.failHere _
  | some value => exact hC.pure _

theorem booleanRule : C n Expr booleanRule booleanRule :=
  hC.bind hC.current fun _ => hC.pure _

theorem noExpression : C n α noExpression noExpression :=
  hC.bind hC.current fun _ => hC.failHere _

/-! ### Statements

They are related if what they are made of is. -/

theorem letOf {value : RuleOn σ Expr} {value' : RuleOn τ Expr} (h : C n Expr value value') :
    C n Stmt (letOf value) (letOf value') := by
  refine hC.bind hC.current fun token => hC.expect' ?_
  refine hC.bind hC.identifierRule fun name => hC.expect' (hC.advance' ?_)
  exact hC.bind h fun value => hC.bind (hC.endStatement _) fun _ => hC.pure _

theorem returnOf {value : RuleOn σ Expr} {value' : RuleOn τ Expr} (h : C n Expr value value') :
    C n Stmt (returnOf value) (returnOf value') := by
  refine hC.bind hC.current fun token => hC.bind hC.peekKind fun kind => ?_
  split
  iterate 3 exact hC.bind (hC.endStatement false) fun _ => hC.pure _
  refine hC.advance' <| hC.bind h fun value => ?_
  exact hC.bind (hC.endStatement _) fun _ => hC.pure _

theorem expressionOf {value : RuleOn σ Expr} {value' : RuleOn τ Expr} (h : C n Expr value value') :
    C n Stmt (expressionOf value) (expressionOf value') := by
  refine hC.bind hC.current fun token => hC.bind h fun value => ?_
  exact hC.bind (hC.endStatement _) fun _ => hC.pure _

theorem statementOf {value : RuleOn σ Expr} {value' : RuleOn τ Expr} {block : RuleOn σ Stmt}
    {block' : RuleOn τ Stmt} (h : C n Expr value value') (hblock : C n Stmt block block') :
    C n Stmt (statementOf value block) (statementOf value' block') := by
  refine hC.bind hC.current fun token => ?_
  cases token.kind with
  | letKw => exact hC.letOf h
  | returnKw => exact hC.returnOf h
  | openCurly => exact hblock
  | _ => exact hC.expressionOf h

theorem statementsOf {statement : RuleOn σ Stmt} {statement' : RuleOn τ Stmt}
    {others : RuleOn σ (List Stmt)} {others' : RuleOn τ (List Stmt)}
    (h : C (n + 1) Stmt statement statement') (hothers : C n (List Stmt) others others') :
    C (n + 1) (List Stmt) (statementsOf statement others) (statementsOf statement' others') := by
  refine hC.bind hC.current fun token => ?_
  -- the other statements are asked for a token later
  have hmore : C (n + 1) (List Stmt)
      (do
        let statement ← statement
        Rule.advance
        let others ← others
        Pure.pure (statement :: others))
      (do
        let statement ← statement'
        Rule.advance
        let others ← others'
        Pure.pure (statement :: others)) :=
    hC.bind h fun statement => hC.advance <| hC.bind hothers fun _ => hC.pure _
  cases token.kind with
  | closeCurly => exact hC.pure []
  | eof => exact hC.failHere _
  | _ => exact hmore

end Rule.Compositional

/-! ## Grammars

A rule that uses up a token before it asks for a nested phrase gains one. -/

namespace Grammar

/-- The nested phrases are read by related rules where at most `n` tokens are left. -/
structure Related (C : Rule.Relation σ τ) (n : Nat) (grammar : Grammar σ) (other : Grammar τ) :
    Prop where
  expr : ∀ power, C n Expr (grammar.expr power) (other.expr power)
  operators : ∀ power left, C n Expr (grammar.operators power left) (other.operators power left)
  moreArguments : C n (List Expr) grammar.moreArguments other.moreArguments
  moreParameters : C n (List Identifier) grammar.moreParameters other.moreParameters
  statements : C n (List Stmt) grammar.statements other.statements

namespace Related

variable {grammar : Grammar σ} {other : Grammar τ} (h : Related C n grammar other)
  (hC : Rule.Compositional C)
include h hC

theorem blockRule : C (n + 1) Block grammar.blockRule other.blockRule := by
  rw [blockRule_eq, blockRule_eq]
  exact hC.block h.statements

theorem prefixOpRule : C (n + 1) Expr grammar.prefixOpRule other.prefixOpRule :=
  hC.bind hC.current fun _ => hC.advance <| hC.bind (h.expr .unary) fun _ => hC.pure _

theorem groupRule : C (n + 1) Expr grammar.groupRule other.groupRule := by
  refine hC.advance <| hC.bind (h.expr .lowest) fun inner => ?_
  exact hC.expect' (hC.pure inner)

theorem alternativeRule :
    C (n + 1) (Option Block) grammar.alternativeRule other.alternativeRule := by
  refine hC.bind hC.peekKind fun kind => ?_
  split
  · refine hC.advance' (hC.expect' ?_)
    exact hC.bind (h.blockRule hC) fun _ => hC.pure _
  · exact hC.pure none

theorem ifElseRule : C (n + 1) Expr grammar.ifElseRule other.ifElseRule := by
  refine hC.bind hC.current fun token => hC.expect (hC.advance' ?_)
  refine hC.bind (h.expr .lowest) fun condition => hC.expect' (hC.expect' ?_)
  refine hC.bind (hC.mono (h.blockRule hC) n.le_succ) fun consequence => ?_
  exact hC.bind (hC.mono (h.alternativeRule hC) n.le_succ) fun alternative => hC.pure _

theorem moreParametersRule :
    C (n + 1) (List Identifier) grammar.moreParametersRule other.moreParametersRule := by
  refine hC.bind hC.peekKind fun kind => ?_
  split
  · refine hC.advance (hC.expect' ?_)
    exact hC.bind hC.identifierRule fun parameter => hC.bind h.moreParameters fun _ => hC.pure _
  · exact hC.pure []

theorem parametersRule :
    C (n + 1) (List Identifier) grammar.parametersRule other.parametersRule := by
  refine hC.bind hC.peekKind fun kind => ?_
  split
  · exact hC.advance (hC.pure [])
  · refine hC.expect <| hC.bind hC.identifierRule fun parameter => ?_
    refine hC.bind (hC.mono (h.moreParametersRule hC) n.le_succ) fun others => ?_
    exact hC.expect' (hC.pure _)

theorem functionRule : C (n + 1) Expr grammar.functionRule other.functionRule := by
  refine hC.bind hC.current fun token => hC.expect ?_
  refine hC.bind (hC.mono (h.parametersRule hC) n.le_succ) fun parameters => hC.expect' ?_
  exact hC.bind (hC.mono (h.blockRule hC) n.le_succ) fun body => hC.pure _

theorem operandRule : C (n + 1) Expr grammar.operandRule other.operandRule := by
  refine hC.bind hC.current fun token => ?_
  cases token.kind with
  | identifier => exact hC.bind hC.identifierRule fun name => hC.pure _
  | integer => exact hC.integerRule
  | trueKw | falseKw => exact hC.booleanRule
  | bang | dash => exact h.prefixOpRule hC
  | openParen => exact h.groupRule hC
  | ifKw => exact h.ifElseRule hC
  | fnKw => exact h.functionRule hC
  | _ => exact hC.noExpression

theorem infixOpRule (power : Power) (left : Expr) :
    C (n + 1) Expr (grammar.infixOpRule power left) (other.infixOpRule power left) :=
  hC.bind hC.current fun _ => hC.advance <| hC.bind (h.expr power) fun _ => hC.pure _

theorem moreArgumentsRule :
    C (n + 1) (List Expr) grammar.moreArgumentsRule other.moreArgumentsRule := by
  refine hC.bind hC.peekKind fun kind => ?_
  split
  · refine hC.advance (hC.advance' ?_)
    exact hC.bind (h.expr .lowest) fun argument => hC.bind h.moreArguments fun _ => hC.pure _
  · exact hC.pure []

theorem argumentsRule : C (n + 1) (List Expr) grammar.argumentsRule other.argumentsRule := by
  refine hC.bind hC.peekKind fun kind => ?_
  split
  · exact hC.advance (hC.pure [])
  · refine hC.advance <| hC.bind (h.expr .lowest) fun argument => ?_
    refine hC.bind (hC.mono (h.moreArgumentsRule hC) n.le_succ) fun others => ?_
    exact hC.expect' (hC.pure _)

theorem callRule (callee : Expr) :
    C (n + 1) Expr (grammar.callRule callee) (other.callRule callee) :=
  hC.bind hC.current fun _ => hC.bind (h.argumentsRule hC) fun _ => hC.pure _

theorem operatorRule (power : Power) (left : Expr) :
    C (n + 1) Expr (grammar.operatorRule power left) (other.operatorRule power left) := by
  refine hC.bind hC.current fun token => ?_
  cases token.kind with
  | plus | dash | star | slash | less | greater | equal | notEqual =>
    exact h.infixOpRule hC power left
  | openParen => exact h.callRule hC left
  | _ => exact hC.pure left

theorem operatorsRule (power : Power) (left : Expr) :
    C (n + 1) Expr (grammar.operatorsRule power left) (other.operatorsRule power left) := by
  refine hC.bind hC.peekKind fun kind => ?_
  split
  · refine hC.advance ?_
    refine hC.bind (hC.mono (h.operatorRule hC kind.power left) n.le_succ) fun left => ?_
    exact h.operators power left
  · exact hC.pure left

theorem exprRule (power : Power) :
    C (n + 1) Expr (grammar.exprRule power) (other.exprRule power) :=
  hC.bind (h.operandRule hC) fun left => h.operatorsRule hC power left

theorem blockStatementRule :
    C (n + 1) Stmt grammar.blockStatementRule other.blockStatementRule :=
  hC.bind (h.blockRule hC) fun _ => hC.bind (hC.endStatement true) fun _ => hC.pure _

theorem statementRule : C (n + 1) Stmt grammar.statementRule other.statementRule :=
  hC.statementOf (h.exprRule hC .lowest) (h.blockStatementRule hC)

theorem statementsRule : C (n + 1) (List Stmt) grammar.statementsRule other.statementsRule :=
  hC.statementsOf (h.statementRule hC) h.statements

/-- **Grammars made from two that are related are related** on one token more. -/
theorem step : Related C (n + 1) grammar.step other.step where
  expr := h.exprRule hC
  operators := h.operatorsRule hC
  moreArguments := h.moreArgumentsRule hC
  moreParameters := h.moreParametersRule hC
  statements := h.statementsRule hC

end Related

/-- **Every rule is related to itself over grammars that are related** on one token less. -/
theorem RuleName.related (name : RuleName α) {grammar : Grammar σ} {other : Grammar τ}
    (h : Related C n grammar other) (hC : Rule.Compositional C) :
    C (n + 1) α (name.rule grammar) (name.rule other) := by
  cases name with
  | identifier => exact hC.identifierRule
  | integer => exact hC.integerRule
  | boolean => exact hC.booleanRule
  | block => exact h.blockRule hC
  | prefixOp => exact h.prefixOpRule hC
  | group => exact h.groupRule hC
  | alternative => exact h.alternativeRule hC
  | ifElse => exact h.ifElseRule hC
  | moreParameters => exact h.moreParametersRule hC
  | parameters => exact h.parametersRule hC
  | function => exact h.functionRule hC
  | operand => exact h.operandRule hC
  | infixOp power left => exact h.infixOpRule hC power left
  | moreArguments => exact h.moreArgumentsRule hC
  | arguments => exact h.argumentsRule hC
  | call callee => exact h.callRule hC callee
  | operator power left => exact h.operatorRule hC power left
  | operators power left => exact h.operatorsRule hC power left
  | expr power => exact h.exprRule hC power
  | letBinding => exact hC.letOf (h.exprRule hC .lowest)
  | returnValue => exact hC.returnOf (h.exprRule hC .lowest)
  | expression => exact hC.expressionOf (h.exprRule hC .lowest)
  | blockStatement => exact h.blockStatementRule hC
  | statement => exact h.statementRule hC
  | statements => exact h.statementsRule hC

theorem related_atEnd (hC : Rule.Compositional C) : Related C n atEnd atEnd where
  expr _ := hC.noExpression
  operators _ left := hC.pure left
  moreArguments := hC.pure []
  moreParameters := hC.pure []
  statements := hC.failHere _

/-- **The grammars of one bound are related.** -/
theorem related_upTo (hC : Rule.Compositional C) (n : Nat) : Related C n (upTo n) (upTo n) := by
  induction n with
  | zero => exact related_atEnd hC
  | succ n ih => exact ih.step hC

end Grammar

end MonkeySyntax
