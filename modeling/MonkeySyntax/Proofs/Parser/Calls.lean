import Mathlib.Data.Prod.Lex
import Mathlib.Logic.Relation
import Mathlib.Order.WellFounded
import MonkeySyntax.Proofs.Parser.Lockstep
import MonkeySyntax.Proofs.Parser.Unbounded

/-!
# MonkeySyntax — the calls between the functions of the parser

The functions of the parser call each other, and no fuel is needed for that: on every call fewer
tokens are left than at the one before it, or as many in a function that comes later in an order of
the functions. To say this, the calls that a function makes are noted while it runs.

* **`Call`** — a call of a function of the parser, or of the next iteration of a loop in one.
* **`Noted`** — a parser with the calls that were made so far. A call is noted with the parser that
  it is made on, and answered (`Noted.note`).
* **`Grammar.RuleName.calls`** — the calls that a function makes itself. To note them changes nothing
  (`Grammar.RuleName.inStep_noted`).
* **`Rule.Keeps`** — what is called meets a condition. This is kept where rules are put together, so
  every function calls where fewer tokens are left (`Grammar.RuleName.keeps`).
* **`Call.Calls`** — a call is made by another one. This is well-founded (`wellFounded_calls`).
-/

namespace MonkeySyntax

/-- A call of a function that reads a statement, the statements of a block or an expression, or of
the next iteration over the operators of an expression, over arguments or over parameters. -/
inductive Call where
  | statement
  | statements
  | expr (power : Power)
  | operators (power : Power) (left : Expr)
  | moreArguments
  | moreParameters

/-- A parser with the calls that were made up to it. -/
structure Noted where
  parser : Parser
  /-- The calls, the last one first, each with the parser that it was made on. -/
  calls : List (Call × Parser)

namespace Noted

instance : Reader Noted where
  current noted := noted.parser.current
  peek noted := noted.parser.peek
  advance noted := { noted with parser := noted.parser.advance }
  enterBlock noted := { noted with parser := noted.parser.enterBlock }
  leaveBlock noted := { noted with parser := noted.parser.leaveBlock }
  remaining noted := noted.parser.remaining

/-- Notes a call and answers it by the rule. -/
def note {α : Type} (call : Call) (rule : Rule α) : RuleOn Noted α := fun noted =>
  match rule noted.parser with
  | .ok value later => .ok value ⟨later, (call, noted.parser) :: noted.calls⟩
  | .error diagnostic later => .error diagnostic ⟨later, (call, noted.parser) :: noted.calls⟩

/-- The nested phrases are called for, and read by the grammar without a bound. -/
def grammar : Grammar Noted where
  expr power := note (.expr power) (Grammar.unbounded.expr power)
  operators power left := note (.operators power left) (Grammar.unbounded.operators power left)
  moreArguments := note .moreArguments Grammar.unbounded.moreArguments
  moreParameters := note .moreParameters Grammar.unbounded.moreParameters
  statements := note .statements Grammar.unbounded.statements

end Noted

namespace Grammar.RuleName

variable {σ τ α : Type} [Reader σ] [Reader τ]

/-- The calls that a function may make before it has used up a token are those of lower rank. -/
def rank : RuleName α → Nat
  | statements => 2
  | statement | letBinding | returnValue | expression => 1
  | _ => 0

/-- The rule that asks the grammar for the expression that a statement holds, too, and that reads the
first statement of a block by `first`. -/
def asking (grammar : Grammar σ) (first : RuleOn σ Stmt) : RuleName α → RuleOn σ α
  | statement => statementOf (grammar.expr .lowest) grammar.blockStatementRule
  | letBinding => letOf (grammar.expr .lowest)
  | returnValue => returnOf (grammar.expr .lowest)
  | expression => expressionOf (grammar.expr .lowest)
  | statements => statementsOf first grammar.statements
  | name => name.rule grammar

theorem asking_of_rank {grammar : Grammar σ} {first : RuleOn σ Stmt} {name : RuleName α}
    (h : name.rank = 0) : name.asking grammar first = name.rule grammar := by
  cases name with
  | statement | letBinding | returnValue | expression | statements => cases h
  | _ => rfl

/-- Over the grammar without a bound, to ask for an expression is to read it. -/
theorem asking_unbounded (name : RuleName α) :
    name.asking unbounded unbounded.statementRule = name.rule unbounded := by
  cases name with
  | statement | letBinding | returnValue | expression =>
    rw [asking, expr_unbounded]
    rfl
  | _ => rfl

/-- **Rules that ask for what they can are related** if what they ask for is. -/
theorem related_asking {C : Rule.Relation σ τ} {n : Nat} (name : RuleName α)
    {grammar : Grammar σ} {other : Grammar τ} (first : RuleOn σ Stmt) (first' : RuleOn τ Stmt)
    (hC : Rule.Compositional C) (h : Related C n grammar other)
    (hexpr : 0 < name.rank → C (n + 1) Expr (grammar.expr .lowest) (other.expr .lowest))
    (hfirst : 1 < name.rank → C (n + 1) Stmt first first') :
    C (n + 1) α (name.asking grammar first) (name.asking other first') := by
  by_cases hrank : name.rank = 0
  · rw [asking_of_rank hrank, asking_of_rank hrank]
    exact name.related h hC
  · replace hexpr := hexpr (Nat.pos_of_ne_zero hrank)
    cases name with
    | statement => exact hC.statementOf hexpr (h.blockStatementRule hC)
    | letBinding => exact hC.letOf hexpr
    | returnValue => exact hC.returnOf hexpr
    | expression => exact hC.expressionOf hexpr
    | statements => exact hC.statementsOf (hfirst (Nat.lt_succ_self 1)) h.statements
    | _ => exact absurd rfl hrank

/-- The rule with its calls noted. -/
def noted (name : RuleName α) : RuleOn Noted α :=
  name.asking Noted.grammar (Noted.note .statement unbounded.statementRule)

/-- The calls that a function makes itself on a parser, the last one first. -/
def calls (name : RuleName α) (parser : Parser) : List (Call × Parser) :=
  (Rule.leaves name.noted ⟨parser, []⟩).calls

end Grammar.RuleName

namespace Call

/-- The calls that are made directly by a call. -/
def calls : Call → Parser → List (Call × Parser)
  | statement => Grammar.RuleName.statement.calls
  | statements => Grammar.RuleName.statements.calls
  | expr power => (Grammar.RuleName.expr power).calls
  | operators power left => (Grammar.RuleName.operators power left).calls
  | moreArguments => Grammar.RuleName.moreArguments.calls
  | moreParameters => Grammar.RuleName.moreParameters.calls

/-- The second one calls the first one. -/
def Calls (callee caller : Call × Parser) : Prop :=
  callee ∈ caller.1.calls caller.2

end Call

/-! ## Noting changes nothing -/

namespace Noted

theorem inStep_noted : Reader.InStep fun (noted : Noted) parser => noted.parser = parser where
  current h := congrArg Parser.current h
  peek h := congrArg Parser.peek h
  advance h := congrArg Parser.advance h
  enterBlock h := congrArg Parser.enterBlock h
  leaveBlock h := congrArg Parser.leaveBlock h

theorem inStep_note {α : Type} (call : Call) (rule : Rule α) :
    Rule.InStep (fun (noted : Noted) parser => noted.parser = parser) (note call rule) rule := by
  rintro noted _ rfl
  unfold note
  cases rule noted.parser with
  | ok value later => exact .ok value rfl
  | error diagnostic later => exact .error diagnostic rfl

theorem inStep_grammar :
    Grammar.InStep (fun (noted : Noted) parser => noted.parser = parser) grammar .unbounded where
  expr _ := inStep_note _ _
  operators _ _ := inStep_note _ _
  moreArguments := inStep_note _ _
  moreParameters := inStep_note _ _
  statements := inStep_note _ _

end Noted

/-- **To note the calls changes nothing.** -/
theorem Grammar.RuleName.inStep_noted {α : Type} (name : RuleName α) :
    Rule.InStep (fun (noted : Noted) parser => noted.parser = parser) name.noted
      (Parser.reading name.rule) := by
  rw [Parser.reading_eq, ← asking_unbounded]
  exact name.related_asking _ _ (Rule.compositional_inStep Noted.inStep_noted)
    ((inStep_iff_related 0).mp Noted.inStep_grammar)
    (fun _ => Noted.inStep_grammar.expr .lowest) (fun _ => Noted.inStep_note _ _)

/-! ## What is called -/

namespace Rule

variable {α β : Type} {start : Parser} {P : Call × Parser → Prop} {n : Nat}

/-- Where at most `n` tokens are left behind `start`, the rule leads onward, and what it calls on the
way meets the condition `P`. -/
def Keeps (start : Parser) (P : Call × Parser → Prop) (n : Nat) (rule : RuleOn Noted α) : Prop :=
  ∀ noted : Noted, start.Onward noted.parser → noted.parser.remaining ≤ n →
    (∀ call ∈ noted.calls, P call) →
      noted.parser.Onward (leaves rule noted).parser ∧ ∀ call ∈ (leaves rule noted).calls, P call

namespace Keeps

theorem mono {m : Nat} {rule : RuleOn Noted α} (h : Keeps start P n rule) (hle : m ≤ n) :
    Keeps start P m rule :=
  fun noted hon hm => h noted hon (Nat.le_trans hm hle)

/-- A rule that calls nothing has to lead onward. -/
theorem of_onward {rule : RuleOn Noted α}
    (h : ∀ noted : Noted, noted.parser.Onward (leaves rule noted).parser ∧
      (leaves rule noted).calls = noted.calls) : Keeps start P n rule := by
  intro noted _ _ hcalls
  obtain ⟨hon, heq⟩ := h noted
  rw [heq]
  exact ⟨hon, hcalls⟩

theorem pure (value : α) : Keeps start P n (pure value) :=
  .of_onward fun noted => ⟨.refl noted.parser, rfl⟩

theorem current : Keeps start P n current :=
  .of_onward fun noted => ⟨.refl noted.parser, rfl⟩

theorem peekKind : Keeps start P n peekKind :=
  .of_onward fun noted => ⟨.refl noted.parser, rfl⟩

theorem failHere (cause : SyntaxError) : Keeps (α := α) start P n (failHere cause) :=
  .of_onward fun noted => ⟨.refl noted.parser, rfl⟩

theorem failNext (kind : TokenKind) : Keeps (α := α) start P n (failNext kind) :=
  .of_onward fun noted => ⟨.refl noted.parser, rfl⟩

theorem enterBlock : Keeps start P n enterBlock :=
  .of_onward fun _ => ⟨⟨List.suffix_refl _, rfl, rfl⟩, rfl⟩

theorem leaveBlock : Keeps start P n leaveBlock :=
  .of_onward fun _ => ⟨⟨List.suffix_refl _, rfl, rfl⟩, rfl⟩

theorem bind {rule : RuleOn Noted α} {next : α → RuleOn Noted β} (h : Keeps start P n rule)
    (hnext : ∀ value, Keeps start P n (next value)) : Keeps start P n (rule >>= next) := by
  intro noted hstart hn hcalls
  have hrule := h noted hstart hn hcalls
  unfold leaves at hrule ⊢
  rw [bind_apply]
  cases heq : rule noted with
  | error diagnostic later =>
    rw [heq] at hrule
    exact hrule
  | ok value later =>
    rw [heq] at hrule
    obtain ⟨hon, hcalls⟩ := hrule
    obtain ⟨hon', hcalls'⟩ := hnext value later (hstart.trans hon)
      (Nat.le_trans hon.remaining_le hn) hcalls
    exact ⟨hon.trans hon', hcalls'⟩

theorem advance {next : Unit → RuleOn Noted β} (h : Keeps start P n (next ())) :
    Keeps start P (n + 1) (Rule.advance >>= next) := by
  intro noted hstart hn hcalls
  have hon := noted.parser.onward_advance
  obtain ⟨hon', hcalls'⟩ := h (Reader.advance noted) (hstart.trans hon)
    (Parser.remaining_advance_le_of_succ hn) hcalls
  exact ⟨hon.trans hon', hcalls'⟩

/-- A call is noted with the parser that it is made on. -/
theorem note {rule : Rule α} {call : Call} (hon : ∀ parser : Parser, parser.Onward (leaves rule parser))
    (hcall : ∀ parser : Parser, start.Onward parser → parser.remaining ≤ n → P (call, parser)) :
    Keeps start P n (Noted.note call rule) := by
  intro noted hstart hn hcalls
  have hleaves := hon noted.parser
  have hnoted : ∀ other ∈ (call, noted.parser) :: noted.calls, P other :=
    List.forall_mem_cons.mpr ⟨hcall noted.parser hstart hn, hcalls⟩
  unfold leaves Noted.note
  unfold leaves at hleaves
  cases heq : rule noted.parser with
  | ok value later =>
    rw [heq] at hleaves
    exact ⟨hleaves, hnoted⟩
  | error diagnostic later =>
    rw [heq] at hleaves
    exact ⟨hleaves, hnoted⟩

end Keeps

/-- **To lead onward and to keep to a condition on calls** is kept where rules are put together. -/
theorem compositional_keeps (start : Parser) (P : Call × Parser → Prop) :
    Compositional fun n _ rule (_ : RuleOn Noted _) => Keeps start P n rule where
  mono := .mono
  pure := .pure
  bind := .bind
  current := .current
  peekKind := .peekKind
  failHere := .failHere
  failNext := .failNext
  advance := .advance
  block h := by
    refine .bind .current fun token => .bind .enterBlock fun _ => .advance ?_
    exact .bind h fun statements => .bind .leaveBlock fun _ => .pure _

end Rule

/-! ## Fewer tokens -/

/-- The rank of the function that is called. -/
def Call.rank : Call → Nat
  | statement => Grammar.RuleName.statement.rank
  | statements => Grammar.RuleName.statements.rank
  | expr power => (Grammar.RuleName.expr power).rank
  | operators power left => (Grammar.RuleName.operators power left).rank
  | moreArguments => Grammar.RuleName.moreArguments.rank
  | moreParameters => Grammar.RuleName.moreParameters.rank

/-- The call is made on what is left of the tokens, and these are at most `n`, or `n + 1` for a call
of lower rank. -/
def Call.Within (start : Parser) (n rank : Nat) (callee : Call × Parser) : Prop :=
  start.Onward callee.2 ∧
    (callee.2.remaining ≤ n ∨ callee.2.remaining ≤ n + 1 ∧ callee.1.rank < rank)

namespace Grammar.RuleName

variable {α : Type} {parser : Parser} {callee : Call × Parser}

/-- **A function calls where fewer tokens are left**, or a function of lower rank. -/
theorem keeps (name : RuleName α) (start : Parser) (n : Nat) :
    Rule.Keeps start (Call.Within start n name.rank) (n + 1) name.noted := by
  -- behind a token that is used up, every call is allowed
  let P := Call.Within start n name.rank
  have hcalled : Related (fun n _ rule (_ : RuleOn Noted _) => Rule.Keeps start P n rule) n
      Noted.grammar Noted.grammar := {
    expr := fun power => .note (Parser.onward_reading (.expr power))
      fun _ hon hn => ⟨hon, Or.inl hn⟩
    operators := fun power left => .note (Parser.onward_reading (.operators power left))
      fun _ hon hn => ⟨hon, Or.inl hn⟩
    moreArguments := .note (Parser.onward_reading .moreArguments)
      fun _ hon hn => ⟨hon, Or.inl hn⟩
    moreParameters := .note (Parser.onward_reading .moreParameters)
      fun _ hon hn => ⟨hon, Or.inl hn⟩
    statements := .note (Parser.onward_reading .statements)
      fun _ hon hn => ⟨hon, Or.inl hn⟩ }
  let first := Noted.note .statement unbounded.statementRule
  refine name.related_asking first first (Rule.compositional_keeps start P) hcalled
    (fun hrank => ?_) fun hrank => ?_
  · exact .note (Parser.onward_reading (.expr .lowest)) fun _ hon hn => ⟨hon, Or.inr ⟨hn, hrank⟩⟩
  · exact .note Parser.onward_statementRule fun _ hon hn => ⟨hon, Or.inr ⟨hn, hrank⟩⟩

theorem within_of_mem_calls {name : RuleName α} {n : Nat} (hn : parser.remaining ≤ n + 1)
    (h : callee ∈ name.calls parser) : Call.Within parser n name.rank callee := by
  have hcalls := name.keeps parser n ⟨parser, []⟩ (.refl parser) hn fun _ h => absurd h List.not_mem_nil
  exact hcalls.2 callee h

end Grammar.RuleName

/-! ## The end of the input -/

namespace Grammar

variable {parser : Parser}

/-- At the end of the input there is no expression. -/
theorem expr_of_atEnd (h : parser.atEnd = true) (power : Power) :
    unbounded.expr power parser = .error ⟨.notAnExpression .eof, parser.position⟩ parser := by
  have hkind : parser.current.kind = .eof := of_decide_eq_true h
  rw [expr_unbounded]
  simp only [exprRule, operandRule, noExpression, Rule.bind_apply, Rule.current_apply, hkind,
    Rule.failHere_apply]

namespace RuleName

theorem calls_expr_of_atEnd (h : parser.atEnd = true) (power : Power) :
    (expr power).calls parser = [] := by
  have hkind : (Reader.current (⟨parser, []⟩ : Noted)).kind = .eof := of_decide_eq_true h
  show (Rule.leaves (Noted.grammar.exprRule power) ⟨parser, []⟩).calls = []
  simp only [Rule.leaves, exprRule, operandRule, noExpression, Rule.bind_apply, Rule.current, hkind,
    Rule.failHere]

theorem calls_statement_of_atEnd (h : parser.atEnd = true) :
    statement.calls parser = [(.expr .lowest, parser)] := by
  have hkind : (Reader.current (⟨parser, []⟩ : Noted)).kind = .eof := of_decide_eq_true h
  show (Rule.leaves (statementOf (Noted.grammar.expr .lowest) Noted.grammar.blockStatementRule)
    ⟨parser, []⟩).calls = _
  simp only [Rule.leaves, statementOf, expressionOf, Rule.bind_apply, Rule.current, hkind,
    Noted.grammar, Noted.note, expr_of_atEnd h]

/-- With no token left, a function calls for an expression or for the statements of a block, or it
calls nothing. -/
theorem calls_of_nil {α : Type} (name : RuleName α) (h : parser.ahead = []) :
    name.calls parser = [] ∨ ∃ call later, name.calls parser = [(call, later)] ∧ later.ahead = [] ∧
      (call = .statements ∨ ∃ power, call = .expr power) := by
  obtain ⟨ahead, stop, diagnostics, openBlocks⟩ := parser
  obtain rfl : ahead = [] := h
  cases name with
  | identifier | integer | boolean | alternative | ifElse | moreParameters | parameters | function
  | moreArguments | letBinding | returnValue | expr | operand | statements | operator | operators =>
    exact Or.inl rfl
  | block | blockStatement => exact Or.inr ⟨_, _, rfl, rfl, Or.inl rfl⟩
  | prefixOp | group | infixOp | arguments | call | expression | statement =>
    exact Or.inr ⟨_, _, rfl, rfl, Or.inr ⟨_, rfl⟩⟩

end RuleName

end Grammar

/-! ## The order of calls -/

namespace Call

variable {parser later : Parser} {callee caller : Call × Parser}

theorem within_of_mem_calls {call : Call} {n : Nat} (hn : parser.remaining ≤ n + 1)
    (h : callee ∈ call.calls parser) : Within parser n call.rank callee := by
  cases call <;> exact Grammar.RuleName.within_of_mem_calls hn h

/-- With no token left, only a statement calls for something. -/
theorem calls_of_nil (call : Call) (h : parser.ahead = []) :
    call.calls parser = [] ∨
      call = .statement ∧ call.calls parser = [(.expr .lowest, parser)] := by
  have hend : parser.atEnd = true := by
    rw [Parser.atEnd, Parser.current, h]
    rfl
  obtain ⟨ahead, stop, diagnostics, openBlocks⟩ := parser
  obtain rfl : ahead = [] := h
  cases call with
  | statement => exact Or.inr ⟨rfl, Grammar.RuleName.calls_statement_of_atEnd hend⟩
  | expr power => exact Or.inl (Grammar.RuleName.calls_expr_of_atEnd hend power)
  | statements | operators | moreArguments | moreParameters => exact Or.inl rfl

/-- The first call is made on what is left of the tokens of the second one. It is made on fewer, or
on as many and of lower rank. -/
structure Descends (callee caller : Call × Parser) : Prop where
  onward : caller.2.Onward callee.2
  lower : callee.2.remaining < caller.2.remaining ∨
    callee.2.remaining = caller.2.remaining ∧ callee.1.rank < caller.1.rank

theorem Descends.trans {first : Call × Parser} (h : Descends callee caller)
    (h' : Descends caller first) : Descends callee first where
  onward := h'.onward.trans h.onward
  lower := by
    have hlower := h.lower
    have hlower' := h'.lower
    omega

/-- **One call** descends. -/
theorem Calls.descends (h : Calls callee caller) : Descends callee caller := by
  obtain ⟨call, parser⟩ := caller
  change callee ∈ call.calls parser at h
  cases hremaining : parser.remaining with
  | zero =>
    rcases call.calls_of_nil (List.length_eq_zero_iff.mp hremaining) with hnone | ⟨rfl, hexpr⟩
    · rw [hnone] at h
      exact absurd h List.not_mem_nil
    · rw [hexpr] at h
      obtain rfl := List.mem_singleton.mp h
      exact ⟨.refl parser, Or.inr ⟨rfl, Nat.zero_lt_one⟩⟩
  | succ n =>
    obtain ⟨hon, hlower⟩ := within_of_mem_calls (Nat.le_of_eq hremaining) h
    refine ⟨hon, ?_⟩
    show callee.2.remaining < parser.remaining ∨
      callee.2.remaining = parser.remaining ∧ callee.1.rank < call.rank
    omega

/-- **The calls that calls lead to** descend. -/
theorem descends_of_transGen (h : Relation.TransGen Calls callee caller) :
    Descends callee caller := by
  induction h with
  | single h => exact h.descends
  | tail _ h ih => exact ih.trans h.descends

/-- **Calls end.** -/
theorem wellFounded_calls : WellFounded Calls := by
  have hlex : WellFounded (Prod.Lex (fun n m : Nat => n < m) fun n m : Nat => n < m) :=
    WellFounded.prod_lex wellFounded_lt wellFounded_lt
  let measure : Call × Parser → Nat × Nat := fun call => (call.2.remaining, call.1.rank)
  refine Subrelation.wf (fun {callee caller} h => ?_) (InvImage.wf measure hlex)
  exact Prod.lex_def.mpr h.descends.lower

end Call

end MonkeySyntax
