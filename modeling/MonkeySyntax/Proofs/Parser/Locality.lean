import MonkeySyntax.Proofs.Parser.Passage
import MonkeySyntax.Proofs.Parser.Unbounded
import MonkeySyntax.Proofs.Syntax.Moved

/-!
# MonkeySyntax — how far a rule looks

What a rule does is decided by the tokens that it goes over and by one more: the token behind them
if it succeeds, and the token that the diagnostic is on if it fails. What comes after that makes no
difference, and neither does the place of a token, except that it is the place of a node or of a
diagnostic.

* **`Parser.Like place n parser other`** — `other` has the tokens of `parser`, up to the one `n`
  places on, where `place` puts them.
* **`Rule.Local`** — a rule does the same on both if they are alike as far as it looks. It is
  closed under sequencing (`Rule.Local.bind`), and there is one lemma for each rule.
* **`Grammar.local_upTo`** — so every grammar of an input is local, and statements are
  (`Parser.statementRule_ok_of_like`, `Parser.statementRule_error_of_like`).
-/

namespace MonkeySyntax

/-- How many tokens behind the one at which the parser stands is the one that the error is on. -/
def SyntaxError.lookahead : SyntaxError → Nat
  | .unexpectedToken _ _ => 1
  | .notAnExpression _ | .invalidNumber _ => 0

/-! ## Parsers that are alike -/

namespace Parser

/-- The parser `n` tokens on, with `depth` blocks open. -/
def reach (n depth : Nat) (parser : Parser) : Parser :=
  { parser.skip n with openBlocks := depth }

@[simp]
theorem reach_reach (n m depth depth' : Nat) (parser : Parser) :
    (parser.reach n depth).reach m depth' = parser.reach (n + m) depth' := by
  simp [reach, skip]

@[simp]
theorem ahead_reach (n depth : Nat) (parser : Parser) :
    (parser.reach n depth).ahead = parser.ahead.drop n := rfl

@[simp]
theorem openBlocks_reach (n depth : Nat) (parser : Parser) :
    (parser.reach n depth).openBlocks = depth := rfl

@[simp]
theorem skip_reach (n m depth : Nat) (parser : Parser) :
    (parser.reach n depth).skip m = parser.reach (n + m) depth := by
  simp [reach, skip]

@[simp]
theorem current_reach (n depth : Nat) (parser : Parser) :
    (parser.reach n depth).current = (parser.skip n).current := rfl

theorem advance_eq_reach (parser : Parser) : parser.advance = parser.reach 1 parser.openBlocks :=
  parser.advance_eq_skip

/-- The tokens of `other`, up to the one `n` places on, are those of `parser` where `place` puts
them, and as many blocks are open. -/
structure Like (place : Position → Position) (n : Nat) (parser other : Parser) : Prop where
  token : ∀ i ≤ n, (other.skip i).current = (parser.skip i).current.moved place
  openBlocks : other.openBlocks = parser.openBlocks

namespace Like

variable {place : Position → Position} {n m depth : Nat} {parser other : Parser}

theorem mono (h : parser.Like place n other) (hle : m ≤ n) : parser.Like place m other :=
  ⟨fun i hi => h.token i (Nat.le_trans hi hle), h.openBlocks⟩

/-- Parsers that are alike are alike further on. -/
theorem reach (h : parser.Like place (m + n) other) :
    (parser.reach m depth).Like place n (other.reach m depth) := by
  refine ⟨fun i hi => ?_, rfl⟩
  rw [skip_reach, skip_reach, current_reach, current_reach]
  exact h.token (m + i) (by omega)

theorem skip (h : parser.Like place (m + n) other) :
    (parser.skip m).Like place n (other.skip m) := by
  refine ⟨fun i hi => ?_, h.openBlocks⟩
  rw [skip_skip, skip_skip]
  exact h.token (m + i) (by omega)

theorem advance (h : parser.Like place (n + 1) other) :
    parser.advance.Like place n other.advance := by
  rw [parser.advance_eq_reach, other.advance_eq_reach, h.openBlocks]
  rw [Nat.add_comm] at h
  exact h.reach

theorem current (h : parser.Like place n other) : other.current = parser.current.moved place :=
  h.token 0 n.zero_le

theorem peek (h : parser.Like place (n + 1) other) : other.peek = parser.peek.moved place :=
  h.advance.current

theorem kind_peek (h : parser.Like place (n + 1) other) : other.peek.kind = parser.peek.kind := by
  rw [h.peek, Token.kind_moved]

/-- Diagnostics on the next token are on the same token. -/
theorem unexpected (h : parser.Like place (n + 1) other) (expected : TokenKind) :
    other.unexpected expected = (parser.unexpected expected).moved place := by
  rw [Parser.unexpected, h.peek]
  rfl

end Like

end Parser

/-! ## Steps and sequences -/

namespace Rule

open MonkeySyntax.Parser

variable {α β : Type} {place : Position → Position} {first : Nat} {act : α → α} {act' : β → β}

theorem expect_bind_of_kind {kind : TokenKind} {parser : Parser} (h : parser.peek.kind = kind)
    (next : Unit → Rule β) : (expect kind >>= next) parser = (advance >>= next) parser :=
  bind_of_ok (expect_of_kind h) next

/-- What `rule` does on a parser, `other` does on every parser that is like it as far as the rule
looks. `act` says what becomes of the value where `place` moves the tokens, and `first` is the first
token, counted from the current one, that a diagnostic can be on. -/
def Local (place : Position → Position) (first : Nat) (act : α → α) (rule other : Rule α) : Prop :=
  ∀ parser, match rule parser with
    | .ok value later => ∃ n depth, later = parser.reach n depth ∧
        ∀ like, parser.Like place (n + 1) like →
          other like = .ok (act value) (like.reach n depth)
    | .error diagnostic later => ∃ n depth, later = parser.reach n depth ∧
        first ≤ n + diagnostic.cause.lookahead ∧
        ∀ like, parser.Like place (n + diagnostic.cause.lookahead) like →
          other like = .error (diagnostic.moved place) (like.reach n depth)

namespace Local

theorem ok {rule other : Rule α} {parser later : Parser} {value : α}
    (h : Local place first act rule other) (hrule : rule parser = .ok value later) :
    ∃ n depth, later = parser.reach n depth ∧
      ∀ like, parser.Like place (n + 1) like →
        other like = .ok (act value) (like.reach n depth) := by
  have hparser := h parser
  rwa [hrule] at hparser

theorem error {rule other : Rule α} {parser later : Parser} {diagnostic : Diagnostic}
    (h : Local place first act rule other) (hrule : rule parser = .error diagnostic later) :
    ∃ n depth, later = parser.reach n depth ∧ first ≤ n + diagnostic.cause.lookahead ∧
      ∀ like, parser.Like place (n + diagnostic.cause.lookahead) like →
        other like = .error (diagnostic.moved place) (like.reach n depth) := by
  have hparser := h parser
  rwa [hrule] at hparser

theorem mono {first' : Nat} {rule other : Rule α} (h : Local place first act rule other)
    (hle : first' ≤ first) : Local place first' act rule other := by
  intro parser
  cases hrule : rule parser with
  | ok value later => exact h.ok hrule
  | error diagnostic later =>
    obtain ⟨n, depth, hlater, hfirst, hother⟩ := h.error hrule
    exact ⟨n, depth, hlater, Nat.le_trans hle hfirst, hother⟩

theorem pure (value : α) : Local place first act (pure value : Rule α) (pure (act value)) := by
  intro parser
  rw [pure_apply]
  exact ⟨0, parser.openBlocks, rfl, fun like hlike => by rw [← hlike.openBlocks]; rfl⟩

theorem failHere (cause : SyntaxError) :
    Local place cause.lookahead act (Rule.failHere cause : Rule α) (Rule.failHere cause) := by
  intro parser
  refine ⟨0, parser.openBlocks, rfl, Nat.le_add_left _ _, fun like hlike => ?_⟩
  have hposition : like.position = place parser.position := by
    rw [Parser.position, hlike.current]
    rfl
  rw [failHere_apply, hposition, ← hlike.openBlocks]
  rfl

theorem endStatement (optional : Bool) :
    Local place 1 id (Rule.endStatement optional) (Rule.endStatement optional) := by
  intro parser
  simp only [endStatement_apply]
  cases hkind : parser.peek.kind with
  | semicolon =>
    refine ⟨1, parser.openBlocks, parser.advance_eq_reach, fun like hlike => ?_⟩
    rw [hlike.kind_peek, hkind, ← hlike.openBlocks]
    exact congrArg (EStateM.Result.ok ()) like.advance_eq_reach
  | closeCurly | eof =>
    refine ⟨0, parser.openBlocks, rfl, fun like hlike => ?_⟩
    rw [hlike.kind_peek, hkind, ← hlike.openBlocks]
    rfl
  | _ =>
    cases optional with
    | true =>
      refine ⟨0, parser.openBlocks, rfl, fun like hlike => ?_⟩
      rw [hlike.kind_peek, hkind, ← hlike.openBlocks]
      rfl
    | false =>
      refine ⟨0, parser.openBlocks, rfl, Nat.le_refl 1, fun like hlike => ?_⟩
      have hnext : parser.Like place (0 + 1) like := hlike
      rw [hnext.kind_peek, hkind, ← hlike.openBlocks]
      exact congrArg (EStateM.Result.error · like) (hnext.unexpected .semicolon)

/-! What follows a step that does not look at the next token may fail at the token where it starts;
what follows any other rule may not, as the token behind it has been looked at. -/

theorem current_bind {next next' : Token → Rule β}
    (hnext : ∀ token, Local place first act' (next token) (next' (token.moved place))) :
    Local place first act' (current >>= next) (current >>= next') := by
  intro parser
  have hparser := hnext parser.current parser
  rw [Rule.current_bind]
  cases hrule : next parser.current parser with
  | ok value later =>
    obtain ⟨n, depth, hlater, hother⟩ := (hnext _).ok hrule
    refine ⟨n, depth, hlater, fun like hlike => ?_⟩
    rw [Rule.current_bind, hlike.current, hother like hlike]
  | error diagnostic later =>
    obtain ⟨n, depth, hlater, hfirst, hother⟩ := (hnext _).error hrule
    refine ⟨n, depth, hlater, hfirst, fun like hlike => ?_⟩
    rw [Rule.current_bind, hlike.current, hother like hlike]

theorem peekKind_bind {next next' : TokenKind → Rule β}
    (hnext : ∀ kind, Local place 1 act' (next kind) (next' kind)) :
    Local place 1 act' (peekKind >>= next) (peekKind >>= next') := by
  intro parser
  rw [Rule.peekKind_bind]
  cases hrule : next parser.peek.kind parser with
  | ok value later =>
    obtain ⟨n, depth, hlater, hother⟩ := (hnext _).ok hrule
    refine ⟨n, depth, hlater, fun like hlike => ?_⟩
    rw [Rule.peekKind_bind, hlike.kind_peek, hother like hlike]
  | error diagnostic later =>
    obtain ⟨n, depth, hlater, hfirst, hother⟩ := (hnext _).error hrule
    refine ⟨n, depth, hlater, hfirst, fun like hlike => ?_⟩
    have hpeek : parser.Like place (0 + 1) like := hlike.mono hfirst
    rw [Rule.peekKind_bind, hpeek.kind_peek, hother like hlike]

/-- A step of `n` tokens that counts blocks, from where the second rule goes on. -/
theorem step_bind {n : Nat} {step : Rule Unit} (blocks : Nat → Nat)
    (hstep : ∀ parser : Parser, step parser = .ok () (parser.reach n (blocks parser.openBlocks)))
    {next next' : Unit → Rule β} (hnext : Local place first act' (next ()) (next' ())) :
    Local place (n + first) act' (step >>= next) (step >>= next') := by
  intro parser
  rw [bind_of_ok (hstep parser)]
  cases hrule : next () (parser.reach n (blocks parser.openBlocks)) with
  | ok value later =>
    obtain ⟨m, depth, rfl, hother⟩ := hnext.ok hrule
    refine ⟨n + m, depth, reach_reach .., fun like hlike => ?_⟩
    rw [Nat.add_assoc] at hlike
    rw [bind_of_ok (hstep like), hlike.openBlocks, hother _ hlike.reach, reach_reach]
  | error diagnostic later =>
    obtain ⟨m, depth, rfl, hfirst, hother⟩ := hnext.error hrule
    refine ⟨n + m, depth, reach_reach .., by omega, fun like hlike => ?_⟩
    rw [Nat.add_assoc] at hlike
    rw [bind_of_ok (hstep like), hlike.openBlocks, hother _ hlike.reach, reach_reach]

theorem advance_bind {next next' : Unit → Rule β}
    (hnext : Local place 0 act' (next ()) (next' ())) :
    Local place 1 act' (advance >>= next) (advance >>= next') :=
  step_bind id (fun parser => congrArg (EStateM.Result.ok ()) parser.advance_eq_reach) hnext

theorem enterBlock_bind {next next' : Unit → Rule β}
    (hnext : Local place first act' (next ()) (next' ())) :
    Local place first act' (enterBlock >>= next) (enterBlock >>= next') :=
  (step_bind (n := 0) (· + 1) (fun _ => rfl) hnext).mono (Nat.le_add_left _ _)

theorem leaveBlock_bind {next next' : Unit → Rule β}
    (hnext : Local place first act' (next ()) (next' ())) :
    Local place first act' (leaveBlock >>= next) (leaveBlock >>= next') :=
  (step_bind (n := 0) (· - 1) (fun _ => rfl) hnext).mono (Nat.le_add_left _ _)

theorem expect_bind {kind : TokenKind} {next next' : Unit → Rule β}
    (hnext : Local place 0 act' (next ()) (next' ())) :
    Local place 1 act' (expect kind >>= next) (expect kind >>= next') := by
  intro parser
  by_cases hkind : parser.peek.kind = kind
  · -- the token is there, and `expect` is a step over it
    have hadvance : Local place 1 act' (advance >>= next) (advance >>= next') := advance_bind hnext
    rw [expect_bind_of_kind hkind]
    cases hrule : (advance >>= next) parser with
    | ok value later =>
      obtain ⟨n, depth, hlater, hother⟩ := hadvance.ok hrule
      refine ⟨n, depth, hlater, fun like hlike => ?_⟩
      rw [expect_bind_of_kind (hlike.kind_peek.trans hkind), hother like hlike]
    | error diagnostic later =>
      obtain ⟨n, depth, hlater, hfirst, hother⟩ := hadvance.error hrule
      refine ⟨n, depth, hlater, hfirst, fun like hlike => ?_⟩
      have hpeek : parser.Like place (0 + 1) like := hlike.mono hfirst
      rw [expect_bind_of_kind (hpeek.kind_peek.trans hkind), hother like hlike]
  · rw [bind_apply, expect_apply, if_neg hkind]
    refine ⟨0, parser.openBlocks, rfl, Nat.le_refl 1, fun like hlike => ?_⟩
    have hpeek : parser.Like place (0 + 1) like := hlike
    rw [bind_apply, expect_apply, hpeek.kind_peek, if_neg hkind, hpeek.unexpected,
      ← hlike.openBlocks]
    rfl

/-- The second rule looks on from where the first one has stopped. -/
theorem bind {rule other : Rule α} {next next' : α → Rule β} (h : Local place first act rule other)
    (hnext : ∀ value, Local place 1 act' (next value) (next' (act value))) (hfirst : first ≤ 1) :
    Local place first act' (rule >>= next) (other >>= next') := by
  intro parser
  rw [bind_apply]
  cases hrule : rule parser with
  | error diagnostic later =>
    obtain ⟨n, depth, hlater, hle, hother⟩ := h.error hrule
    refine ⟨n, depth, hlater, hle, fun like hlike => ?_⟩
    rw [bind_apply, hother like hlike]
  | ok value mid =>
    obtain ⟨n, depth, rfl, hother⟩ := h.ok hrule
    dsimp only
    cases hresult : next value (parser.reach n depth) with
    | ok result later =>
      obtain ⟨m, depth', rfl, hother'⟩ := (hnext value).ok hresult
      refine ⟨n + m, depth', reach_reach .., fun like hlike => ?_⟩
      rw [bind_of_ok (hother like (hlike.mono (by omega)))]
      rw [Nat.add_assoc] at hlike
      rw [hother' _ hlike.reach, reach_reach]
    | error diagnostic later =>
      obtain ⟨m, depth', rfl, hle, hother'⟩ := (hnext value).error hresult
      refine ⟨n + m, depth', reach_reach .., by omega, fun like hlike => ?_⟩
      rw [bind_of_ok (hother like (hlike.mono (by omega)))]
      rw [Nat.add_assoc] at hlike
      rw [hother' _ hlike.reach, reach_reach]

end Local

end Rule

/-! ## Grammars

A grammar that reads the nested phrases locally gives rules that are local. -/

namespace Grammar

open Rule

/-- Every phrase is read locally. Of the phrases behind a token, none fails at that token. -/
structure Local (place : Position → Position) (grammar : Grammar) : Prop where
  expr : ∀ power, Rule.Local place 0 (Expr.retoken (.moved place)) (grammar.expr power)
    (grammar.expr power)
  operators : ∀ power left, Rule.Local place 1 (Expr.retoken (.moved place))
    (grammar.operators power left) (grammar.operators power (left.retoken (.moved place)))
  moreArguments : Rule.Local place 1 (Expr.retokenEach (.moved place)) grammar.moreArguments
    grammar.moreArguments
  moreParameters : Rule.Local place 1 (List.map (Identifier.retoken (.moved place)))
    grammar.moreParameters grammar.moreParameters
  statements : Rule.Local place 0 (Stmt.retokenEach (.moved place)) grammar.statements
    grammar.statements

variable {place : Position → Position}

theorem local_identifierRule :
    Rule.Local place 0 (Identifier.retoken (.moved place)) identifierRule identifierRule :=
  .current_bind fun _ => .pure _

theorem local_integerRule :
    Rule.Local place 0 (Expr.retoken (.moved place)) integerRule integerRule := by
  refine .current_bind fun token => ?_
  rw [Token.literal_moved]
  cases integerValue? token.literal with
  | none => exact .failHere (.invalidNumber token.literal)
  | some value => exact .pure _

theorem local_booleanRule :
    Rule.Local place 0 (Expr.retoken (.moved place)) booleanRule booleanRule :=
  .current_bind fun _ => .pure _

theorem local_noExpression {α : Type} {act : α → α} :
    Rule.Local place 0 act (noExpression : Rule α) noExpression :=
  .current_bind fun token => .failHere (.notAnExpression token.kind)

theorem local_unclosedBlock {α : Type} {act : α → α} :
    Rule.Local place 0 act (unclosedBlock : Rule α) unclosedBlock :=
  (Rule.Local.failHere (.unexpectedToken .closeCurly .eof)).mono (Nat.zero_le _)

namespace Local

variable {grammar : Grammar}

theorem blockRule (h : grammar.Local place) :
    Rule.Local place 0 (Block.retoken (.moved place)) grammar.blockRule grammar.blockRule := by
  refine .current_bind fun token => .enterBlock_bind <| .mono (.advance_bind ?_) (Nat.zero_le 1)
  refine .bind h.statements (fun statements => .leaveBlock_bind ?_) (Nat.zero_le 1)
  exact .pure (Block.mk token statements)

theorem prefixOpRule (h : grammar.Local place) :
    Rule.Local place 0 (Expr.retoken (.moved place)) grammar.prefixOpRule
      grammar.prefixOpRule := by
  refine .current_bind fun token => .mono (.advance_bind ?_) (Nat.zero_le 1)
  refine .bind (h.expr .unary) (fun right => ?_) (Nat.zero_le 1)
  exact .pure (Expr.prefixOp token token.literal right)

theorem groupRule (h : grammar.Local place) :
    Rule.Local place 0 (Expr.retoken (.moved place)) grammar.groupRule grammar.groupRule := by
  refine .mono (.advance_bind ?_) (Nat.zero_le 1)
  exact .bind (h.expr .lowest) (fun inner => .expect_bind (.pure inner)) (Nat.zero_le 1)

theorem alternativeRule (h : grammar.Local place) :
    Rule.Local place 1 (Block.retokenElse (.moved place)) grammar.alternativeRule
      grammar.alternativeRule := by
  refine .peekKind_bind fun kind => ?_
  split
  · refine .advance_bind <| .mono (.expect_bind ?_) (Nat.zero_le 1)
    exact .bind h.blockRule (fun block => .pure (some block)) (Nat.zero_le 1)
  · exact .pure none

theorem ifElseRule (h : grammar.Local place) :
    Rule.Local place 0 (Expr.retoken (.moved place)) grammar.ifElseRule grammar.ifElseRule := by
  refine .current_bind fun token => .mono (.expect_bind ?_) (Nat.zero_le 1)
  refine .mono (.advance_bind ?_) (Nat.zero_le 1)
  refine .bind (h.expr .lowest) (fun condition => ?_) (Nat.zero_le 1)
  refine .expect_bind <| .mono (.expect_bind ?_) (Nat.zero_le 1)
  refine .bind h.blockRule (fun consequence => ?_) (Nat.zero_le 1)
  refine .bind h.alternativeRule (fun alternative => ?_) (Nat.le_refl 1)
  exact .pure (Expr.ifElse token condition consequence alternative)

theorem moreParametersRule (h : grammar.Local place) :
    Rule.Local place 1 (List.map (Identifier.retoken (.moved place))) grammar.moreParametersRule
      grammar.moreParametersRule := by
  refine .peekKind_bind fun kind => ?_
  split
  · refine .advance_bind <| .mono (.expect_bind ?_) (Nat.zero_le 1)
    refine .bind local_identifierRule (fun parameter => ?_) (Nat.zero_le 1)
    refine .bind h.moreParameters (fun others => ?_) (Nat.le_refl 1)
    exact .pure (parameter :: others)
  · exact .pure []

theorem parametersRule (h : grammar.Local place) :
    Rule.Local place 1 (List.map (Identifier.retoken (.moved place))) grammar.parametersRule
      grammar.parametersRule := by
  refine .peekKind_bind fun kind => ?_
  split
  · exact .advance_bind (.pure [])
  · refine .expect_bind <| .bind local_identifierRule (fun parameter => ?_) (Nat.zero_le 1)
    refine .bind h.moreParametersRule (fun others => ?_) (Nat.le_refl 1)
    exact .expect_bind (.pure (parameter :: others))

theorem functionRule (h : grammar.Local place) :
    Rule.Local place 0 (Expr.retoken (.moved place)) grammar.functionRule
      grammar.functionRule := by
  refine .current_bind fun token => .mono (.expect_bind ?_) (Nat.zero_le 1)
  refine .mono (.bind h.parametersRule (fun parameters => ?_) (Nat.le_refl 1)) (Nat.zero_le 1)
  refine .expect_bind <| .bind h.blockRule (fun body => ?_) (Nat.zero_le 1)
  exact .pure (Expr.function token parameters body)

theorem operandRule (h : grammar.Local place) :
    Rule.Local place 0 (Expr.retoken (.moved place)) grammar.operandRule grammar.operandRule := by
  refine .current_bind fun token => ?_
  rw [Token.kind_moved]
  cases token.kind with
  | identifier =>
    exact .bind local_identifierRule (fun name => .pure (Expr.identifier name)) (Nat.zero_le 1)
  | integer => exact local_integerRule
  | trueKw | falseKw => exact local_booleanRule
  | bang | dash => exact h.prefixOpRule
  | openParen => exact h.groupRule
  | ifKw => exact h.ifElseRule
  | fnKw => exact h.functionRule
  | _ => exact local_noExpression

theorem infixOpRule (h : grammar.Local place) (power : Power) (left : Expr) :
    Rule.Local place 1 (Expr.retoken (.moved place)) (grammar.infixOpRule power left)
      (grammar.infixOpRule power (left.retoken (.moved place))) := by
  refine .current_bind fun token => .advance_bind ?_
  refine .bind (h.expr power) (fun right => ?_) (Nat.zero_le 1)
  exact .pure (Expr.infixOp token left token.literal right)

theorem moreArgumentsRule (h : grammar.Local place) :
    Rule.Local place 1 (Expr.retokenEach (.moved place)) grammar.moreArgumentsRule
      grammar.moreArgumentsRule := by
  refine .peekKind_bind fun kind => ?_
  split
  · refine .advance_bind <| .mono (.advance_bind ?_) (Nat.zero_le 1)
    refine .bind (h.expr .lowest) (fun argument => ?_) (Nat.zero_le 1)
    refine .bind h.moreArguments (fun others => ?_) (Nat.le_refl 1)
    exact .pure (argument :: others)
  · exact .pure []

theorem argumentsRule (h : grammar.Local place) :
    Rule.Local place 1 (Expr.retokenEach (.moved place)) grammar.argumentsRule
      grammar.argumentsRule := by
  refine .peekKind_bind fun kind => ?_
  split
  · exact .advance_bind (.pure [])
  · refine .advance_bind <| .bind (h.expr .lowest) (fun argument => ?_) (Nat.zero_le 1)
    refine .bind h.moreArgumentsRule (fun others => ?_) (Nat.le_refl 1)
    exact .expect_bind (.pure (argument :: others))

theorem callRule (h : grammar.Local place) (callee : Expr) :
    Rule.Local place 1 (Expr.retoken (.moved place)) (grammar.callRule callee)
      (grammar.callRule (callee.retoken (.moved place))) := by
  refine .current_bind fun token => .bind h.argumentsRule (fun arguments => ?_) (Nat.le_refl 1)
  exact .pure (Expr.call token callee arguments)

theorem operatorRule (h : grammar.Local place) (power : Power) (left : Expr) :
    Rule.Local place 1 (Expr.retoken (.moved place)) (grammar.operatorRule power left)
      (grammar.operatorRule power (left.retoken (.moved place))) := by
  refine .current_bind fun token => ?_
  rw [Token.kind_moved]
  cases token.kind with
  | plus | dash | star | slash | less | greater | equal | notEqual => exact h.infixOpRule power left
  | openParen => exact h.callRule left
  | _ => exact .pure left

theorem operatorsRule (h : grammar.Local place) (power : Power) (left : Expr) :
    Rule.Local place 1 (Expr.retoken (.moved place)) (grammar.operatorsRule power left)
      (grammar.operatorsRule power (left.retoken (.moved place))) := by
  refine .peekKind_bind fun kind => ?_
  split
  · refine .advance_bind <| .mono (.bind (h.operatorRule kind.power left) (fun left => ?_)
      (Nat.le_refl 1)) (Nat.zero_le 1)
    exact h.operators power left
  · exact .pure left

theorem exprRule (h : grammar.Local place) (power : Power) :
    Rule.Local place 0 (Expr.retoken (.moved place)) (grammar.exprRule power)
      (grammar.exprRule power) :=
  .bind h.operandRule (fun left => h.operatorsRule power left) (Nat.zero_le 1)

/-! ### Statements -/

/-- The end of a statement behind its value, and the statement. -/
theorem endStatement_bind (value : Expr) (statement : Stmt) :
    Rule.Local place 1 (Stmt.retoken (.moved place))
      (do
        endStatement value.endsWithBlock
        pure statement)
      (do
        endStatement (value.retoken (.moved place)).endsWithBlock
        pure (statement.retoken (.moved place))) := by
  rw [Expr.endsWithBlock_retoken]
  exact .bind (.endStatement _) (fun _ => .pure statement) (Nat.le_refl 1)

theorem letRule (h : grammar.Local place) :
    Rule.Local place 0 (Stmt.retoken (.moved place)) grammar.letRule grammar.letRule := by
  refine .current_bind fun token => .mono (.expect_bind ?_) (Nat.zero_le 1)
  refine .bind local_identifierRule (fun name => ?_) (Nat.zero_le 1)
  refine .expect_bind <| .mono (.advance_bind ?_) (Nat.zero_le 1)
  refine .bind (h.exprRule .lowest) (fun value => ?_) (Nat.zero_le 1)
  exact endStatement_bind value (.letBinding token name value)

theorem returnRule (h : grammar.Local place) :
    Rule.Local place 0 (Stmt.retoken (.moved place)) grammar.returnRule grammar.returnRule := by
  refine .current_bind fun token => .mono (.peekKind_bind fun kind => ?_) (Nat.zero_le 1)
  have hnothing : Rule.Local place 1 (Stmt.retoken (.moved place))
      (do
        endStatement false
        pure (.returnValue token none))
      (do
        endStatement false
        pure (.returnValue (token.moved place) none)) :=
    .bind (.endStatement false) (fun _ => .pure (Stmt.returnValue token none)) (Nat.le_refl 1)
  cases kind with
  | semicolon | closeCurly | eof => exact hnothing
  | _ =>
    refine .advance_bind <| .bind (h.exprRule .lowest) (fun value => ?_) (Nat.zero_le 1)
    exact endStatement_bind value (.returnValue token (some value))

theorem expressionRule (h : grammar.Local place) :
    Rule.Local place 0 (Stmt.retoken (.moved place)) grammar.expressionRule
      grammar.expressionRule := by
  refine .current_bind fun token => ?_
  refine .bind (h.exprRule .lowest) (fun value => ?_) (Nat.zero_le 1)
  exact endStatement_bind value (.expression token value)

theorem blockStatementRule (h : grammar.Local place) :
    Rule.Local place 0 (Stmt.retoken (.moved place)) grammar.blockStatementRule
      grammar.blockStatementRule := by
  refine .bind h.blockRule (fun block => ?_) (Nat.zero_le 1)
  exact .bind (.endStatement true) (fun _ => .pure (Stmt.block block)) (Nat.le_refl 1)

theorem statementRule (h : grammar.Local place) :
    Rule.Local place 0 (Stmt.retoken (.moved place)) grammar.statementRule
      grammar.statementRule := by
  refine .current_bind fun token => ?_
  rw [Token.kind_moved]
  cases token.kind with
  | letKw => exact h.letRule
  | returnKw => exact h.returnRule
  | openCurly => exact h.blockStatementRule
  | _ => exact h.expressionRule

theorem statementsRule (h : grammar.Local place) :
    Rule.Local place 0 (Stmt.retokenEach (.moved place)) grammar.statementsRule
      grammar.statementsRule := by
  refine .current_bind fun token => ?_
  rw [Token.kind_moved]
  have hmore : Rule.Local place 0 (Stmt.retokenEach (.moved place))
      (do
        let statement ← grammar.statementRule
        advance
        let others ← grammar.statements
        pure (statement :: others))
      (do
        let statement ← grammar.statementRule
        advance
        let others ← grammar.statements
        pure (statement :: others)) := by
    refine .bind h.statementRule (fun statement => .advance_bind ?_) (Nat.zero_le 1)
    exact .bind h.statements (fun others => .pure (statement :: others)) (Nat.zero_le 1)
  cases token.kind with
  | closeCurly => exact .mono (.pure []) (Nat.zero_le 1)
  | eof => exact local_unclosedBlock
  | _ => exact hmore

/-- **A grammar made from a local one is local.** -/
theorem step (h : grammar.Local place) : grammar.step.Local place where
  expr := h.exprRule
  operators := h.operatorsRule
  moreArguments := h.moreArgumentsRule
  moreParameters := h.moreParametersRule
  statements := h.statementsRule

end Local

theorem local_atEnd : atEnd.Local place where
  expr _ := local_noExpression
  operators _ left := .pure left
  moreArguments := .pure []
  moreParameters := .pure []
  statements := local_unclosedBlock

theorem local_upTo (n : Nat) : (upTo n).Local place := by
  induction n with
  | zero => exact local_atEnd
  | succ n ih => exact ih.step

end Grammar

/-! ## Statements

A bound that covers what is left on both parsers may differ from pair to pair, so here the other
parser is given first. -/

namespace Parser

/-- For any two parsers there is a local grammar that reads statements as they are read there. -/
theorem exists_local_grammar (place : Position → Position) (parser other : Parser) :
    ∃ grammar : Grammar, grammar.Local place ∧
      grammar.statementRule parser = Grammar.unbounded.statementRule parser ∧
      grammar.statementRule other = Grammar.unbounded.statementRule other := by
  obtain ⟨n, hparser, hother⟩ : ∃ n, parser.remaining ≤ n ∧ other.remaining ≤ n :=
    ⟨_, Nat.le_max_left _ _, Nat.le_max_right _ _⟩
  have hagree := Grammar.agree_statementRule n
  exact ⟨.upTo n, Grammar.local_upTo n, (hagree parser hparser).1, (hagree other hother).1⟩

variable {place : Position → Position} {parser later : Parser}

/-- **A statement that is read is read locally.** -/
theorem statementRule_ok_of_like (other : Parser) {tree : Stmt}
    (h : Grammar.unbounded.statementRule parser = .ok tree later) :
    ∃ n depth, later = parser.reach n depth ∧ (parser.Like place (n + 1) other →
      Grammar.unbounded.statementRule other =
        .ok (tree.retoken (.moved place)) (other.reach n depth)) := by
  obtain ⟨grammar, hlocal, hparser, hother⟩ := exists_local_grammar place parser other
  obtain ⟨n, depth, hlater, hlike⟩ := hlocal.statementRule.ok (hparser.trans h)
  exact ⟨n, depth, hlater, fun hon => hother.symm.trans (hlike other hon)⟩

/-- **A statement that fails fails locally.** -/
theorem statementRule_error_of_like (other : Parser) {diagnostic : Diagnostic}
    (h : Grammar.unbounded.statementRule parser = .error diagnostic later) :
    ∃ n depth, later = parser.reach n depth ∧
      (parser.Like place (n + diagnostic.cause.lookahead) other →
        Grammar.unbounded.statementRule other =
          .error (diagnostic.moved place) (other.reach n depth)) := by
  obtain ⟨grammar, hlocal, hparser, hother⟩ := exists_local_grammar place parser other
  obtain ⟨n, depth, hlater, -, hlike⟩ := hlocal.statementRule.error (hparser.trans h)
  exact ⟨n, depth, hlater, fun hon => hother.symm.trans (hlike other hon)⟩

end Parser

end MonkeySyntax
