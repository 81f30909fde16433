import MonkeySyntax.Proofs.Parser.Agreement

/-!
# MonkeySyntax — one grammar for inputs of any length

`Grammar.upTo n` is right for inputs of at most `n` tokens. `Grammar.unbounded` reads each phrase
over as many steps as tokens are left, so it is right for all inputs, and no bound shows in what is
said about it.

* **`Grammar.agree_unbounded`** — it agrees with `upTo n` where at most `n` tokens are left.
* **`Grammar.step_unbounded`** — it is made from itself: each phrase is read by its rule.
* **`Parser.reading_eq`** — to read one phrase is to read it over this grammar.
* **`Parser.parseProgram_eq`** — so is to read a program.
-/

namespace MonkeySyntax

namespace Grammar

/-- The grammar for inputs of any length. -/
def unbounded : Grammar where
  expr power := Parser.reading (Grammar.exprRule · power)
  operators power left := Parser.reading (Grammar.operatorsRule · power left)
  moreArguments := Parser.reading Grammar.moreArgumentsRule
  moreParameters := Parser.reading Grammar.moreParametersRule
  statements := Parser.reading Grammar.statementsRule

/-! ## More steps change nothing

At the end of the input a step changes nothing, and from there one step more never does as long as
the tokens that are left are within the bound. -/

/-- At the end of the input the first grammar is already right. -/
theorem agree_atEnd_step : Agree 0 atEnd atEnd.step := by
  -- nothing is ahead, so the current token and the next one are the end of the input
  have hkind : ∀ parser : Parser, parser.remaining ≤ 0 →
      parser.current.kind = .eof ∧ parser.peek.kind = .eof := by
    intro parser hparser
    have hnil : parser.ahead = [] := List.length_eq_zero_iff.mp (Nat.le_zero.mp hparser)
    simp [Parser.current, Parser.peek, Parser.endToken, hnil]
  constructor
  · intro power parser hparser
    refine ⟨?_, Parser.Onward.refl parser⟩
    simp only [atEnd, step, exprRule, operandRule, noExpression, Rule.bind_apply, Rule.current_apply,
      (hkind parser hparser).1]
    rfl
  · intro power left parser hparser
    refine ⟨?_, Parser.Onward.refl parser⟩
    have hpower : ¬ power < TokenKind.power .eof := Nat.not_lt_zero _
    simp only [atEnd, step, operatorsRule, Rule.bind_apply, Rule.peekKind_apply,
      (hkind parser hparser).2, if_neg hpower]
  · intro parser hparser
    refine ⟨?_, Parser.Onward.refl parser⟩
    simp [atEnd, step, moreArgumentsRule, Rule.bind_apply, Rule.peekKind_apply, (hkind parser hparser).2]
  · intro parser hparser
    refine ⟨?_, Parser.Onward.refl parser⟩
    simp [atEnd, step, moreParametersRule, Rule.bind_apply, Rule.peekKind_apply,
      (hkind parser hparser).2]
  · intro parser hparser
    refine ⟨?_, Parser.Onward.refl parser⟩
    simp only [atEnd, step, statementsRule, statementsOf, Rule.bind_apply, Rule.current_apply,
      (hkind parser hparser).1]

theorem agree_upTo_succ (n : Nat) : Agree n (upTo n) (upTo (n + 1)) := by
  induction n with
  | zero => exact agree_atEnd_step
  | succ n ih => exact ih.step

/-- With bounds that both cover what is left, the bound makes no difference. -/
theorem agree_upTo {n m k : Nat} (hm : n ≤ m) (hk : n ≤ k) : Agree n (upTo m) (upTo k) := by
  -- both grammars come from `upTo n` by steps
  have hfrom : ∀ {m : Nat}, n ≤ m → Agree n (upTo n) (upTo m) := by
    intro m hm
    induction hm with
    | refl => exact (agree_upTo_succ n).trans (agree_upTo_succ n).symm
    | step hle ih => exact ih.trans ((agree_upTo_succ _).mono hle)
  exact (hfrom hm).symm.trans (hfrom hk)

/-! ## The grammar without a bound -/

/-- A phrase is read over `upTo n` as it is read over the steps that are left, if these are no more
than `n`. The phrase is given by `field` and the rule that a step makes it from. -/
theorem agree_reading {α : Type} {n : Nat} {field rule : Grammar → Rule α}
    (hstep : ∀ grammar : Grammar, field grammar.step = rule grammar)
    (hfield : ∀ {n : Nat} {grammar other : Grammar}, Agree n grammar other →
      Rule.Agree n (field grammar) (field other)) :
    Rule.Agree n (field (upTo n)) (Parser.reading rule) := by
  intro parser hparser
  have hagree := hfield (agree_upTo hparser (Nat.le_succ parser.remaining))
  obtain ⟨heq, hon⟩ := hagree parser (Nat.le_refl _)
  rw [upTo, hstep] at heq
  exact ⟨heq, hon⟩

/-- **The bound can be left out** where it covers the tokens that are left. -/
theorem agree_unbounded (n : Nat) : Agree n (upTo n) unbounded where
  expr power := agree_reading (fun _ => rfl) fun h => h.expr power
  operators power left := agree_reading (fun _ => rfl) fun h => h.operators power left
  moreArguments := agree_reading (fun _ => rfl) fun h => h.moreArguments
  moreParameters := agree_reading (fun _ => rfl) fun h => h.moreParameters
  statements := agree_reading (fun _ => rfl) fun h => h.statements

/-- Two grammars that agree on inputs of every length are one. -/
theorem eq_of_agree {grammar other : Grammar} (h : ∀ n, Agree n grammar other) :
    grammar = other := by
  obtain ⟨expr, operators, moreArguments, moreParameters, statements⟩ := grammar
  -- on each parser, agreement for the number of its tokens is enough
  congr 1
  · funext power parser
    exact ((h _).expr power parser (Nat.le_refl _)).1
  · funext power left parser
    exact ((h _).operators power left parser (Nat.le_refl _)).1
  · funext parser
    exact ((h _).moreArguments parser (Nat.le_refl _)).1
  · funext parser
    exact ((h _).moreParameters parser (Nat.le_refl _)).1
  · funext parser
    exact ((h _).statements parser (Nat.le_refl _)).1

/-- **The grammar without a bound is made from itself.** -/
theorem step_unbounded : unbounded.step = unbounded := by
  apply eq_of_agree
  intro n
  -- a step of what agrees with `upTo n` agrees with `upTo (n + 1)`, and so does `unbounded`
  have hstep : Agree (n + 1) (upTo (n + 1)) unbounded.step := (agree_unbounded n).step
  exact (hstep.symm.trans (agree_unbounded (n + 1))).mono n.le_succ

theorem expr_unbounded (power : Power) : unbounded.expr power = unbounded.exprRule power :=
  congrArg (Grammar.expr · power) step_unbounded.symm

theorem operators_unbounded (power : Power) (left : Expr) :
    unbounded.operators power left = unbounded.operatorsRule power left :=
  congrArg (Grammar.operators · power left) step_unbounded.symm

theorem moreArguments_unbounded : unbounded.moreArguments = unbounded.moreArgumentsRule :=
  congrArg Grammar.moreArguments step_unbounded.symm

theorem moreParameters_unbounded : unbounded.moreParameters = unbounded.moreParametersRule :=
  congrArg Grammar.moreParameters step_unbounded.symm

theorem statements_unbounded : unbounded.statements = unbounded.statementsRule :=
  congrArg Grammar.statements step_unbounded.symm

theorem agree_statementRule (n : Nat) :
    Rule.Agree n (upTo n).statementRule unbounded.statementRule :=
  (RuleName.statement.agree (agree_unbounded n)).mono n.le_succ

end Grammar

/-! ## Reading phrases and programs -/

namespace Parser

/-- **To read a phrase is to read it over the grammar without a bound.** -/
theorem reading_eq {α : Type} (name : Grammar.RuleName α) :
    (reading name.rule : Rule α) = name.rule .unbounded := by
  funext parser
  exact (name.agree (Grammar.agree_unbounded parser.remaining) parser (Nat.le_succ _)).1

theorem parseStatement_eq : parseStatement = Grammar.unbounded.statementRule :=
  reading_eq .statement

/-- To read a phrase leads onward, whether it succeeds or fails. -/
theorem onward_reading {α : Type} (name : Grammar.RuleName α) (parser : Parser) :
    parser.Onward (Rule.leaves (reading name.rule) parser) := by
  have hagree := name.agree (Grammar.agree_unbounded parser.remaining)
  rw [reading_eq]
  exact (hagree.symm.trans hagree parser (Nat.le_succ _)).2

theorem onward_statementRule (parser : Parser) :
    parser.Onward (Rule.leaves Grammar.unbounded.statementRule parser) :=
  parseStatement_eq ▸ parser.onward_reading .statement

/-- What is skipped stands in front of what is left. -/
theorem skipStatement_suffix (depth : Nat) (ts : List Token) : skipStatement depth ts <:+ ts := by
  fun_induction skipStatement depth ts <;>
    first
    | exact List.suffix_refl _
    | exact List.suffix_cons _ _
    | next ih => exact ih.trans (List.suffix_cons _ _)

/-- What is ahead after a statement, read or skipped, is a tail of what was ahead before it. -/
theorem ahead_readStatement (parser : Parser) :
    (parser.readStatement .unbounded).2.ahead <:+ parser.ahead := by
  have hon := parser.onward_statementRule
  unfold Rule.leaves at hon
  unfold readStatement
  cases hrule : Grammar.unbounded.statementRule parser with
  | ok statement later =>
    rw [hrule] at hon
    exact (List.tail_suffix _).trans hon.ahead
  | error diagnostic later =>
    rw [hrule] at hon
    -- what failed led onward too, and what is broken is skipped from there
    exact (List.tail_suffix _).trans ((skipStatement_suffix _ _).trans hon.ahead)

theorem readStatements_succ (grammar : Grammar) (n : Nat) (parser : Parser) :
    parser.readStatements grammar (n + 1) =
      if parser.atEnd then
        ([], parser)
      else
        ((parser.readStatement grammar).1.toList
            ++ ((parser.readStatement grammar).2.readStatements grammar n).1,
          ((parser.readStatement grammar).2.readStatements grammar n).2) := rfl

theorem readStatements_of_atEnd {parser : Parser} (h : parser.atEnd = true) (grammar : Grammar)
    (n : Nat) : parser.readStatements grammar n = ([], parser) := by
  cases n with
  | zero => rfl
  | succ n => rw [readStatements_succ, if_pos h]

/-- The bound on the grammar makes no difference to the statements that are read. -/
theorem readStatements_upTo {m : Nat} (n : Nat) {parser : Parser} (h : parser.remaining ≤ m) :
    parser.readStatements (.upTo m) n = parser.readStatements .unbounded n := by
  -- the bound `m` stays, since a statement never leaves more tokens than it found
  induction n generalizing parser with
  | zero => rfl
  | succ n ih =>
    have hread : parser.readStatement (.upTo m) = parser.readStatement .unbounded := by
      unfold readStatement
      rw [(Grammar.agree_statementRule m parser h).1]
    have hlater : (parser.readStatement .unbounded).2.remaining ≤ m :=
      Nat.le_trans parser.ahead_readStatement.length_le h
    rw [readStatements_succ, readStatements_succ, hread, ih hlater]

/-- **To read a program is to read its statements over the grammar without a bound.** -/
theorem parseProgram_eq (parser : Parser) :
    parser.parseProgram =
      (⟨(parser.readStatements .unbounded parser.remaining).1⟩,
        (parser.readStatements .unbounded parser.remaining).2) := by
  rw [parseProgram, readStatements_upTo parser.remaining (Nat.le_refl _)]

end Parser

end MonkeySyntax
