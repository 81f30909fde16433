import MonkeySyntax.Proofs.Grammar.Completion

/-!
# MonkeySyntax — where a rule fails

If a rule fails, the tokens in front of the one that its diagnostic is on can be gone on with: some
other tokens behind them would have made the phrase. So no rule fails later than it could have, and
the blocks that are open where it fails are those that the tokens in front leave open.

* **`Grammar.Breaking n`** — the nested phrases fail like that where at most `n` tokens are left.
* **`Grammar.breaking_upTo`** — `upTo n` does. There is one lemma for each rule that can fail, from
  the nested phrases to the rule on one token more.
* **`Parser.fails_statementRule`** — so every statement that fails could have been gone on with, and
  ended by a semicolon.
-/

namespace MonkeySyntax

/-! ## Grammars that fail in time -/

/-- The tokens behind a comma are as `P` asks. -/
def AfterComma (P : List Token → Prop) (ts : List Token) : Prop :=
  ∃ comma us, comma.kind = .comma ∧ ts = comma :: us ∧ P us

/-- Where at most `n` tokens are left, the nested phrases fail where they cannot be gone on with. As
in `Grammar.Sound`, the operand on the left of the operators is at a level that the next token is
not tighter than. -/
structure Grammar.Breaking (n : Nat) (grammar : Grammar) : Prop where
  expr {power : Power} {parser later : Parser} {diagnostic : Diagnostic} :
    parser.remaining ≤ n → grammar.expr power parser = .error diagnostic later →
      parser.Fails (Derivable (.expr (.above power))) diagnostic later
  operators {power : Power} {left : Expr} {parser later : Parser} {diagnostic : Diagnostic}
      {level : Level} {ts : List Token} :
    parser.remaining ≤ n → grammar.operators power left parser = .error diagnostic later →
      Derives (.expr level left) ts → (Level.above power).rank ≤ level.rank →
      parser.peek.kind.power.rank ≤ level.rank →
      parser.FailsNext (fun us => Derivable (.expr (.above power)) (ts ++ us)) diagnostic later
  moreArguments {parser later : Parser} {diagnostic : Diagnostic} :
    parser.remaining ≤ n → grammar.moreArguments parser = .error diagnostic later →
      parser.FailsNext (AfterComma (Derivable .arguments)) diagnostic later
  moreParameters {parser later : Parser} {diagnostic : Diagnostic} :
    parser.remaining ≤ n → grammar.moreParameters parser = .error diagnostic later →
      parser.FailsNext (AfterComma fun us => ∃ names, Names us names) diagnostic later
  statements {parser later : Parser} {diagnostic : Diagnostic} :
    parser.remaining ≤ n → grammar.statements parser = .error diagnostic later →
      parser.Fails (Derivable (.statements .closeCurly)) diagnostic later

namespace Rule

/-- A sequence fails in its first part, or behind it. -/
theorem eq_error_of_bind {α β : Type} {rule : Rule α} {next : α → Rule β}
    {parser later : Parser} {diagnostic : Diagnostic}
    (h : (rule >>= next) parser = .error diagnostic later) :
    rule parser = .error diagnostic later ∨
      ∃ value mid, rule parser = .ok value mid ∧ next value mid = .error diagnostic later := by
  rw [bind_apply] at h
  cases hrule : rule parser with
  | error first mid =>
    rw [hrule] at h
    cases h
    exact Or.inl rfl
  | ok value mid =>
    rw [hrule] at h
    exact Or.inr ⟨value, mid, rfl, h⟩

end Rule

/-! ## The rules

`h` and `hsound` are about the same grammar, since what was read before a failure is a phrase. -/

namespace Grammar.Breaking

open Rule MonkeySyntax.Parser

variable {n : Nat} {grammar : Grammar} {parser later : Parser} {diagnostic : Diagnostic}

/-! ## Blocks -/

theorem blockRule (h : grammar.Breaking n) (hn : parser.remaining ≤ n + 1)
    (hopening : parser.current.kind = .openCurly)
    (hrule : grammar.blockRule parser = .error diagnostic later) :
    parser.Fails (Derivable .block) diagnostic later := by
  simp only [Grammar.blockRule, current_bind, enterBlock_bind, advance_bind] at hrule
  rcases eq_error_of_bind hrule with hstatements | ⟨trees, mid, -, hrule⟩
  · have hremaining : parser.enterBlock.advance.remaining ≤ n := remaining_advance_le_of_succ hn
    obtain ⟨ts, ⟨hfront, hstops⟩, hcompletable⟩ := h.statements hremaining hstatements
    refine ⟨parser.current :: ts, ⟨?_, ?_⟩, ?_⟩
    · rw [ahead_eq_cons (by rw [hopening]; decide)]
      exact List.cons_prefix_cons.mpr ⟨rfl, hfront⟩
    · rw [braceDepth_cons, hopening]
      exact hstops.advance.of_enterBlock
    · refine hcompletable.extend [parser.current] [Spare.closeCurly] (by decide) ?_
      rintro us ⟨trees, hderives⟩
      exact ⟨.mk parser.current trees, .block hopening hderives rfl⟩
  · rw [leaveBlock_bind] at hrule
    cases hrule

theorem nextBlock (h : grammar.Breaking n) (hn : parser.remaining ≤ n + 1)
    (hopening : parser.peek.kind = .openCurly)
    (hrule : grammar.blockRule parser.advance = .error diagnostic later) :
    parser.FailsNext (Derivable .block) diagnostic later :=
  (h.blockRule (remaining_advance_le hn) hopening hrule).next

/-! ### Operands -/

theorem nextExpr {power : Power} (h : grammar.Breaking n) (hn : parser.remaining ≤ n + 1)
    (hrule : grammar.expr power parser.advance = .error diagnostic later) :
    parser.FailsNext (Derivable (.expr (.above power))) diagnostic later :=
  (h.expr (remaining_advance_le_of_succ hn) hrule).next

theorem integerRule (hkind : parser.current.kind = .integer)
    (hrule : Grammar.integerRule parser = .error diagnostic later) :
    parser.Fails (Derivable (.expr .primary)) diagnostic later := by
  rw [Grammar.integerRule, current_bind] at hrule
  cases hvalue : integerValue? parser.current.literal with
  | some value =>
    rw [hvalue] at hrule
    cases hrule
  | none =>
    rw [hvalue] at hrule
    cases hrule
    refine fails_here [Spare.name] ⟨rfl, hkind, rfl, hvalue⟩ (Or.inl rfl) (by decide) ?_
    exact ⟨_, derives_name .primary⟩

theorem noExpression {level : Level} (hkind : parser.current.kind.beginsExpr = false)
    (hrule : (noExpression : Rule Expr) parser = .error diagnostic later) :
    parser.Fails (Derivable (.expr level)) diagnostic later := by
  cases hrule
  refine fails_here [Spare.name] ⟨rfl, rfl, hkind⟩ (Or.inl rfl) (by decide) ?_
  exact ⟨_, derives_name level⟩

theorem prefixOpRule (h : grammar.Breaking n) (hn : parser.remaining ≤ n + 1)
    (hkind : parser.current.kind = .bang ∨ parser.current.kind = .dash)
    (hrule : grammar.prefixOpRule parser = .error diagnostic later) :
    parser.Fails (Derivable (.expr .unary)) diagnostic later := by
  simp only [Grammar.prefixOpRule, current_bind, advance_bind] at hrule
  rcases eq_error_of_bind hrule with hright | ⟨right, mid, -, hrule⟩
  · apply FailsNext.here
    · rcases hkind with hkind | hkind <;> rw [hkind] <;> rfl
    · rcases hkind with hkind | hkind <;> rw [hkind] <;> decide
    · refine (h.nextExpr hn hright).mono ?_
      rintro ts ⟨tree, hderives⟩
      exact ⟨_, .prefixOp hkind hderives⟩
  · cases hrule

theorem groupRule (h : grammar.Breaking n) (hsound : grammar.Sound n)
    (hn : parser.remaining ≤ n + 1) (hopening : parser.current.kind = .openParen)
    (hrule : grammar.groupRule parser = .error diagnostic later) :
    parser.Fails (Derivable (.expr .primary)) diagnostic later := by
  rw [Grammar.groupRule, advance_bind] at hrule
  refine FailsNext.here (by rw [hopening]; rfl) (by rw [hopening]; decide) ?_
  rcases eq_error_of_bind hrule with hinner | ⟨inner, mid, hinner, hrule⟩
  · refine (h.nextExpr hn hinner).behind [Spare.closeParen] (by decide) ?_
    rintro ts ⟨tree, hderives⟩
    exact ⟨tree, .group hopening hderives rfl⟩
  · rcases eq_error_of_bind hrule with hexpect | ⟨_, last, -, hrule⟩
    · obtain ⟨hread, -⟩ := hsound.nextExpr hn hinner
      refine hread.fails_expect isClosed_expr hexpect [Spare.closeParen] (by decide) ?_
      intro ts hderives
      exact ⟨inner, .group hopening hderives rfl⟩
    · cases hrule

/-- The block after an `else`. -/
theorem alternativeRule (h : grammar.Breaking n) (hn : parser.remaining ≤ n + 1)
    (hrule : grammar.alternativeRule parser = .error diagnostic later) :
    parser.FailsNext (fun ts => ∃ otherwise us, ts = otherwise :: us ∧ otherwise.kind = .elseKw ∧
      Derivable .block us) diagnostic later := by
  rw [Grammar.alternativeRule, peekKind_bind] at hrule
  split at hrule
  · next hkind =>
    rw [advance_bind] at hrule
    refine FailsNext.cons (by rw [hkind]; rfl) (by rw [hkind]; decide) ?_
    rcases eq_error_of_bind hrule with hexpect | ⟨_, mid, hexpect, hrule⟩
    · have hcurrent : parser.advance.current.kind = .elseKw := hkind
      refine failsNext_expect hexpect (by rw [hcurrent]; decide)
        [Spare.openCurly, Spare.closeCurly] (by decide) ?_
      exact ⟨parser.peek, _, rfl, hkind, _, derives_emptyBlock⟩
    · obtain ⟨hopening, rfl⟩ := eq_of_expect hexpect
      rcases eq_error_of_bind hrule with hblock | ⟨block, last, -, hrule⟩
      · refine (h.nextBlock (remaining_advance_le hn) hopening hblock).mono ?_
        intro ts hblock
        exact ⟨parser.peek, ts, rfl, hkind, hblock⟩
      · cases hrule
  · cases hrule

theorem ifElseRule (h : grammar.Breaking n) (hsound : grammar.Sound n)
    (hn : parser.remaining ≤ n + 1) (hword : parser.current.kind = .ifKw)
    (hrule : grammar.ifElseRule parser = .error diagnostic later) :
    parser.Fails (Derivable (.expr .primary)) diagnostic later := by
  rw [Grammar.ifElseRule, current_bind] at hrule
  refine FailsNext.here (by rw [hword]; rfl) (by rw [hword]; decide) ?_
  rcases eq_error_of_bind hrule with hexpect | ⟨_, first, hexpect, hrule⟩
  · refine failsNext_expect hexpect (by rw [hword]; decide) [Spare.openParen, Spare.name,
      Spare.closeParen, Spare.openCurly, Spare.closeCurly] (by decide) ?_
    have hderives := Derives.ifOnly hword Spare.kind_openParen (derives_name .equality)
      Spare.kind_closeParen derives_emptyBlock
    exact ⟨_, hderives⟩
  obtain ⟨hopening, rfl⟩ := eq_of_expect hexpect
  rw [advance_bind] at hrule
  have hfirst : parser.advance.remaining ≤ n + 1 := remaining_advance_le hn
  refine FailsNext.cons (by rw [hopening]; rfl) (by rw [hopening]; decide) ?_
  rcases eq_error_of_bind hrule with hcondition | ⟨condition, second, hcondition, hrule⟩
  · refine (h.nextExpr hfirst hcondition).behind [Spare.closeParen, Spare.openCurly,
      Spare.closeCurly] (by decide) ?_
    rintro ts ⟨condition, hderives⟩
    exact ⟨_, .ifOnly hword hopening hderives rfl derives_emptyBlock⟩
  -- the condition is read, and what is left is the block
  obtain ⟨hread, -⟩ := hsound.nextExpr hfirst hcondition
  rcases eq_error_of_bind hrule with hexpect | ⟨_, third, hexpect, hrule⟩
  · refine hread.fails_expect isClosed_expr hexpect [Spare.closeParen, Spare.openCurly,
      Spare.closeCurly] (by decide) ?_
    intro ts hderives
    exact ⟨_, .ifOnly hword hopening hderives rfl derives_emptyBlock⟩
  obtain ⟨hclosing, rfl⟩ := eq_of_expect hexpect
  have hthird : second.advance.remaining ≤ n + 1 := by
    obtain ⟨ts, hts, -⟩ := hread
    exact remaining_advance_le (Nat.le_trans hts.remaining_le hfirst)
  refine hread.fails isClosed_expr fun ts hderives => ?_
  refine FailsNext.cons (by rw [hclosing]; rfl) (by rw [hclosing]; decide) ?_
  rcases eq_error_of_bind hrule with hexpect | ⟨_, fourth, hexpect, hrule⟩
  · have hcurrent : second.advance.current.kind = .closeParen := hclosing
    refine failsNext_expect hexpect (by rw [hcurrent]; decide) [Spare.openCurly,
      Spare.closeCurly] (by decide) ?_
    exact ⟨_, .ifOnly hword hopening hderives hclosing derives_emptyBlock⟩
  obtain ⟨hcurly, rfl⟩ := eq_of_expect hexpect
  rcases eq_error_of_bind hrule with hconsequence | ⟨consequence, fifth, hconsequence, hrule⟩
  · refine (h.nextBlock hthird hcurly hconsequence).mono ?_
    rintro us ⟨block, hblock⟩
    exact ⟨_, .ifOnly hword hopening hderives hclosing hblock⟩
  have hblock := hsound.nextBlock hthird hcurly hconsequence
  have hfifth : fifth.remaining ≤ n + 1 := by
    obtain ⟨us, hus, -⟩ := hblock
    exact Nat.le_trans hus.remaining_le hthird
  refine hblock.fails isClosed_block fun us hconsequence => ?_
  rcases eq_error_of_bind hrule with halternative | ⟨alternative, last, -, hrule⟩
  · refine (h.alternativeRule hfifth halternative).mono ?_
    rintro vs ⟨otherwise, ws, rfl, hotherwise, block, hblock⟩
    exact ⟨_, .ifElse hword hopening hderives hclosing hconsequence hotherwise hblock⟩
  · cases hrule

/-! ### Functions -/

theorem moreParametersRule (h : grammar.Breaking n) (hn : parser.remaining ≤ n + 1)
    (hrule : grammar.moreParametersRule parser = .error diagnostic later) :
    parser.FailsNext (AfterComma fun us => ∃ names, Names us names) diagnostic later := by
  rw [Grammar.moreParametersRule, peekKind_bind] at hrule
  split at hrule
  · next hcomma =>
    rw [advance_bind] at hrule
    refine FailsNext.cons (by rw [hcomma]; rfl) (by rw [hcomma]; decide) ?_
    rcases eq_error_of_bind hrule with hexpect | ⟨_, mid, hexpect, hrule⟩
    · have hcurrent : parser.advance.current.kind = .comma := hcomma
      refine failsNext_expect hexpect (by rw [hcurrent]; decide) [Spare.name]
        (by decide) ?_
      exact ⟨parser.peek, _, hcomma, rfl, _, .last rfl⟩
    · obtain ⟨hname, rfl⟩ := eq_of_expect hexpect
      rw [identifierRule_bind] at hrule
      refine FailsNext.cons (by rw [hname]; rfl) (by rw [hname]; decide) ?_
      rcases eq_error_of_bind hrule with hmore | ⟨others, last, -, hrule⟩
      · have hremaining : parser.advance.advance.remaining ≤ n :=
          remaining_advance_le (remaining_advance_le_of_succ hn)
        refine (h.moreParameters hremaining hmore).mono ?_
        rintro ts ⟨comma, us, hkind, rfl, names, hnames⟩
        exact ⟨parser.peek, _, hcomma, rfl, _, .cons hname hkind hnames⟩
      · cases hrule
  · cases hrule

/-- The parameters of a function and the parenthesis that closes them. -/
theorem parametersRule (h : grammar.Breaking n) (hsound : grammar.Sound n)
    (hn : parser.remaining ≤ n + 1) (hopening : parser.current.kind = .openParen)
    (hrule : grammar.parametersRule parser = .error diagnostic later) :
    parser.FailsNext (fun ts => ∃ us closing names, ts = us ++ [closing] ∧
      closing.kind = .closeParen ∧ Parameters us names) diagnostic later := by
  rw [Grammar.parametersRule, peekKind_bind] at hrule
  split at hrule
  · cases hrule
  rcases eq_error_of_bind hrule with hexpect | ⟨_, mid, hexpect, hrule⟩
  · refine failsNext_expect hexpect (by rw [hopening]; decide) [Spare.closeParen]
      (by decide) ?_
    exact ⟨[], _, _, rfl, rfl, Or.inl ⟨rfl, rfl⟩⟩
  obtain ⟨hname, rfl⟩ := eq_of_expect hexpect
  rw [identifierRule_bind] at hrule
  have hremaining : parser.advance.remaining ≤ n + 1 := remaining_advance_le hn
  rcases eq_error_of_bind hrule with hmore | ⟨others, last, hmore, hrule⟩
  · refine FailsNext.cons (by rw [hname]; rfl) (by rw [hname]; decide) ?_
    refine (h.moreParametersRule hremaining hmore).behind [Spare.closeParen]
      (by decide) ?_
    rintro ts ⟨comma, us, hkind, rfl, names, hnames⟩
    exact ⟨_ :: _ :: us, _, _, rfl, rfl, Or.inr (.cons hname hkind hnames)⟩
  · -- the parameters are read, so the parenthesis is missing
    obtain ⟨us, hus, hnames⟩ :=
      Sound.names_cons hname (hsound.moreParametersRule hremaining hmore)
    have hpasses : parser.Passes (parser.peek :: us) last := .cons (by simp [hname]) hus
    rcases eq_error_of_bind hrule with hexpect | ⟨_, final, -, hrule⟩
    · refine FailsNext.after hpasses hnames.enclosed ?_
      have hlast := hpasses.kind_current (List.cons_ne_nil _ _) hnames.enclosed
      refine failsNext_expect hexpect hlast [Spare.closeParen] (by decide) ?_
      exact ⟨_, _, _, rfl, rfl, Or.inr hnames⟩
    · cases hrule

theorem functionRule (h : grammar.Breaking n) (hsound : grammar.Sound n)
    (hn : parser.remaining ≤ n + 1) (hword : parser.current.kind = .fnKw)
    (hrule : grammar.functionRule parser = .error diagnostic later) :
    parser.Fails (Derivable (.expr .primary)) diagnostic later := by
  rw [Grammar.functionRule, current_bind] at hrule
  refine FailsNext.here (by rw [hword]; rfl) (by rw [hword]; decide) ?_
  rcases eq_error_of_bind hrule with hexpect | ⟨_, first, hexpect, hrule⟩
  · refine failsNext_expect hexpect (by rw [hword]; decide) [Spare.openParen,
      Spare.closeParen, Spare.openCurly, Spare.closeCurly] (by decide) ?_
    have hnothing : Parameters [] [] := Or.inl ⟨rfl, rfl⟩
    exact ⟨_, .function hword Spare.kind_openParen hnothing Spare.kind_closeParen
      derives_emptyBlock⟩
  obtain ⟨hopening, rfl⟩ := eq_of_expect hexpect
  have hfirst : parser.advance.remaining ≤ n + 1 := remaining_advance_le hn
  refine FailsNext.cons (by rw [hopening]; rfl) (by rw [hopening]; decide) ?_
  rcases eq_error_of_bind hrule with hparameters | ⟨parameters, second, hparameters, hrule⟩
  · refine (h.parametersRule hsound hfirst hopening hparameters).behind [Spare.openCurly,
      Spare.closeCurly] (by decide) ?_
    rintro ts ⟨us, closing, names, rfl, hclosing, hnames⟩
    refine ⟨.function parser.current names (.mk Spare.openCurly []), ?_⟩
    have hderives := Derives.function hword hopening hnames hclosing derives_emptyBlock
    simpa using hderives
  -- the parameters are read, and what is left is the body
  obtain ⟨ts, closing, hts, hnames, hclosing⟩ := hsound.parametersRule hfirst hparameters
  have hsecond : second.remaining ≤ n + 1 := Nat.le_trans hts.remaining_le hfirst
  have henclosed : Enclosed (ts ++ [closing]) :=
    hnames.enclosed.append (.singleton (by rw [hclosing]; rfl))
  have hbody : ∀ us, Derivable .block us →
      Derivable (.expr .primary) (parser.current :: parser.peek :: (ts ++ [closing] ++ us)) := by
    rintro us ⟨body, hbody⟩
    refine ⟨.function parser.current parameters body, ?_⟩
    have hderives := Derives.function hword hopening hnames hclosing hbody
    simpa using hderives
  refine FailsNext.after hts henclosed ?_
  rcases eq_error_of_bind hrule with hexpect | ⟨_, third, hexpect, hrule⟩
  · have hlast := hts.kind_current (by simp) henclosed
    exact failsNext_expect hexpect hlast [Spare.openCurly, Spare.closeCurly] (by decide)
      (hbody _ ⟨_, derives_emptyBlock⟩)
  obtain ⟨hcurly, rfl⟩ := eq_of_expect hexpect
  rcases eq_error_of_bind hrule with hblock | ⟨body, last, -, hrule⟩
  · exact (h.nextBlock hsecond hcurly hblock).mono hbody
  · cases hrule

/-- **The operand.** -/
theorem operandRule (h : grammar.Breaking n) (hsound : grammar.Sound n)
    (hn : parser.remaining ≤ n + 1)
    (hrule : grammar.operandRule parser = .error diagnostic later) :
    parser.Fails (Derivable (.expr .unary)) diagnostic later := by
  -- a primary operand is one of the looser level too
  have hprimary : parser.Fails (Derivable (.expr .primary)) diagnostic later →
      parser.Fails (Derivable (.expr .unary)) diagnostic later := by
    intro hfails
    refine hfails.mono ?_
    rintro ts ⟨tree, hderives⟩
    exact ⟨tree, hderives.loosen (by decide)⟩
  rw [Grammar.operandRule, current_bind] at hrule
  cases hkind : parser.current.kind with
  | identifier | trueKw | falseKw =>
    simp only [hkind] at hrule
    cases hrule
  | integer =>
    simp only [hkind] at hrule
    exact hprimary (integerRule hkind hrule)
  | bang =>
    simp only [hkind] at hrule
    exact h.prefixOpRule hn (Or.inl hkind) hrule
  | dash =>
    simp only [hkind] at hrule
    exact h.prefixOpRule hn (Or.inr hkind) hrule
  | openParen =>
    simp only [hkind] at hrule
    exact hprimary (h.groupRule hsound hn hkind hrule)
  | ifKw =>
    simp only [hkind] at hrule
    exact hprimary (h.ifElseRule hsound hn hkind hrule)
  | fnKw =>
    simp only [hkind] at hrule
    exact hprimary (h.functionRule hsound hn hkind hrule)
  | _ =>
    simp only [hkind] at hrule
    exact noExpression (by rw [hkind]; rfl) hrule

/-! ### Operators after an operand -/

theorem moreArgumentsRule (h : grammar.Breaking n) (hsound : grammar.Sound n)
    (hn : parser.remaining ≤ n + 1)
    (hrule : grammar.moreArgumentsRule parser = .error diagnostic later) :
    parser.FailsNext (AfterComma (Derivable .arguments)) diagnostic later := by
  rw [Grammar.moreArgumentsRule, peekKind_bind] at hrule
  split at hrule
  · next hcomma =>
    simp only [advance_bind] at hrule
    have hremaining : parser.advance.remaining ≤ n := remaining_advance_le_of_succ hn
    refine FailsNext.cons (by rw [hcomma]; rfl) (by rw [hcomma]; decide) ?_
    rcases eq_error_of_bind hrule with hargument | ⟨argument, mid, hargument, hrule⟩
    · refine (h.nextExpr (Nat.le_succ_of_le hremaining) hargument).mono ?_
      rintro ts ⟨tree, hderives⟩
      exact ⟨parser.peek, ts, hcomma, rfl, _, .lastArgument hderives⟩
    · obtain ⟨hread, -⟩ := hsound.nextExpr (Nat.le_succ_of_le hremaining) hargument
      have hmid : mid.remaining ≤ n := by
        obtain ⟨ts, hts, -⟩ := hread
        exact Nat.le_trans hts.remaining_le hremaining
      refine hread.fails isClosed_expr fun ts hderives => ?_
      rcases eq_error_of_bind hrule with hmore | ⟨others, last, -, hrule⟩
      · refine (h.moreArguments hmid hmore).mono ?_
        rintro us ⟨comma, vs, hkind, rfl, trees, htrees⟩
        exact ⟨parser.peek, _, hcomma, rfl, _, .consArgument hderives hkind htrees⟩
      · cases hrule
  · cases hrule

/-- The arguments of a call and the parenthesis that closes them. -/
theorem argumentsRule (h : grammar.Breaking n) (hsound : grammar.Sound n)
    (hn : parser.remaining ≤ n + 1)
    (hrule : grammar.argumentsRule parser = .error diagnostic later) :
    parser.FailsNext (fun ts => ∃ us closing, ts = us ++ [closing] ∧
      closing.kind = .closeParen ∧ Derivable .arguments us) diagnostic later := by
  rw [Grammar.argumentsRule, peekKind_bind] at hrule
  split at hrule
  · cases hrule
  rw [advance_bind] at hrule
  rcases eq_error_of_bind hrule with hargument | ⟨argument, second, hargument, hrule⟩
  · refine (h.nextExpr hn hargument).behind [Spare.closeParen] (by decide) ?_
    rintro ts ⟨tree, hderives⟩
    exact ⟨ts, _, rfl, rfl, _, .lastArgument hderives⟩
  obtain ⟨hread, -⟩ := hsound.nextExpr hn hargument
  have hsecond : second.remaining ≤ n + 1 := by
    obtain ⟨ts, hts, -⟩ := hread
    exact Nat.le_trans hts.remaining_le hn
  rcases eq_error_of_bind hrule with hmore | ⟨others, third, hmore, hrule⟩
  · refine hread.fails isClosed_expr fun ts hderives => ?_
    refine (h.moreArgumentsRule hsound hsecond hmore).behind [Spare.closeParen]
      (by decide) ?_
    rintro us ⟨comma, vs, hkind, rfl, trees, htrees⟩
    refine ⟨ts ++ comma :: vs, Spare.closeParen, ?_, rfl, _, .consArgument hderives hkind htrees⟩
    rw [List.append_assoc]
  · -- the arguments are read, so the parenthesis is missing
    obtain ⟨ts, hts, hderives⟩ := hread
    have hall := Sound.arguments_cons hderives hts (hsound.moreArgumentsRule hsecond hmore)
    rcases eq_error_of_bind hrule with hexpect | ⟨_, last, -, hrule⟩
    · refine hall.fails_expect isClosed_arguments hexpect [Spare.closeParen]
        (by decide) ?_
      intro us harguments
      exact ⟨us, _, rfl, rfl, _, harguments⟩
    · cases hrule

theorem callRule {callee : Expr} {ts : List Token} (h : grammar.Breaking n)
    (hsound : grammar.Sound n) (hn : parser.remaining ≤ n + 1)
    (hcallee : Derives (.expr .call callee) ts) (hopening : parser.current.kind = .openParen)
    (hrule : grammar.callRule callee parser = .error diagnostic later) :
    parser.Fails (fun us => Derivable (.expr .call) (ts ++ us)) diagnostic later := by
  rw [Grammar.callRule, current_bind] at hrule
  refine FailsNext.here (by rw [hopening]; rfl) (by rw [hopening]; decide) ?_
  rcases eq_error_of_bind hrule with harguments | ⟨trees, mid, -, hrule⟩
  · refine (h.argumentsRule hsound hn harguments).mono ?_
    rintro us ⟨vs, closing, rfl, hclosing, trees, htrees⟩
    exact ⟨_, .call hcallee hopening htrees hclosing⟩
  · cases hrule

/-- **One turn of the precedence loop**, on an operand as in `Sound.operatorRule`. -/
theorem operatorRule {left : Expr} {level : Level} {ts : List Token} (h : grammar.Breaking n)
    (hsound : grammar.Sound n) (hn : parser.remaining ≤ n + 1)
    (hleft : Derives (.expr level left) ts) (hpositive : 0 < parser.peek.kind.power.rank)
    (hlevel : parser.peek.kind.power.rank ≤ level.rank)
    (hrule : grammar.operatorRule parser.peek.kind.power left parser.advance =
      .error diagnostic later) :
    ∃ own : Level, own.rank = parser.peek.kind.power.rank ∧
      parser.FailsNext (fun us => Derivable (.expr own) (ts ++ us)) diagnostic later := by
  have hremaining : parser.advance.remaining ≤ n := remaining_advance_le_of_succ hn
  rcases TokenKind.operator_or_openParen hpositive with hkind | ⟨own, hkind⟩
  · -- a call
    rw [hkind] at hlevel
    simp only [Grammar.operatorRule, current_bind, current_advance, hkind] at hrule
    refine ⟨.call, by rw [hkind]; rfl, Fails.next ?_⟩
    exact h.callRule hsound (Nat.le_succ_of_le hremaining) (hleft.loosen hlevel) hkind hrule
  · -- an operator between operands, of which the right one fails
    obtain ⟨tighter, htighter⟩ := Level.exists_tighter_of_mem hkind
    have hown := Level.rank_power hkind
    have hcurrent : parser.advance.current.kind ∈ own.operators := hkind
    have hplain := Level.isPlain_of_mem hkind
    rw [operatorRule_of_mem _ _ hcurrent, Grammar.infixOpRule, current_bind, advance_bind] at hrule
    refine ⟨own, hown.symm, ?_⟩
    rcases eq_error_of_bind hrule with hright | ⟨right, mid, -, hrule⟩
    · refine FailsNext.cons hplain ?_ ?_
      · intro heof
        rw [heof] at hpositive
        exact Nat.lt_irrefl 0 hpositive
      · refine (h.nextExpr (Nat.le_succ_of_le hremaining) hright).mono ?_
        rintro us ⟨right, hderives⟩
        rw [Level.above_power hkind htighter] at hderives
        exact ⟨_, .infixOp htighter hkind (hleft.loosen (hown ▸ hlevel)) hderives⟩
    · cases hrule

theorem operatorsRule {power : Power} {left : Expr} {level : Level} {ts : List Token}
    (h : grammar.Breaking n) (hsound : grammar.Sound n) (hn : parser.remaining ≤ n + 1)
    (hrule : grammar.operatorsRule power left parser = .error diagnostic later)
    (hleft : Derives (.expr level left) ts) (hpeek : parser.peek.kind.power.rank ≤ level.rank) :
    parser.FailsNext (fun us => Derivable (.expr (.above power)) (ts ++ us)) diagnostic later := by
  rw [Grammar.operatorsRule, peekKind_bind] at hrule
  split at hrule
  · next hpower =>
    rw [advance_bind] at hrule
    have hpower' := Power.lt_iff_rank.mp hpower
    have hpositive : 0 < parser.peek.kind.power.rank := Nat.zero_lt_of_lt hpower'
    have habove := Level.rank_above_le power
    rcases eq_error_of_bind hrule with hoperator | ⟨middle, mid, hoperator, hrule⟩
    · -- the turn fails; its operator is within the level that is read
      obtain ⟨own, hown, hfails⟩ :=
        h.operatorRule hsound hn hleft hpositive hpeek hoperator
      refine hfails.mono ?_
      rintro us ⟨tree, hderives⟩
      exact ⟨tree, hderives.loosen (by omega)⟩
    · -- the turn is read, and the rest of the loop fails on what it made
      obtain ⟨us, own, hus, hderives, hown, hmid, hremaining⟩ :=
        hsound.operatorRule hn hleft hpositive hpeek hoperator
      have hfails := h.operators hremaining hrule hderives (by omega) hmid
      have henclosed : Enclosed us := hleft.encloses.right hderives.encloses
      refine FailsNext.after hus henclosed ?_
      simpa only [List.append_assoc] using hfails
  · cases hrule

theorem exprRule {power : Power} (h : grammar.Breaking n) (hsound : grammar.Sound n)
    (hn : parser.remaining ≤ n + 1)
    (hrule : grammar.exprRule power parser = .error diagnostic later) :
    parser.Fails (Derivable (.expr (.above power))) diagnostic later := by
  rcases eq_error_of_bind hrule with hoperand | ⟨left, mid, hoperand, hrule⟩
  · refine (h.operandRule hsound hn hoperand).mono ?_
    rintro ts ⟨tree, hderives⟩
    exact ⟨tree, hderives.loosen (Level.rank_above_le_unary power)⟩
  · obtain ⟨level, ⟨ts, hts, hderives⟩, hlevel, hpower⟩ := hsound.operandRule hn hoperand
    have hmid : mid.remaining ≤ n + 1 := Nat.le_trans hts.remaining_le hn
    have hread : parser.Read (.expr level left) mid := ⟨ts, hts, hderives⟩
    refine hread.fails_expr fun ts hderives => ?_
    exact h.operatorsRule hsound hmid hrule hderives hpower

/-! ### Statements -/

/-- The end of a statement fails where a semicolon is missing. -/
theorem endStatement {optional : Bool} {P : List Token → Prop}
    (hrule : Rule.endStatement optional parser = .error diagnostic later)
    (hkind : parser.current.kind ≠ .openCurly ∧ parser.current.kind ≠ .semicolon) (hP : P []) :
    parser.FailsNext P diagnostic later := by
  -- it is a failing `expect`, where one is not dispensed with
  have hexpect : Rule.expect .semicolon parser = .error diagnostic later := by
    rw [Rule.endStatement_apply] at hrule
    split at hrule
    · cases hrule
    · cases hrule
    · cases hrule
    · next hsemicolon _ _ =>
      cases optional with
      | true => cases hrule
      | false => exact (if_neg hsemicolon).trans hrule
  exact failsNext_expect hexpect hkind [] (List.nil_subset spares) hP

/-- A value and the end of its statement. -/
theorem value {P : List Token → Prop} {statement : Expr → Stmt} (h : grammar.Breaking n)
    (hsound : grammar.Sound n) (hn : parser.remaining ≤ n + 1)
    (hP : ∀ tree ts, Derives (.expr .equality tree) ts → P ts)
    (hrule : (do
      let value ← grammar.exprRule .lowest
      Rule.endStatement value.endsWithBlock
      pure (statement value) : Rule Stmt) parser = .error diagnostic later) :
    parser.Fails P diagnostic later := by
  rcases eq_error_of_bind hrule with hvalue | ⟨value, mid, hvalue, hrule⟩
  · refine (h.exprRule hsound hn hvalue).mono ?_
    rintro ts ⟨tree, hderives⟩
    exact hP tree ts hderives
  · obtain ⟨hread, -⟩ := hsound.exprRule hn hvalue
    rcases eq_error_of_bind hrule with hend | ⟨_, last, -, hrule⟩
    · refine hread.fails_expr fun ts hderives => ?_
      refine endStatement hend (hread.kind_current isClosed_expr) ?_
      rw [List.append_nil]
      exact hP value ts hderives
    · cases hrule

theorem letRule (h : grammar.Breaking n) (hsound : grammar.Sound n)
    (hn : parser.remaining ≤ n + 1) (hword : parser.current.kind = .letKw)
    (hrule : grammar.letRule parser = .error diagnostic later) :
    parser.Fails LacksSemicolon diagnostic later := by
  rw [Grammar.letRule, Grammar.letOf, current_bind] at hrule
  refine FailsNext.here (by rw [hword]; rfl) (by rw [hword]; decide) ?_
  rcases eq_error_of_bind hrule with hexpect | ⟨_, first, hexpect, hrule⟩
  · exact failsNext_expect hexpect (by rw [hword]; decide) [Spare.name, Spare.assign, Spare.name]
      (by decide) (lacksSemicolon_let hword rfl rfl (derives_name .equality))
  obtain ⟨hname, rfl⟩ := eq_of_expect hexpect
  rw [identifierRule_bind] at hrule
  refine FailsNext.cons (by rw [hname]; rfl) (by rw [hname]; decide) ?_
  rcases eq_error_of_bind hrule with hexpect | ⟨_, second, hexpect, hrule⟩
  · have hcurrent : parser.advance.current.kind = .identifier := hname
    exact failsNext_expect hexpect (by rw [hcurrent]; decide) [Spare.assign, Spare.name]
      (by decide) (lacksSemicolon_let hword hname rfl (derives_name .equality))
  obtain ⟨hassign, rfl⟩ := eq_of_expect hexpect
  rw [advance_bind] at hrule
  refine FailsNext.cons (by rw [hassign]; rfl) (by rw [hassign]; decide) ?_
  have hremaining : parser.advance.advance.advance.remaining ≤ n + 1 :=
    remaining_advance_le (remaining_advance_le (remaining_advance_le hn))
  refine (h.value hsound hremaining (fun tree ts hderives => ?_) hrule).next
  exact lacksSemicolon_let hword hname hassign hderives

theorem returnRule (h : grammar.Breaking n) (hsound : grammar.Sound n)
    (hn : parser.remaining ≤ n + 1) (hword : parser.current.kind = .returnKw)
    (hrule : grammar.returnRule parser = .error diagnostic later) :
    parser.Fails LacksSemicolon diagnostic later := by
  rw [Grammar.returnRule, Grammar.returnOf, current_bind, peekKind_bind] at hrule
  refine FailsNext.here (by rw [hword]; rfl) (by rw [hword]; decide) ?_
  cases hkind : parser.peek.kind with
  | semicolon | closeCurly | eof =>
    -- without a value the statement ends at once
    rw [hkind] at hrule
    rcases eq_error_of_bind hrule with hend | ⟨_, last, -, hrule⟩
    · rw [Rule.endStatement_apply, hkind] at hend
      cases hend
    · cases hrule
  | _ =>
    simp only [hkind, advance_bind] at hrule
    refine (h.value hsound (remaining_advance_le hn) (fun tree ts hderives => ?_) hrule).next
    exact lacksSemicolon_return hword hderives

theorem expressionRule (h : grammar.Breaking n) (hsound : grammar.Sound n)
    (hn : parser.remaining ≤ n + 1)
    (hrule : grammar.expressionRule parser = .error diagnostic later) :
    parser.Fails LacksSemicolon diagnostic later := by
  rw [Grammar.expressionRule, Grammar.expressionOf, current_bind] at hrule
  exact h.value hsound hn (fun _ _ hderives => lacksSemicolon_expr hderives) hrule

theorem blockStatementRule (h : grammar.Breaking n) (hn : parser.remaining ≤ n + 1)
    (hopening : parser.current.kind = .openCurly)
    (hrule : grammar.blockStatementRule parser = .error diagnostic later) :
    parser.Fails LacksSemicolon diagnostic later := by
  rcases eq_error_of_bind hrule with hblock | ⟨block, mid, -, hrule⟩
  · refine (h.blockRule hn hopening hblock).mono ?_
    rintro ts ⟨body, hbody⟩
    exact lacksSemicolon_block hbody
  · -- behind a block a semicolon may be left out
    rcases eq_error_of_bind hrule with hend | ⟨_, last, -, hrule⟩
    · rw [Rule.endStatement_apply] at hend
      split at hend <;> cases hend
    · cases hrule

/-- **A statement that fails could have been gone on with**, and ended by a semicolon. -/
theorem statementRule (h : grammar.Breaking n) (hsound : grammar.Sound n)
    (hn : parser.remaining ≤ n + 1)
    (hrule : grammar.statementRule parser = .error diagnostic later) :
    parser.Fails LacksSemicolon diagnostic later := by
  rw [Grammar.statementRule, Grammar.statementOf, current_bind] at hrule
  cases hkind : parser.current.kind with
  | letKw =>
    rw [hkind] at hrule
    exact h.letRule hsound hn hkind hrule
  | returnKw =>
    rw [hkind] at hrule
    exact h.returnRule hsound hn hkind hrule
  | openCurly =>
    rw [hkind] at hrule
    exact h.blockStatementRule hn hkind hrule
  | _ =>
    rw [hkind] at hrule
    exact h.expressionRule hsound hn hrule

theorem unclosedBlock (hkind : parser.current.kind = .eof)
    (hrule : (unclosedBlock : Rule (List Stmt)) parser = .error diagnostic later) :
    parser.Fails (Derivable (.statements .closeCurly)) diagnostic later := by
  cases hrule
  have hend : parser.atEnd = true := decide_eq_true hkind
  exact fails_here [] ⟨rfl, hkind.symm, by decide⟩ (Or.inr hend) (List.nil_subset spares) ⟨_, .nil⟩

theorem statement_cons (h : grammar.Breaking n) (hsound : grammar.Sound n)
    (hn : parser.remaining ≤ n + 1)
    (hrule : (do
      let statement ← grammar.statementRule
      Rule.advance
      let others ← grammar.statements
      pure (statement :: others) : Rule (List Stmt)) parser = .error diagnostic later) :
    parser.Fails (Derivable (.statements .closeCurly)) diagnostic later := by
  rcases eq_error_of_bind hrule with hstatement | ⟨statement, mid, hstatement, hrule⟩
  · refine (h.statementRule hsound hn hstatement).behind [Spare.semicolon] (by decide) ?_
    rintro ts ⟨tree, hlacks⟩
    exact ⟨_, Derives.singleton (hlacks Spare.semicolon .closeCurly rfl)⟩
  · rw [advance_bind] at hrule
    rcases eq_error_of_bind hrule with hothers | ⟨others, last, -, hrule⟩
    · have hread := hsound.statementRule hn hstatement
      have hremaining : mid.advance.remaining ≤ n := by
        obtain ⟨ts, hts, -⟩ := hread
        exact remaining_advance_le_of_succ (Nat.le_trans hts.remaining_le hn)
      refine hread.fails (fun ts h => h.of_statement.1) Bool.false_ne_true fun ts hderives => ?_
      obtain ⟨us, hbreaks, vs, hvs, trees, htrees⟩ := (h.statements hremaining hothers).next
      cases us with
      | nil =>
        -- the token of the diagnostic is not one of the block, which is closed here
        have hlast := Derives.singleton (hderives.statement_before (Or.inl rfl))
        refine ⟨[], hbreaks, [], List.nil_subset spares, [statement], ?_⟩
        rw [List.append_nil, List.append_nil]
        exact hlast
      | cons first us =>
        -- the statement was read in front of the first of the tokens
        obtain ⟨rest, hrest⟩ := hbreaks.front
        have hfirst : mid.peek = first := by rw [peek, ← hrest]; rfl
        rw [hfirst] at hderives
        exact ⟨first :: us, hbreaks, vs, hvs, _, .cons hderives htrees⟩
    · cases hrule

theorem statementsRule (h : grammar.Breaking n) (hsound : grammar.Sound n)
    (hn : parser.remaining ≤ n + 1)
    (hrule : grammar.statementsRule parser = .error diagnostic later) :
    parser.Fails (Derivable (.statements .closeCurly)) diagnostic later := by
  rw [Grammar.statementsRule, Grammar.statementsOf, current_bind] at hrule
  cases hkind : parser.current.kind with
  | closeCurly =>
    rw [hkind] at hrule
    cases hrule
  | eof =>
    rw [hkind] at hrule
    exact unclosedBlock hkind hrule
  | _ =>
    rw [hkind] at hrule
    exact h.statement_cons hsound hn hrule

/-! ## The grammar of an input -/

theorem step (h : grammar.Breaking n) (hsound : grammar.Sound n) :
    grammar.step.Breaking (n + 1) where
  expr := h.exprRule hsound
  operators hn hrule hleft _ hpeek := h.operatorsRule hsound hn hrule hleft hpeek
  moreArguments := h.moreArgumentsRule hsound
  moreParameters := h.moreParametersRule
  statements := h.statementsRule hsound

end Grammar.Breaking

namespace Grammar

/-- At the end of the input an expression is missing, or the bracket that closes a block. -/
theorem breaking_atEnd : atEnd.Breaking 0 where
  expr := by
    intro power parser later diagnostic hn hrule
    have hkind : parser.current.kind = .eof := by
      rw [Parser.kind_current, List.length_eq_zero_iff.mp (Nat.le_zero.mp hn)]
      rfl
    exact Breaking.noExpression (by rw [hkind]; rfl) hrule
  operators _ hrule := by cases hrule
  moreArguments _ hrule := by cases hrule
  moreParameters _ hrule := by cases hrule
  statements := by
    intro parser later diagnostic hn hrule
    have hkind : parser.current.kind = .eof := by
      rw [Parser.kind_current, List.length_eq_zero_iff.mp (Nat.le_zero.mp hn)]
      rfl
    exact Breaking.unclosedBlock hkind hrule

/-- **The grammar of an input fails in time.** -/
theorem breaking_upTo (n : Nat) : (upTo n).Breaking n := by
  induction n with
  | zero => exact breaking_atEnd
  | succ n ih => exact ih.step (sound_upTo n)

end Grammar

namespace Parser

/-- **Where a statement fails.** The tokens in front of the one that the diagnostic is on, with some
more behind them, are a statement but for its semicolon. -/
theorem fails_statementRule {parser later : Parser} {diagnostic : Diagnostic}
    (h : Grammar.unbounded.statementRule parser = .error diagnostic later) :
    parser.Fails LacksSemicolon diagnostic later := by
  obtain ⟨hrule, -⟩ := Grammar.agree_statementRule parser.remaining parser (Nat.le_refl _)
  exact (Grammar.breaking_upTo _).statementRule (Grammar.sound_upTo _) (Nat.le_succ _)
    (hrule.trans h)

end Parser

end MonkeySyntax
