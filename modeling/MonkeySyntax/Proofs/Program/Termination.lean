import MonkeySyntax.Proofs.Parser.Calls
import MonkeySyntax.Proofs.Program.Turns

/-!
# MonkeySyntax — parsing ends

A parser may stand anywhere, at the end of the input too, where to move on does not lead on. Still
every function of the parser ends, and with it every loop.

* **`Call.Again`** — two calls of one function. Between them tokens are used up
  (`Call.remaining_lt_of_again`), and in an expression or a statement the first of these is not the
  end of the input (`Parser.Consumes`).
* **`skipStatement_round`** — one round of the loop that skips a broken statement.
* **`parsing_ends`** — all loops and recursions, for parsers in any state.
-/

namespace MonkeySyntax

/-- On the way from `parser` to `later` a token is used up that is not the end of the input. -/
def Parser.Consumes (parser later : Parser) : Prop :=
  ∃ ts, parser.ahead = ts ++ later.ahead ∧ ∃ token ∈ ts, token.kind ≠ .eof

/-- The current token is used up if any is. -/
theorem Parser.Onward.consumes {parser later : Parser} (h : parser.Onward later)
    (hlt : later.remaining < parser.remaining) (hend : parser.atEnd = false) :
    parser.Consumes later := by
  obtain ⟨ts, hts⟩ := h.ahead
  refine ⟨ts, hts.symm, ?_⟩
  cases ts with
  | nil =>
    rw [List.nil_append] at hts
    rw [remaining, remaining, hts] at hlt
    exact absurd hlt (Nat.lt_irrefl _)
  | cons token ts =>
    rw [atEnd, current, ← hts] at hend
    exact ⟨token, List.mem_cons_self, of_decide_eq_false hend⟩

/-! ## Recursion -/

namespace Call

/-- Two calls of one function, with whatever arguments. -/
inductive Again : Call → Call → Prop where
  | statement : Again .statement .statement
  | statements : Again .statements .statements
  | expr (power power' : Power) : Again (.expr power) (.expr power')
  | operators (power power' : Power) (left left' : Expr) :
      Again (.operators power left) (.operators power' left')
  | moreArguments : Again .moreArguments .moreArguments
  | moreParameters : Again .moreParameters .moreParameters

variable {call again : Call} {callee : Call × Parser} {parser later : Parser} {power : Power}

theorem Again.rank_eq (h : Again call again) : call.rank = again.rank := by
  cases h <;> rfl

/-- **Between two calls of one function tokens are used up.** -/
theorem remaining_lt_of_again (hagain : Again call again)
    (h : Relation.TransGen Calls (again, later) (call, parser)) :
    later.remaining < parser.remaining := by
  have hlower := (descends_of_transGen h).lower
  have hrank := hagain.rank_eq
  change later.remaining < parser.remaining ∨
    later.remaining = parser.remaining ∧ again.rank < call.rank at hlower
  omega

theorem atEnd_of_expr (h : Relation.TransGen Calls callee (.expr power, parser)) :
    parser.atEnd = false := by
  obtain ⟨next, -, hnext⟩ := Relation.TransGen.tail'_iff.mp h
  cases hend : parser.atEnd with
  | false => rfl
  | true =>
    change next ∈ (Grammar.RuleName.expr power).calls parser at hnext
    rw [Grammar.RuleName.calls_expr_of_atEnd hend] at hnext
    exact absurd hnext List.not_mem_nil

/-- A statement at the end of the input calls for an expression there, and for no other
statement. -/
theorem atEnd_of_statement (h : Relation.TransGen Calls (.statement, later) (.statement, parser)) :
    parser.atEnd = false := by
  obtain ⟨next, hmore, hnext⟩ := Relation.TransGen.tail'_iff.mp h
  cases hend : parser.atEnd with
  | false => rfl
  | true =>
    change next ∈ Grammar.RuleName.statement.calls parser at hnext
    rw [Grammar.RuleName.calls_statement_of_atEnd hend] at hnext
    obtain rfl := List.mem_singleton.mp hnext
    rcases Relation.reflTransGen_iff_eq_or_transGen.mp hmore with heq | hmore
    · cases heq
    · exact absurd (atEnd_of_expr hmore) (by rw [hend]; decide)

end Call

/-! ## Loops over tokens -/

/-- **One round of skipping** stops, or goes on with one token less. -/
theorem skipStatement_round (depth : Nat) (ts : List Token) :
    (isStop depth ts 0 = true ∧ skipStatement depth ts = ts.drop (pastBracket ts 0)) ∨
      ∃ token rest, ts = token :: rest ∧
        skipStatement depth ts = skipStatement (token.kind.nest depth) rest := by
  have hskips := skipsFrom_zero depth ts
  cases hstop : isStop depth ts 0 with
  | true => exact Or.inl ⟨rfl, hskips.unique (.of_isStop hstop)⟩
  | false =>
    cases ts with
    | nil => cases hstop
    | cons token rest =>
      have hnext := (skipsFrom_zero (token.kind.nest depth) rest).cons hstop
      exact Or.inr ⟨token, rest, rfl, hskips.unique hnext⟩

/-! ## All functions -/

/-- **Parsing ends**, wherever a parser stands and however many blocks it counts. A function calls
others, or the next iteration of its loop, and these calls are well-founded. Between two calls of one
function tokens are used up, and in an expression or a statement one that is not the end of the
input. To skip a broken statement and to read a program are loops over fewer and fewer tokens. With
no token left a function calls for one expression at most, or for the statements of a block, and this
calls for nothing more. -/
theorem parsing_ends :
    (∀ {α : Type} (name : Grammar.RuleName α),
      Rule.InStep (fun noted parser => noted.parser = parser) name.noted
        (Parser.reading name.rule)) ∧
    WellFounded Call.Calls ∧
    (∀ call again parser later, Call.Again call again →
      Relation.TransGen Call.Calls (again, later) (call, parser) →
        later.remaining < parser.remaining) ∧
    (∀ power power' parser later,
      Relation.TransGen Call.Calls (.expr power', later) (.expr power, parser) →
        parser.Consumes later) ∧
    (∀ parser later, Relation.TransGen Call.Calls (.statement, later) (.statement, parser) →
      parser.Consumes later) ∧
    (∀ depth ts, (isStop depth ts 0 = true ∧ skipStatement depth ts = ts.drop (pastBracket ts 0)) ∨
      ∃ token rest, ts = token :: rest ∧
        skipStatement depth ts = skipStatement (token.kind.nest depth) rest) ∧
    (∀ parser : Parser, (parser.atEnd = false → parser.turn.2.remaining < parser.remaining) ∧
      ∃ segments, parser.Turns segments ∧
        parser.parseProgram.1.statements = segments.filterMap Segment.statement?) ∧
    ∀ {α : Type} (name : Grammar.RuleName α) (parser : Parser), parser.ahead = [] →
      name.calls parser = [] ∨ ∃ call later, name.calls parser = [(call, later)] ∧
        call.calls later = [] ∧ (call = .statements ∨ ∃ power, call = .expr power) := by
  refine ⟨Grammar.RuleName.inStep_noted, Call.wellFounded_calls,
    fun _ _ _ _ => Call.remaining_lt_of_again, fun power power' parser later h => ?_,
    fun parser later h => ?_, skipStatement_round, fun parser => ⟨Parser.remaining_turn_lt, ?_⟩,
    fun name parser hnil => ?_⟩
  · have hlt := Call.remaining_lt_of_again (.expr power power') h
    exact (Call.descends_of_transGen h).onward.consumes hlt (Call.atEnd_of_expr h)
  · have hlt := Call.remaining_lt_of_again .statement h
    exact (Call.descends_of_transGen h).onward.consumes hlt (Call.atEnd_of_statement h)
  · obtain ⟨segments, hturns⟩ := parser.exists_turns
    refine ⟨segments, hturns, ?_⟩
    rw [Parser.parseProgram_eq]
    exact (hturns.readStatements (Nat.le_refl _)).1
  · rcases name.calls_of_nil hnil with hnone | ⟨call, later, hcalls, hlater, hcall⟩
    · exact Or.inl hnone
    · -- what is called is no statement, so it calls nothing
      have hnot : call ≠ .statement := by
        rcases hcall with rfl | ⟨power, rfl⟩ <;> nofun
      have hmore := (call.calls_of_nil hlater).resolve_right fun h => hnot h.1
      exact Or.inr ⟨call, later, hcalls, hmore, hcall⟩

end MonkeySyntax
