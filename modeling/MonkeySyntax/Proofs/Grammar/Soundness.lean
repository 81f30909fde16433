import MonkeySyntax.Proofs.Grammar.Precedence
import MonkeySyntax.Proofs.Lexer.Cursor
import MonkeySyntax.Proofs.Parser.Passage

/-!
# MonkeySyntax — what is read is derived

If a rule succeeds, the tokens that it went over are its phrase in the grammar of
`Derivation.lean`, and what it gives is the tree of the derivation.

* **`Parser.Read parser phrase later`** — the tokens from the one at which `parser` stands to the
  one at which `later` stands, both included, are the phrase.
* **`Grammar.Sound n`** — the nested phrases are read soundly where at most `n` tokens are left. For
  the operators behind an operand this is the invariant of the precedence loop: the operand is
  derived at a level that the next token is not tighter than.
* **`Grammar.sound_upTo`** — `upTo n` is sound for `n`. There is one lemma for each rule, from
  soundness for `n` to the rule on one token more.
-/

namespace MonkeySyntax

namespace Parser

/-- From the current token of `parser` to that of `later`, both included, stands the phrase. -/
def Read (parser : Parser) (phrase : Phrase) (later : Parser) : Prop :=
  ∃ ts, parser.Passes ts later ∧ Derives phrase (parser.current :: ts)

/-- Behind the current token of `parser`, up to that of `later`, stands the phrase. -/
def ReadNext (parser : Parser) (phrase : Phrase) (later : Parser) : Prop :=
  ∃ ts, parser.Passes ts later ∧ Derives phrase ts

/-- What stands from the next token on stands behind the current one. -/
theorem Read.next {parser later : Parser} {phrase : Phrase} (h : parser.advance.Read phrase later)
    (hend : ¬ phrase.Begins .eof) : parser.ReadNext phrase later := by
  obtain ⟨ts, hpasses, hderives⟩ := h
  rw [current_advance] at hderives
  have hkind : parser.peek.kind ≠ .eof := by
    intro heof
    have hbegins := hderives.begins .eof
    rw [firstKind_cons, heof] at hbegins
    exact hend hbegins
  exact ⟨parser.peek :: ts, hpasses.cons hkind, hderives⟩

theorem not_begins_expr {level : Level} {tree : Expr} :
    ¬ (Phrase.expr level tree).Begins .eof :=
  Bool.false_ne_true

end Parser

/-! ## Sound grammars -/

/-- The phrases that occur inside themselves are read soundly where at most `n` tokens are left. -/
structure Grammar.Sound (n : Nat) (grammar : Grammar) : Prop where
  expr {power : Power} {parser later : Parser} {tree : Expr} :
    parser.remaining ≤ n → grammar.expr power parser = .ok tree later →
      parser.Read (.expr (.above power) tree) later ∧ later.peek.kind.power ≤ power
  operators {power : Power} {left : Expr} {parser later : Parser} {tree : Expr} {level : Level}
      {ts : List Token} :
    parser.remaining ≤ n → grammar.operators power left parser = .ok tree later →
      Derives (.expr level left) ts → (Level.above power).rank ≤ level.rank →
      parser.peek.kind.power.rank ≤ level.rank →
      ∃ us, parser.Passes us later ∧ Derives (.expr (.above power) tree) (ts ++ us) ∧
        later.peek.kind.power ≤ power
  moreArguments {parser later : Parser} {trees : List Expr} :
    parser.remaining ≤ n → grammar.moreArguments parser = .ok trees later →
      (trees = [] ∧ later = parser) ∨
        ∃ comma us, comma.kind = .comma ∧ parser.Passes (comma :: us) later ∧
          Derives (.arguments trees) us
  moreParameters {parser later : Parser} {names : List Identifier} :
    parser.remaining ≤ n → grammar.moreParameters parser = .ok names later →
      (names = [] ∧ later = parser) ∨
        ∃ comma us, comma.kind = .comma ∧ parser.Passes (comma :: us) later ∧ Names us names
  statements {parser later : Parser} {trees : List Stmt} :
    parser.remaining ≤ n → grammar.statements parser = .ok trees later →
      ∃ ts closing, ts ++ [closing] <+: parser.ahead ∧ closing.kind = .closeCurly ∧
        later = parser.skip ts.length ∧ Derives (.statements .closeCurly trees) ts

namespace Grammar.Sound

open Rule MonkeySyntax.Parser

variable {n : Nat} {grammar : Grammar} {parser later : Parser}

/-! ## Blocks -/

theorem blockRule {tree : Block} (h : grammar.Sound n) (hn : parser.remaining ≤ n + 1)
    (hopening : parser.current.kind = .openCurly)
    (hrule : grammar.blockRule parser = .ok tree later) : parser.Read (.block tree) later := by
  simp only [Grammar.blockRule, current_bind, enterBlock_bind, advance_bind] at hrule
  obtain ⟨trees, mid, hstatements, hrule⟩ := eq_ok_of_bind hrule
  rw [leaveBlock_bind] at hrule
  obtain ⟨rfl, rfl⟩ := eq_of_pure hrule
  have hremaining : parser.enterBlock.advance.remaining ≤ n := remaining_advance_le_of_succ hn
  obtain ⟨ts, closing, hahead, hclosing, rfl, htrees⟩ := h.statements hremaining hstatements
  refine ⟨ts ++ [closing], ⟨hahead, ?_⟩, .block hopening htrees hclosing⟩
  rw [leaveBlock_skip, List.length_append, List.length_singleton]

theorem nextBlock {tree : Block} (h : grammar.Sound n) (hn : parser.remaining ≤ n + 1)
    (hopening : parser.peek.kind = .openCurly)
    (hrule : grammar.blockRule parser.advance = .ok tree later) :
    parser.ReadNext (.block tree) later := by
  have hremaining : parser.advance.remaining ≤ n + 1 := remaining_advance_le hn
  refine (h.blockRule hremaining hopening hrule).next ?_
  simp [Phrase.Begins]

/-! ## Operands -/

theorem nextExpr {power : Power} {tree : Expr} (h : grammar.Sound n)
    (hn : parser.remaining ≤ n + 1) (hrule : grammar.expr power parser.advance = .ok tree later) :
    parser.ReadNext (.expr (.above power) tree) later ∧ later.peek.kind.power ≤ power := by
  have hremaining : parser.advance.remaining ≤ n := remaining_advance_le_of_succ hn
  obtain ⟨hread, hpower⟩ := h.expr hremaining hrule
  exact ⟨hread.next not_begins_expr, hpower⟩

theorem integerRule {tree : Expr} (hkind : parser.current.kind = .integer)
    (hrule : Grammar.integerRule parser = .ok tree later) :
    parser.Read (.expr .primary tree) later := by
  rw [Grammar.integerRule, current_bind] at hrule
  cases hvalue : integerValue? parser.current.literal with
  | none =>
    rw [hvalue] at hrule
    cases hrule
  | some value =>
    rw [hvalue] at hrule
    obtain ⟨rfl, rfl⟩ := eq_of_pure hrule
    obtain ⟨-, -, hrange, rfl⟩ := integerValue?_eq_some_iff.mp hvalue
    exact ⟨[], .refl parser, .integer hkind hrange⟩

theorem prefixOpRule {tree : Expr} (h : grammar.Sound n) (hn : parser.remaining ≤ n + 1)
    (hkind : parser.current.kind = .bang ∨ parser.current.kind = .dash)
    (hrule : grammar.prefixOpRule parser = .ok tree later) :
    parser.Read (.expr .unary tree) later ∧ later.peek.kind.power ≤ .unary := by
  simp only [Grammar.prefixOpRule, current_bind, advance_bind] at hrule
  obtain ⟨right, mid, hright, hrule⟩ := eq_ok_of_bind hrule
  obtain ⟨rfl, rfl⟩ := eq_of_pure hrule
  obtain ⟨⟨ts, hpasses, hderives⟩, hpower⟩ := h.nextExpr hn hright
  exact ⟨⟨ts, hpasses, .prefixOp hkind hderives⟩, hpower⟩

theorem groupRule {tree : Expr} (h : grammar.Sound n) (hn : parser.remaining ≤ n + 1)
    (hopening : parser.current.kind = .openParen)
    (hrule : grammar.groupRule parser = .ok tree later) :
    parser.Read (.expr .primary tree) later := by
  simp only [Grammar.groupRule, advance_bind] at hrule
  obtain ⟨inner, mid, hinner, hrule⟩ := eq_ok_of_bind hrule
  obtain ⟨_, last, hclosing, hrule⟩ := eq_ok_of_bind hrule
  obtain ⟨rfl, rfl⟩ := eq_of_pure hrule
  obtain ⟨hkind, rfl⟩ := eq_of_expect hclosing
  obtain ⟨⟨ts, hpasses, hderives⟩, -⟩ := h.nextExpr hn hinner
  have hend : mid.Passes [mid.peek] mid.advance := Passes.advance (by simp [hkind])
  exact ⟨ts ++ [mid.peek], hpasses.trans hend, .group hopening hderives hkind⟩

theorem alternativeRule {tree : Option Block} (h : grammar.Sound n)
    (hn : parser.remaining ≤ n + 1)
    (hrule : grammar.alternativeRule parser = .ok tree later) :
    (tree = none ∧ later = parser) ∨
      ∃ block otherwise us, tree = some block ∧ otherwise.kind = .elseKw ∧
        parser.Passes (otherwise :: us) later ∧ Derives (.block block) us := by
  rw [Grammar.alternativeRule, peekKind_bind] at hrule
  split at hrule
  · next hkind =>
    rw [advance_bind] at hrule
    obtain ⟨_, mid, hexpect, hrule⟩ := eq_ok_of_bind hrule
    obtain ⟨hopening, rfl⟩ := eq_of_expect hexpect
    obtain ⟨block, last, hblock, hrule⟩ := eq_ok_of_bind hrule
    obtain ⟨rfl, rfl⟩ := eq_of_pure hrule
    have hremaining : parser.advance.remaining ≤ n + 1 := remaining_advance_le hn
    obtain ⟨us, hpasses, hderives⟩ := h.nextBlock hremaining hopening hblock
    exact Or.inr ⟨block, parser.peek, us, rfl, hkind, hpasses.cons (by simp [hkind]), hderives⟩
  · obtain ⟨rfl, rfl⟩ := eq_of_pure hrule
    exact Or.inl ⟨rfl, rfl⟩

theorem ifElseRule {tree : Expr} (h : grammar.Sound n) (hn : parser.remaining ≤ n + 1)
    (hword : parser.current.kind = .ifKw) (hrule : grammar.ifElseRule parser = .ok tree later) :
    parser.Read (.expr .primary tree) later := by
  rw [Grammar.ifElseRule, current_bind] at hrule
  obtain ⟨_, first, hexpect, hrule⟩ := eq_ok_of_bind hrule
  obtain ⟨hopening, rfl⟩ := eq_of_expect hexpect
  rw [advance_bind] at hrule
  obtain ⟨condition, second, hcondition, hrule⟩ := eq_ok_of_bind hrule
  obtain ⟨_, third, hexpect, hrule⟩ := eq_ok_of_bind hrule
  obtain ⟨hclosing, rfl⟩ := eq_of_expect hexpect
  obtain ⟨_, fourth, hexpect, hrule⟩ := eq_ok_of_bind hrule
  obtain ⟨hcurly, rfl⟩ := eq_of_expect hexpect
  obtain ⟨consequence, fifth, hconsequence, hrule⟩ := eq_ok_of_bind hrule
  obtain ⟨alternative, last, halternative, hrule⟩ := eq_ok_of_bind hrule
  obtain ⟨rfl, rfl⟩ := eq_of_pure hrule
  -- the condition between its parentheses
  have hfirst : parser.advance.remaining ≤ n + 1 := remaining_advance_le hn
  obtain ⟨⟨ts, hts, hderives⟩, -⟩ := h.nextExpr hfirst hcondition
  have hthird : second.advance.remaining ≤ n + 1 :=
    remaining_advance_le (Nat.le_trans hts.remaining_le hfirst)
  -- the block, and the one after `else` if there is one
  obtain ⟨us, hus, hblock⟩ := h.nextBlock hthird hcurly hconsequence
  have hfifth : fifth.remaining ≤ n + 1 := Nat.le_trans hus.remaining_le hthird
  have hbefore : parser.Passes (parser.peek :: (ts ++ second.peek :: us)) fifth :=
    .cons (by simp [hopening]) (hts.trans (.cons (by simp [hclosing]) hus))
  rcases h.alternativeRule hfifth halternative with
    ⟨rfl, rfl⟩ | ⟨block, otherwise, vs, rfl, hotherwise, hvs, hblock'⟩
  · exact ⟨_, hbefore, .ifOnly hword hopening hderives hclosing hblock⟩
  · refine ⟨_, hbefore.trans hvs, ?_⟩
    have hderives' := Derives.ifElse hword hopening hderives hclosing hblock hotherwise hblock'
    simpa using hderives'

theorem names_cons {name : Token} {names : List Identifier} {mid : Parser}
    (hname : name.kind = .identifier)
    (hmore : (names = [] ∧ later = mid) ∨
      ∃ comma us, comma.kind = .comma ∧ mid.Passes (comma :: us) later ∧ Names us names) :
    ∃ us, mid.Passes us later ∧ Names (name :: us) (⟨name, name.literal⟩ :: names) := by
  rcases hmore with ⟨rfl, rfl⟩ | ⟨comma, us, hcomma, hpasses, hnames⟩
  · exact ⟨[], .refl _, .last hname⟩
  · exact ⟨comma :: us, hpasses, .cons hname hcomma hnames⟩

theorem moreParametersRule {names : List Identifier} (h : grammar.Sound n)
    (hn : parser.remaining ≤ n + 1)
    (hrule : grammar.moreParametersRule parser = .ok names later) :
    (names = [] ∧ later = parser) ∨
      ∃ comma us, comma.kind = .comma ∧ parser.Passes (comma :: us) later ∧ Names us names := by
  rw [Grammar.moreParametersRule, peekKind_bind] at hrule
  split at hrule
  · next hcomma =>
    rw [advance_bind] at hrule
    obtain ⟨_, mid, hexpect, hrule⟩ := eq_ok_of_bind hrule
    obtain ⟨hname, rfl⟩ := eq_of_expect hexpect
    rw [identifierRule_bind] at hrule
    obtain ⟨others, last, hothers, hrule⟩ := eq_ok_of_bind hrule
    obtain ⟨rfl, rfl⟩ := eq_of_pure hrule
    have hremaining : parser.advance.advance.remaining ≤ n :=
      remaining_advance_le (remaining_advance_le_of_succ hn)
    obtain ⟨us, hpasses, hnames⟩ := names_cons hname (h.moreParameters hremaining hothers)
    refine Or.inr ⟨parser.peek, _, hcomma, ?_, hnames⟩
    exact .cons (by simp [hcomma]) (.cons (by simp [hname]) hpasses)
  · obtain ⟨rfl, rfl⟩ := eq_of_pure hrule
    exact Or.inl ⟨rfl, rfl⟩

/-- The parameters of a function, from behind the parenthesis that opens them to the one that closes
them. -/
theorem parametersRule {names : List Identifier} (h : grammar.Sound n)
    (hn : parser.remaining ≤ n + 1)
    (hrule : grammar.parametersRule parser = .ok names later) :
    ∃ us closing, parser.Passes (us ++ [closing]) later ∧ Parameters us names ∧
      closing.kind = .closeParen := by
  rw [Grammar.parametersRule, peekKind_bind] at hrule
  split at hrule
  · next hclosing =>
    rw [advance_bind] at hrule
    obtain ⟨rfl, rfl⟩ := eq_of_pure hrule
    exact ⟨[], parser.peek, .advance (by simp [hclosing]), Or.inl ⟨rfl, rfl⟩, hclosing⟩
  · obtain ⟨_, mid, hexpect, hrule⟩ := eq_ok_of_bind hrule
    obtain ⟨hname, rfl⟩ := eq_of_expect hexpect
    rw [identifierRule_bind] at hrule
    obtain ⟨others, last, hothers, hrule⟩ := eq_ok_of_bind hrule
    obtain ⟨_, final, hexpect, hrule⟩ := eq_ok_of_bind hrule
    obtain ⟨hclosing, rfl⟩ := eq_of_expect hexpect
    obtain ⟨rfl, rfl⟩ := eq_of_pure hrule
    have hremaining : parser.advance.remaining ≤ n + 1 := remaining_advance_le hn
    obtain ⟨us, hpasses, hnames⟩ := names_cons hname (h.moreParametersRule hremaining hothers)
    have hend : last.Passes [last.peek] last.advance := .advance (by simp [hclosing])
    have hbefore := Passes.cons (by simp [hname]) hpasses
    exact ⟨_, last.peek, hbefore.trans hend, Or.inr hnames, hclosing⟩

theorem functionRule {tree : Expr} (h : grammar.Sound n) (hn : parser.remaining ≤ n + 1)
    (hword : parser.current.kind = .fnKw) (hrule : grammar.functionRule parser = .ok tree later) :
    parser.Read (.expr .primary tree) later := by
  rw [Grammar.functionRule, current_bind] at hrule
  obtain ⟨_, first, hexpect, hrule⟩ := eq_ok_of_bind hrule
  obtain ⟨hopening, rfl⟩ := eq_of_expect hexpect
  obtain ⟨parameters, second, hparameters, hrule⟩ := eq_ok_of_bind hrule
  obtain ⟨_, third, hexpect, hrule⟩ := eq_ok_of_bind hrule
  obtain ⟨hcurly, rfl⟩ := eq_of_expect hexpect
  obtain ⟨body, last, hbody, hrule⟩ := eq_ok_of_bind hrule
  obtain ⟨rfl, rfl⟩ := eq_of_pure hrule
  have hfirst : parser.advance.remaining ≤ n + 1 := remaining_advance_le hn
  obtain ⟨ts, closing, hts, hnames, hclosing⟩ := h.parametersRule hfirst hparameters
  have hsecond : second.remaining ≤ n + 1 := Nat.le_trans hts.remaining_le hfirst
  obtain ⟨us, hus, hblock⟩ := h.nextBlock hsecond hcurly hbody
  have hderives := Derives.function hword hopening hnames hclosing hblock
  refine ⟨parser.peek :: (ts ++ closing :: us), ?_, hderives⟩
  have hpasses := (Passes.cons (by simp [hopening]) hts).trans hus
  simpa using hpasses

/-- **The operand.** It is a primary one or one with an operator before it, and then what follows
has no more power than that operator. -/
theorem operandRule {tree : Expr} (h : grammar.Sound n) (hn : parser.remaining ≤ n + 1)
    (hrule : grammar.operandRule parser = .ok tree later) :
    ∃ level : Level, parser.Read (.expr level tree) later ∧ Level.unary.rank ≤ level.rank ∧
      later.peek.kind.power.rank ≤ level.rank := by
  -- nothing has more power than a primary operand allows
  have hprimary : parser.Read (.expr .primary tree) later →
      ∃ level : Level, parser.Read (.expr level tree) later ∧ Level.unary.rank ≤ level.rank ∧
        later.peek.kind.power.rank ≤ level.rank := fun hread =>
    ⟨.primary, hread, by decide, Nat.le_trans (Power.rank_le _) (by decide)⟩
  rw [Grammar.operandRule, current_bind] at hrule
  cases hkind : parser.current.kind with
  | identifier =>
    simp only [hkind, identifierRule_bind] at hrule
    obtain ⟨rfl, rfl⟩ := eq_of_pure hrule
    exact hprimary ⟨[], .refl parser, .identifier hkind⟩
  | integer =>
    simp only [hkind] at hrule
    exact hprimary (integerRule hkind hrule)
  | trueKw =>
    simp only [hkind, booleanRule, current_bind] at hrule
    obtain ⟨rfl, rfl⟩ := eq_of_pure hrule
    exact hprimary ⟨[], .refl parser, by simpa [hkind] using Derives.trueWord hkind⟩
  | falseKw =>
    simp only [hkind, booleanRule, current_bind] at hrule
    obtain ⟨rfl, rfl⟩ := eq_of_pure hrule
    exact hprimary ⟨[], .refl parser, by simpa [hkind] using Derives.falseWord hkind⟩
  | bang =>
    simp only [hkind] at hrule
    obtain ⟨hread, hpower⟩ := h.prefixOpRule hn (Or.inl hkind) hrule
    exact ⟨.unary, hread, Nat.le_refl _, hpower⟩
  | dash =>
    simp only [hkind] at hrule
    obtain ⟨hread, hpower⟩ := h.prefixOpRule hn (Or.inr hkind) hrule
    exact ⟨.unary, hread, Nat.le_refl _, hpower⟩
  | openParen =>
    simp only [hkind] at hrule
    exact hprimary (h.groupRule hn hkind hrule)
  | ifKw =>
    simp only [hkind] at hrule
    exact hprimary (h.ifElseRule hn hkind hrule)
  | fnKw =>
    simp only [hkind] at hrule
    exact hprimary (h.functionRule hn hkind hrule)
  | _ =>
    simp only [hkind, noExpression, current_bind] at hrule
    cases hrule

/-! ## Operators after an operand -/

theorem arguments_cons {argument : Expr} {trees : List Expr} {mid : Parser} {ts : List Token}
    (hargument : Derives (.expr .equality argument) ts) (hts : parser.Passes ts mid)
    (hmore : (trees = [] ∧ later = mid) ∨
      ∃ comma us, comma.kind = .comma ∧ mid.Passes (comma :: us) later ∧
        Derives (.arguments trees) us) :
    parser.ReadNext (.arguments (argument :: trees)) later := by
  rcases hmore with ⟨rfl, rfl⟩ | ⟨comma, us, hcomma, hus, htrees⟩
  · exact ⟨ts, hts, .lastArgument hargument⟩
  · exact ⟨ts ++ comma :: us, hts.trans hus, .consArgument hargument hcomma htrees⟩

theorem moreArgumentsRule {trees : List Expr} (h : grammar.Sound n)
    (hn : parser.remaining ≤ n + 1)
    (hrule : grammar.moreArgumentsRule parser = .ok trees later) :
    (trees = [] ∧ later = parser) ∨
      ∃ comma us, comma.kind = .comma ∧ parser.Passes (comma :: us) later ∧
        Derives (.arguments trees) us := by
  rw [Grammar.moreArgumentsRule, peekKind_bind] at hrule
  split at hrule
  · next hcomma =>
    simp only [advance_bind] at hrule
    obtain ⟨argument, mid, hargument, hrule⟩ := eq_ok_of_bind hrule
    obtain ⟨others, last, hothers, hrule⟩ := eq_ok_of_bind hrule
    obtain ⟨rfl, rfl⟩ := eq_of_pure hrule
    have hremaining : parser.advance.remaining ≤ n := remaining_advance_le_of_succ hn
    obtain ⟨⟨ts, hts, hderives⟩, -⟩ := h.nextExpr (Nat.le_succ_of_le hremaining) hargument
    have hmid : mid.remaining ≤ n := Nat.le_trans hts.remaining_le hremaining
    obtain ⟨us, hus, htrees⟩ := arguments_cons hderives hts (h.moreArguments hmid hothers)
    exact Or.inr ⟨parser.peek, us, hcomma, hus.cons (by simp [hcomma]), htrees⟩
  · obtain ⟨rfl, rfl⟩ := eq_of_pure hrule
    exact Or.inl ⟨rfl, rfl⟩

/-- The arguments of a call make it, with the parenthesis at which the parser stands. -/
theorem callRule {callee tree : Expr} {ts : List Token} (h : grammar.Sound n)
    (hn : parser.remaining ≤ n + 1) (hcallee : Derives (.expr .call callee) ts)
    (hopening : parser.current.kind = .openParen)
    (hrule : grammar.callRule callee parser = .ok tree later) :
    ∃ us, parser.Passes us later ∧ Derives (.expr .call tree) (ts ++ parser.current :: us) := by
  rw [Grammar.callRule, current_bind] at hrule
  obtain ⟨trees, mid, harguments, hrule⟩ := eq_ok_of_bind hrule
  obtain ⟨rfl, rfl⟩ := eq_of_pure hrule
  rw [Grammar.argumentsRule, peekKind_bind] at harguments
  split at harguments
  · next hclosing =>
    rw [advance_bind] at harguments
    obtain ⟨rfl, rfl⟩ := eq_of_pure harguments
    exact ⟨[parser.peek], .advance (by simp [hclosing]), .callNothing hcallee hopening hclosing⟩
  · rw [advance_bind] at harguments
    obtain ⟨argument, second, hargument, harguments⟩ := eq_ok_of_bind harguments
    obtain ⟨others, third, hothers, harguments⟩ := eq_ok_of_bind harguments
    obtain ⟨_, last, hexpect, harguments⟩ := eq_ok_of_bind harguments
    obtain ⟨hclosing, rfl⟩ := eq_of_expect hexpect
    obtain ⟨rfl, rfl⟩ := eq_of_pure harguments
    obtain ⟨⟨us, hus, hderives⟩, -⟩ := h.nextExpr hn hargument
    have hsecond : second.remaining ≤ n + 1 := Nat.le_trans hus.remaining_le hn
    obtain ⟨vs, hvs, htrees⟩ := arguments_cons hderives hus (h.moreArgumentsRule hsecond hothers)
    have hend : third.Passes [third.peek] third.advance := .advance (by simp [hclosing])
    exact ⟨vs ++ [third.peek], hvs.trans hend, .call hcallee hopening htrees hclosing⟩

/-- **One turn of the precedence loop.** The next token takes the operand on its left, which is
derived at a level that it is not tighter than, and the result is derived at its own level. -/
theorem operatorRule {left tree : Expr} {level : Level} {ts : List Token} (h : grammar.Sound n)
    (hn : parser.remaining ≤ n + 1) (hleft : Derives (.expr level left) ts)
    (hpositive : 0 < parser.peek.kind.power.rank)
    (hlevel : parser.peek.kind.power.rank ≤ level.rank)
    (hrule : grammar.operatorRule parser.peek.kind.power left parser.advance = .ok tree later) :
    ∃ (us : List Token) (own : Level), parser.Passes us later ∧
      Derives (.expr own tree) (ts ++ us) ∧ own.rank = parser.peek.kind.power.rank ∧
      later.peek.kind.power.rank ≤ own.rank ∧ later.remaining ≤ n := by
  have hremaining : parser.advance.remaining ≤ n := remaining_advance_le_of_succ hn
  -- the end of the input has no power
  have hend : parser.peek.kind ≠ .eof := by
    intro heof
    rw [heof] at hpositive
    exact Nat.lt_irrefl 0 hpositive
  rcases TokenKind.operator_or_openParen hpositive with hkind | ⟨own, hkind⟩
  · -- a call
    rw [hkind] at hlevel
    simp only [Grammar.operatorRule, current_bind, current_advance, hkind] at hrule
    obtain ⟨us, hus, hderives⟩ := h.callRule (Nat.le_succ_of_le hremaining)
      (hleft.loosen hlevel) hkind hrule
    exact ⟨parser.peek :: us, .call, hus.cons hend, hderives, by rw [hkind]; rfl,
      Power.rank_le _, Nat.le_trans hus.remaining_le hremaining⟩
  · -- an operator between operands
    obtain ⟨tighter, htighter⟩ := Level.exists_tighter_of_mem hkind
    have hown := Level.rank_power hkind
    have hcurrent : parser.advance.current.kind ∈ own.operators := hkind
    rw [operatorRule_of_mem _ _ hcurrent, Grammar.infixOpRule, current_bind, advance_bind] at hrule
    obtain ⟨right, mid, hright, hrule⟩ := eq_ok_of_bind hrule
    obtain ⟨rfl, rfl⟩ := eq_of_pure hrule
    obtain ⟨⟨us, hus, hderives⟩, hpower⟩ := h.nextExpr (Nat.le_succ_of_le hremaining) hright
    rw [Level.above_power hkind htighter] at hderives
    have hleft' : Derives (.expr own left) ts := hleft.loosen (hown ▸ hlevel)
    exact ⟨parser.peek :: us, own, hus.cons hend, .infixOp htighter hkind hleft' hderives,
      hown.symm, hown ▸ hpower, Nat.le_trans hus.remaining_le hremaining⟩

theorem operatorsRule {power : Power} {left tree : Expr} {level : Level} {ts : List Token}
    (h : grammar.Sound n) (hn : parser.remaining ≤ n + 1)
    (hrule : grammar.operatorsRule power left parser = .ok tree later)
    (hleft : Derives (.expr level left) ts) (hlevel : (Level.above power).rank ≤ level.rank)
    (hpeek : parser.peek.kind.power.rank ≤ level.rank) :
    ∃ us, parser.Passes us later ∧ Derives (.expr (.above power) tree) (ts ++ us) ∧
      later.peek.kind.power ≤ power := by
  rw [Grammar.operatorsRule, peekKind_bind] at hrule
  split at hrule
  · next hpower =>
    -- one turn, and the rest of the loop on what it made
    rw [advance_bind] at hrule
    obtain ⟨middle, mid, hoperator, hrule⟩ := eq_ok_of_bind hrule
    have hpower' := Power.lt_iff_rank.mp hpower
    have hpositive : 0 < parser.peek.kind.power.rank := Nat.zero_lt_of_lt hpower'
    obtain ⟨us, own, hus, hderives, hown, hmid, hremaining⟩ :=
      h.operatorRule hn hleft hpositive hpeek hoperator
    -- the operator has more power than `power`, so its level is within the one asked for
    have habove : (Level.above power).rank ≤ own.rank := by
      have := Level.rank_above_le power
      omega
    obtain ⟨vs, hvs, hderives', hlast⟩ := h.operators hremaining hrule hderives habove hmid
    exact ⟨us ++ vs, hus.trans hvs, List.append_assoc ts us vs ▸ hderives', hlast⟩
  · next hpower =>
    -- the loop stops, and the operand so far is the result
    obtain ⟨rfl, rfl⟩ := eq_of_pure hrule
    refine ⟨[], .refl parser, ?_, Nat.le_of_not_lt hpower⟩
    rw [List.append_nil]
    exact hleft.loosen hlevel

theorem exprRule {power : Power} {tree : Expr} (h : grammar.Sound n)
    (hn : parser.remaining ≤ n + 1) (hrule : grammar.exprRule power parser = .ok tree later) :
    parser.Read (.expr (.above power) tree) later ∧ later.peek.kind.power ≤ power := by
  obtain ⟨left, mid, hoperand, hrule⟩ := eq_ok_of_bind hrule
  -- the invariant of the loop holds for the operand alone
  obtain ⟨level, ⟨ts, hts, hleft⟩, hunary, hpeek⟩ := h.operandRule hn hoperand
  have hmid : mid.remaining ≤ n + 1 := Nat.le_trans hts.remaining_le hn
  have hlevel := Nat.le_trans (Level.rank_above_le_unary power) hunary
  obtain ⟨us, hus, hderives, hlast⟩ := h.operatorsRule hmid hrule hleft hlevel hpeek
  exact ⟨⟨ts ++ us, hts.trans hus, hderives⟩, hlast⟩

/-! ## Statements -/

/-- The end of a statement behind an expression, which the next token does not go on with. -/
theorem endStatement {optional : Bool} {value : Unit} (hpower : parser.peek.kind.power ≤ .lowest)
    (hrule : Rule.endStatement optional parser = .ok value later) :
    ∃ us, parser.Passes us later ∧ Terminator optional us later.peek.kind := by
  rcases eq_of_endStatement hrule with ⟨hkind, rfl⟩ | ⟨-, rfl, hkind⟩
  · exact ⟨[parser.peek], .advance (by simp [hkind]), .semicolon hkind⟩
  · refine ⟨[], .refl parser, ?_⟩
    rcases hkind with hkind | hkind | rfl
    · exact hkind ▸ .beforeBracket
    · exact hkind ▸ .beforeEnd
    · -- `-` and `(` have a power, and the expression would have gone on
      refine .afterBlock ?_ ?_
      · intro hdash
        rw [hdash] at hpower
        exact absurd hpower (by decide)
      · intro hparen
        rw [hparen] at hpower
        exact absurd hpower (by decide)

/-- A value and the end of its statement, from the next token on. -/
theorem nextValue {tree : Expr} {mid : Parser} {value : Unit} (h : grammar.Sound n)
    (hn : parser.remaining ≤ n + 1)
    (hvalue : grammar.exprRule .lowest parser.advance = .ok tree mid)
    (hend : Rule.endStatement tree.endsWithBlock mid = .ok value later) :
    ∃ ts us, parser.Passes (ts ++ us) later ∧ Derives (.expr .equality tree) ts ∧
      Terminator tree.endsWithBlock us later.peek.kind := by
  have hremaining : parser.advance.remaining ≤ n + 1 := remaining_advance_le hn
  obtain ⟨hread, hpower⟩ := h.exprRule hremaining hvalue
  obtain ⟨ts, hts, hderives⟩ := hread.next not_begins_expr
  obtain ⟨us, hus, hterminator⟩ := endStatement hpower hend
  exact ⟨ts, us, hts.trans hus, hderives, hterminator⟩

theorem letRule {tree : Stmt} (h : grammar.Sound n) (hn : parser.remaining ≤ n + 1)
    (hword : parser.current.kind = .letKw) (hrule : grammar.letRule parser = .ok tree later) :
    parser.Read (.statement later.peek.kind tree) later := by
  rw [Grammar.letRule, Grammar.letOf, current_bind] at hrule
  obtain ⟨_, first, hexpect, hrule⟩ := eq_ok_of_bind hrule
  obtain ⟨hname, rfl⟩ := eq_of_expect hexpect
  rw [identifierRule_bind] at hrule
  obtain ⟨_, second, hexpect, hrule⟩ := eq_ok_of_bind hrule
  obtain ⟨hassign, rfl⟩ := eq_of_expect hexpect
  rw [advance_bind] at hrule
  obtain ⟨value, third, hvalue, hrule⟩ := eq_ok_of_bind hrule
  obtain ⟨_, last, hend, hrule⟩ := eq_ok_of_bind hrule
  obtain ⟨rfl, rfl⟩ := eq_of_pure hrule
  have hremaining : parser.advance.advance.remaining ≤ n + 1 :=
    remaining_advance_le (remaining_advance_le hn)
  obtain ⟨ts, us, hpasses, hderives, hterminator⟩ := h.nextValue hremaining hvalue hend
  have hbefore := (Passes.cons (by simp [hassign]) hpasses).cons (by simp [hname])
  exact ⟨_, hbefore, .letBinding hword hname hassign hderives hterminator⟩

theorem returnRule {tree : Stmt} (h : grammar.Sound n) (hn : parser.remaining ≤ n + 1)
    (hword : parser.current.kind = .returnKw)
    (hrule : grammar.returnRule parser = .ok tree later) :
    parser.Read (.statement later.peek.kind tree) later := by
  rw [Grammar.returnRule, Grammar.returnOf, current_bind, peekKind_bind] at hrule
  -- without a value the next token ends the statement, so it has no power
  have hnothing : parser.peek.kind.power ≤ .lowest →
      (do
        Rule.endStatement false
        pure (.returnValue parser.current none) : Rule Stmt) parser = .ok tree later →
      parser.Read (.statement later.peek.kind tree) later := by
    intro hpower hrule
    obtain ⟨_, mid, hend, hrule⟩ := eq_ok_of_bind hrule
    obtain ⟨rfl, rfl⟩ := eq_of_pure hrule
    obtain ⟨us, hus, hterminator⟩ := endStatement hpower hend
    exact ⟨us, hus, .returnNothing hword hterminator⟩
  cases hkind : parser.peek.kind with
  | semicolon | closeCurly | eof =>
    rw [hkind] at hrule
    exact hnothing (by rw [hkind]; decide) hrule
  | _ =>
    simp only [hkind, advance_bind] at hrule
    obtain ⟨value, mid, hvalue, hrule⟩ := eq_ok_of_bind hrule
    obtain ⟨_, last, hend, hrule⟩ := eq_ok_of_bind hrule
    obtain ⟨rfl, rfl⟩ := eq_of_pure hrule
    obtain ⟨ts, us, hpasses, hderives, hterminator⟩ := h.nextValue hn hvalue hend
    exact ⟨_, hpasses, .returnValue hword hderives hterminator⟩

theorem expressionRule {tree : Stmt} (h : grammar.Sound n) (hn : parser.remaining ≤ n + 1)
    (hrule : grammar.expressionRule parser = .ok tree later) :
    parser.Read (.statement later.peek.kind tree) later := by
  rw [Grammar.expressionRule, Grammar.expressionOf, current_bind] at hrule
  obtain ⟨value, mid, hvalue, hrule⟩ := eq_ok_of_bind hrule
  obtain ⟨_, last, hend, hrule⟩ := eq_ok_of_bind hrule
  obtain ⟨rfl, rfl⟩ := eq_of_pure hrule
  -- the loop has stopped at a token of no power, which is what the end is found by
  obtain ⟨⟨ts, hts, hderives⟩, hpower⟩ := h.exprRule hn hvalue
  obtain ⟨us, hus, hterminator⟩ := endStatement hpower hend
  exact ⟨ts ++ us, hts.trans hus, .expression hderives hterminator⟩

theorem blockStatementRule {tree : Stmt} (h : grammar.Sound n) (hn : parser.remaining ≤ n + 1)
    (hopening : parser.current.kind = .openCurly)
    (hrule : grammar.blockStatementRule parser = .ok tree later) :
    parser.Read (.statement later.peek.kind tree) later := by
  obtain ⟨block, mid, hblock, hrule⟩ := eq_ok_of_bind hrule
  obtain ⟨_, last, hend, hrule⟩ := eq_ok_of_bind hrule
  obtain ⟨rfl, rfl⟩ := eq_of_pure hrule
  obtain ⟨ts, hts, hderives⟩ := h.blockRule hn hopening hblock
  rcases eq_of_endStatement hend with ⟨hkind, rfl⟩ | ⟨hkind, rfl, -⟩
  · have hsemicolon : mid.Passes [mid.peek] mid.advance := .advance (by simp [hkind])
    exact ⟨ts ++ [mid.peek], hts.trans hsemicolon, .blockSemicolon hderives hkind⟩
  · exact ⟨ts, hts, .blockOnly hderives hkind⟩

/-- **A statement that is read is derived**, in front of the token that follows it. -/
theorem statementRule {tree : Stmt} (h : grammar.Sound n) (hn : parser.remaining ≤ n + 1)
    (hrule : grammar.statementRule parser = .ok tree later) :
    parser.Read (.statement later.peek.kind tree) later := by
  rw [Grammar.statementRule, Grammar.statementOf, current_bind] at hrule
  cases hkind : parser.current.kind with
  | letKw =>
    rw [hkind] at hrule
    exact h.letRule hn hkind hrule
  | returnKw =>
    rw [hkind] at hrule
    exact h.returnRule hn hkind hrule
  | openCurly =>
    rw [hkind] at hrule
    exact h.blockStatementRule hn hkind hrule
  | _ =>
    rw [hkind] at hrule
    exact h.expressionRule hn hrule

theorem statement_cons {trees : List Stmt} (h : grammar.Sound n) (hn : parser.remaining ≤ n + 1)
    (hrule : (do
      let statement ← grammar.statementRule
      Rule.advance
      let others ← grammar.statements
      pure (statement :: others) : Rule (List Stmt)) parser = .ok trees later) :
    ∃ ts closing, ts ++ [closing] <+: parser.ahead ∧ closing.kind = .closeCurly ∧
      later = parser.skip ts.length ∧ Derives (.statements .closeCurly trees) ts := by
  obtain ⟨statement, mid, hstatement, hrule⟩ := eq_ok_of_bind hrule
  rw [advance_bind] at hrule
  obtain ⟨others, last, hothers, hrule⟩ := eq_ok_of_bind hrule
  obtain ⟨rfl, rfl⟩ := eq_of_pure hrule
  obtain ⟨ts, hts, hderives⟩ := h.statementRule hn hstatement
  have hremaining : mid.advance.remaining ≤ n :=
    remaining_advance_le_of_succ (Nat.le_trans hts.remaining_le hn)
  obtain ⟨us, closing, hus, hclosing, rfl, htrees⟩ := h.statements hremaining hothers
  -- the others begin where the statement was read up to, so it was derived in front of them
  have hnext : mid.peek.kind = firstKind us .closeCurly := by
    obtain ⟨rest, hrest⟩ := hus
    rw [← current_advance, kind_current, ← hrest, firstKind_append, firstKind_append,
      firstKind_cons, hclosing]
  -- no statement begins with the end of the input, so its first token is one of those ahead
  have hahead : parser.ahead = parser.current :: parser.ahead.tail := by
    apply ahead_eq_cons
    intro heof
    have hbegins := hderives.begins .eof
    rw [firstKind_cons, heof] at hbegins
    exact absurd hbegins (by simp [Phrase.Begins, TokenKind.beginsStatement, TokenKind.beginsExpr])
  refine ⟨parser.current :: ts ++ us, closing, ?_, hclosing, ?_, .cons (hnext ▸ hderives) htrees⟩
  · rw [hts.ahead_advance] at hus
    have hfront := append_prefix hts.ahead hus
    rw [hahead, List.cons_append, List.cons_append, List.append_assoc]
    exact List.cons_prefix_cons.mpr ⟨rfl, hfront⟩
  · rw [hts.eq_skip, advance_skip, skip_skip]
    congr 1
    simp only [List.cons_append, List.length_cons, List.length_append]
    omega

theorem statementsRule {trees : List Stmt} (h : grammar.Sound n) (hn : parser.remaining ≤ n + 1)
    (hrule : grammar.statementsRule parser = .ok trees later) :
    ∃ ts closing, ts ++ [closing] <+: parser.ahead ∧ closing.kind = .closeCurly ∧
      later = parser.skip ts.length ∧ Derives (.statements .closeCurly trees) ts := by
  rw [Grammar.statementsRule, Grammar.statementsOf, current_bind] at hrule
  cases hkind : parser.current.kind with
  | closeCurly =>
    rw [hkind] at hrule
    obtain ⟨rfl, rfl⟩ := eq_of_pure hrule
    have hahead : parser.ahead = parser.current :: parser.advance.ahead :=
      ahead_eq_cons (by simp [hkind])
    exact ⟨[], parser.current, ⟨parser.advance.ahead, hahead.symm⟩, hkind, rfl, .nil⟩
  | eof =>
    rw [hkind] at hrule
    cases hrule
  | _ =>
    rw [hkind] at hrule
    exact h.statement_cons hn hrule

/-! ## The grammar of an input -/

theorem step (h : grammar.Sound n) : grammar.step.Sound (n + 1) where
  expr := h.exprRule
  operators := h.operatorsRule
  moreArguments := h.moreArgumentsRule
  moreParameters := h.moreParametersRule
  statements := h.statementsRule

end Grammar.Sound

namespace Grammar

/-- At the end of the input nothing is read but what may be empty. -/
theorem sound_atEnd : atEnd.Sound 0 where
  expr _ hrule := by cases hrule
  operators := by
    intro power left parser later tree level ts hn hrule hleft hlevel _
    obtain ⟨rfl, rfl⟩ := Rule.eq_of_pure hrule
    refine ⟨[], .refl parser, ?_, ?_⟩
    · rw [List.append_nil]
      exact hleft.loosen hlevel
    · -- nothing is ahead, so the next token is the end of the input, which has no power
      have hnil : parser.ahead = [] := List.length_eq_zero_iff.mp (Nat.le_zero.mp hn)
      have hkind : parser.peek.kind = .eof := by
        simp [Parser.peek, Parser.endToken, hnil]
      rw [hkind]
      exact Nat.zero_le _
  moreArguments _ hrule := by
    obtain ⟨rfl, rfl⟩ := Rule.eq_of_pure hrule
    exact Or.inl ⟨rfl, rfl⟩
  moreParameters _ hrule := by
    obtain ⟨rfl, rfl⟩ := Rule.eq_of_pure hrule
    exact Or.inl ⟨rfl, rfl⟩
  statements _ hrule := by cases hrule

/-- **The grammar of an input is sound.** -/
theorem sound_upTo (n : Nat) : (upTo n).Sound n := by
  induction n with
  | zero => exact sound_atEnd
  | succ n ih => exact ih.step

end Grammar

/-! ## The statements of a source

A statement is read at the top level or inside a block, over a grammar whose bound covers what is
left, and always from a place in the tokens of the source. -/

/-- The tokens of a source are those ahead of the parser on it and the end of the input. -/
theorem tokenize_eq (source : String) :
    tokenize source = (Parser.ofSource source).ahead ++ [(Parser.ofSource source).endToken] :=
  tokenize_eq_pending source

/-- What is read from the current token to a last one splits what is ahead. -/
theorem Parser.Read.exists_split {parser later : Parser} {phrase : Phrase}
    (h : parser.Read phrase later) (hend : ¬ phrase.Begins .eof) :
    ∃ init last rest, parser.ahead = init ++ last :: rest ∧
      later = { parser with ahead := last :: rest } ∧ Derives phrase (init ++ [last]) := by
  obtain ⟨ts, ⟨hfront, rfl⟩, hderives⟩ := h
  have hkind : parser.current.kind ≠ .eof := by
    intro heof
    have hbegins := hderives.begins .eof
    rw [firstKind_cons, heof] at hbegins
    exact hend hbegins
  -- the current token and those behind it, the last of them apart
  obtain ⟨init, last, hlast⟩ : ∃ init last, parser.current :: ts = init ++ [last] :=
    ⟨_, _, (List.dropLast_concat_getLast (List.cons_ne_nil parser.current ts)).symm⟩
  have hlength : ts.length = init.length := by
    have := congrArg List.length hlast
    simpa using this
  obtain ⟨rest, hrest⟩ := hfront
  have hahead : parser.ahead = init ++ last :: rest := by
    rw [Parser.ahead_eq_cons hkind, Parser.ahead_advance, ← hrest, ← List.cons_append, hlast,
      List.append_assoc, List.singleton_append]
  refine ⟨init, last, rest, hahead, ?_, hlast ▸ hderives⟩
  rw [Parser.skip, hahead, hlength, List.drop_left]

/-- **The parser is sound for the grammar.** Wherever in the tokens of a source a statement is read,
with any blocks open and any diagnostics found before, the tokens from the one at which the parser
stands to the one at which it stops, both included, are the statement, derived in front of the token
that follows them, and the tree is that of the derivation. -/
theorem Grammar.statementRule_derives {source : String} {n : Nat} {parser later : Parser}
    {tree : Stmt} (hahead : parser.ahead <:+ (Parser.ofSource source).ahead)
    (hn : parser.remaining ≤ n) (hrule : (upTo n).statementRule parser = .ok tree later) :
    ∃ before init last rest,
      tokenize source =
        before ++ (init ++ [last]) ++ rest ++ [(Parser.ofSource source).endToken] ∧
      parser.ahead = init ++ last :: rest ∧
      later = { parser with ahead := last :: rest } ∧
      Derives (.statement (firstKind rest .eof) tree) (init ++ [last]) := by
  have hread := (sound_upTo n).statementRule (Nat.le_succ_of_le hn) hrule
  have hend : ¬ (Phrase.statement later.peek.kind tree).Begins .eof := Bool.false_ne_true
  obtain ⟨init, last, rest, hsplit, rfl, hderives⟩ := hread.exists_split hend
  have hnext : firstKind rest .eof = (Parser.peek { parser with ahead := last :: rest }).kind := by
    rw [← Parser.current_advance, Parser.kind_current]
    rfl
  obtain ⟨before, hbefore⟩ := hahead
  refine ⟨before, init, last, rest, ?_, hsplit, rfl, hnext ▸ hderives⟩
  rw [tokenize_eq, ← hbefore, hsplit]
  simp

/-- The first statement of a block, read with the block open. -/
theorem Grammar.statementRule_derives_in_block :
    ∃ parser tree later, parser.openBlocks = 1 ∧
      parser.ahead <:+ (Parser.ofSource "\x7b if (a) \x7b\x7d b \x7d").ahead ∧
      parser.remaining ≤ 8 ∧ (upTo 8).statementRule parser = .ok tree later ∧
      ∃ before init last rest,
        tokenize "\x7b if (a) \x7b\x7d b \x7d" = before ++ (init ++ [last]) ++ rest ++
          [(Parser.ofSource "\x7b if (a) \x7b\x7d b \x7d").endToken] ∧
        parser.ahead = init ++ last :: rest ∧
        later = { parser with ahead := last :: rest } ∧
        Derives (.statement (firstKind rest .eof) tree) (init ++ [last]) := by
  have hahead : (Parser.ofSource "\x7b if (a) \x7b\x7d b \x7d").enterBlock.advance.ahead <:+
      (Parser.ofSource "\x7b if (a) \x7b\x7d b \x7d").ahead := by
    rw [Parser.ahead_advance]
    exact List.tail_suffix _
  refine ⟨_, _, _, rfl, hahead, by decide, rfl, ?_⟩
  exact statementRule_derives (n := 8) hahead (by decide) rfl

end MonkeySyntax
