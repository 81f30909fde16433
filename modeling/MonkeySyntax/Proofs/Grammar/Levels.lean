import MonkeySyntax.Proofs.Grammar.Descent
import MonkeySyntax.Proofs.Grammar.Soundness
import MonkeySyntax.Proofs.Parser.Unbounded

/-!
# MonkeySyntax — one loop over powers, or one for each level

An expression is read by one loop, which compares the power of the next token with the one that it
was given. This module takes that loop apart into the loops of the levels.

* **`Grammar.loops`** — the loops over the tokens of some powers, one behind the other.
* **`Grammar.operators_eq`** — the loop over powers is these loops, the highest power first. What
  takes an operand on its left leaves nothing of a higher power (`power_peek_le_of_apply`), so no
  loop is come back to once a lower one has started.
* **`Grammar.levelRule_above`** — so what is read at a power is the level above it, over the grammar
  without a bound. `Grammar.levelStep_unboundedLevels` closes the circle: this grammar is made from
  itself by the rules of the levels, and `Grammar.agree_levelled` compares the two by induction.
* **`parseExpr_eq_parseLevel`** — the two parsers do the same on every input.
-/

namespace MonkeySyntax

namespace Grammar

open Rule MonkeySyntax.Parser

/-! ## The loops of the levels -/

/-- The kinds of the tokens of a power, if they can follow an operand. -/
def kindsOf : Power → List TokenKind
  | .lowest | .unary => []
  | .equality => [.equal, .notEqual]
  | .relational => [.less, .greater]
  | .additive => [.plus, .dash]
  | .multiplicative => [.star, .slash]
  | .call => [.openParen]

theorem mem_kindsOf {power : Power} {kind : TokenKind} :
    kind ∈ kindsOf power ↔ kind.power = power ∧ power ≠ .lowest := by
  cases power <;> cases kind <;> decide

/-- What a token of a power makes of the operand on its left. -/
def apply : Power → Expr → Rule Expr
  | .call => unbounded.callRule
  | power => unbounded.infixOpRule power

/-- What the next token makes of it, when the parser has moved there. -/
theorem operatorRule_eq_apply {parser : Parser} (left : Expr)
    (h : parser.peek.kind.power ≠ .lowest) :
    unbounded.operatorRule parser.peek.kind.power left parser.advance =
      apply parser.peek.kind.power left parser.advance := by
  rw [operatorRule, current_bind, current_advance]
  generalize parser.peek.kind = kind at h
  cases kind <;> first | rfl | exact absurd rfl h

/-- The loop over the tokens of one power. -/
def loop (power : Power) : Expr → Rule Expr :=
  fold (kindsOf power) (apply power)

/-- The loops over the tokens of these powers, one behind the other. -/
def loops : List Power → Expr → Rule Expr
  | [], left => pure left
  | power :: powers, left => do
    let left ← loop power left
    loops powers left

/-- The powers above one, the highest first. -/
def above (power : Power) : List Power :=
  [.call, .multiplicative, .additive, .relational, .equality].filter (power < ·)

/-- A power above one has its place among those above, behind the higher ones. -/
theorem exists_above_eq {power : Power} {kind : TokenKind} (h : power < kind.power) :
    ∃ higher lower, above power = higher ++ kind.power :: lower ∧
      ∀ other ∈ higher, kind.power < other := by
  have hall : kind.power ∈ [.call, .multiplicative, .additive, .relational, .equality] := by
    have hne := Power.ne_lowest_of_lt h
    cases kind <;> first | exact absurd rfl hne | decide
  have hsorted : (above power).Pairwise (fun first second => second < first) :=
    List.Pairwise.filter _ (by decide)
  have hmem : kind.power ∈ above power := List.mem_filter.mpr ⟨hall, decide_eq_true h⟩
  obtain ⟨higher, lower, hsplit⟩ := List.append_of_mem hmem
  rw [hsplit] at hsorted
  exact ⟨higher, lower, hsplit, fun other hother =>
    (List.pairwise_append.mp hsorted).2.2 other hother _ List.mem_cons_self⟩

/-! ## One turn -/

theorem agree_unbounded_self (n : Nat) : Agree n unbounded unbounded :=
  (agree_unbounded n).symm.trans (agree_unbounded n)

theorem agree_apply (power : Power) (n : Nat) (left : Expr) :
    Rule.Agree n (apply power left) (apply power left) := by
  have hself := agree_unbounded_self n
  have hinfix : ∀ power, Rule.Agree n (unbounded.infixOpRule power left)
      (unbounded.infixOpRule power left) := fun power =>
    ((RuleName.infixOp power left).agree hself).mono n.le_succ
  cases power with
  | call => exact ((RuleName.call left).agree hself).mono n.le_succ
  | _ => exact hinfix _

/-- Behind an expression that is read at a power, no token of a higher power comes next. -/
theorem power_peek_le {power : Power} {parser later : Parser} {tree : Expr}
    (h : unbounded.expr power parser = .ok tree later) : later.peek.kind.power ≤ power := by
  have hbound := ((agree_unbounded parser.remaining).expr power parser (Nat.le_refl _)).1
  exact ((sound_upTo parser.remaining).expr (Nat.le_refl _) (hbound.trans h)).2

theorem remaining_le_of_apply {power : Power} {left tree : Expr} {parser later : Parser}
    (h : apply power left parser = .ok tree later) : later.remaining ≤ parser.remaining := by
  have honward := (agree_apply power parser.remaining left parser (Nat.le_refl _)).2
  unfold leaves at honward
  rw [h] at honward
  exact honward.remaining_le

/-- The end of the input has no power, so a token that has is used up. -/
theorem remaining_advance_lt_of_power {parser : Parser} (h : parser.peek.kind.power ≠ .lowest) :
    parser.advance.remaining < parser.remaining := by
  cases hahead : parser.ahead with
  | nil => exact absurd (by simp [Parser.peek, endToken, hahead]; rfl) h
  | cons token rest => simp [remaining, hahead]

/-- The turn of a loop to which the next token belongs. -/
theorem foldStep_eq {parser : Parser} (next : Expr → Rule Expr) (left : Expr)
    (h : parser.peek.kind.power ≠ .lowest) :
    foldStep (kindsOf parser.peek.kind.power) (apply parser.peek.kind.power) next left parser =
      (apply parser.peek.kind.power left >>= next) parser.advance := by
  rw [foldStep, peekKind_bind, if_pos (mem_kindsOf.mpr ⟨rfl, h⟩), advance_bind]

/-- **The invariant of the loop:** what takes an operand on its left leaves nothing of a higher
power. -/
theorem power_peek_le_of_apply {power : Power} {left tree : Expr} {parser later : Parser}
    (h : apply power left parser = .ok tree later) : later.peek.kind.power ≤ power := by
  have hinfix : ∀ power, unbounded.infixOpRule power left parser = .ok tree later →
      later.peek.kind.power ≤ power := by
    intro power h
    rw [infixOpRule, current_bind, advance_bind] at h
    obtain ⟨right, mid, hright, h⟩ := eq_ok_of_bind h
    obtain ⟨-, rfl⟩ := eq_of_pure h
    exact power_peek_le hright
  cases power with
  | call => exact Power.rank_le _
  | _ => exact hinfix _ h

theorem loop_eq (power : Power) (left : Expr) :
    loop power left = foldStep (kindsOf power) (apply power) (loop power) left :=
  fold_eq (by cases power <;> decide) (fun n left => agree_apply power n left) left

theorem loops_singleton (power : Power) : loops [power] = loop power := by
  funext left
  rw [loops]
  exact bind_pure _

/-- Where a token of none of these powers comes next, the loops have nothing to do. -/
theorem loops_of_not_mem {powers : List Power} {parser : Parser}
    (h : parser.peek.kind.power ∉ powers) (left : Expr) :
    loops powers left parser = .ok left parser := by
  induction powers with
  | nil => rfl
  | cons power powers ih =>
    have hloop : loop power left parser = .ok left parser := by
      have hnot : parser.peek.kind ∉ kindsOf power := fun hmem =>
        h ((mem_kindsOf.mp hmem).1 ▸ List.mem_cons_self)
      rw [loop_eq, foldStep, peekKind_bind, if_neg hnot]
      rfl
    rw [loops, bind_of_ok hloop]
    exact ih fun hmem => h (List.mem_cons_of_mem power hmem)

theorem loops_append (powers others : List Power) (left : Expr) :
    loops (powers ++ others) left = loops powers left >>= loops others := by
  induction powers generalizing left with
  | nil => rw [List.nil_append, loops, pure_bind]
  | cons power powers ih =>
    rw [List.cons_append, loops, loops, bind_assoc]
    exact congrArg (loop power left >>= ·) (funext ih)

/-- **The loop over powers is the loops of the levels**, one behind the other. -/
theorem operators_eq (power : Power) (left : Expr) (parser : Parser) :
    unbounded.operators power left parser = loops (above power) left parser := by
  rw [operators_unbounded, operatorsRule, peekKind_bind]
  by_cases hlt : power < parser.peek.kind.power
  · rw [if_pos hlt]
    obtain ⟨higher, lower, habove, hhigher⟩ := exists_above_eq hlt
    have hturn := foldStep_eq (loop parser.peek.kind.power) left (Power.ne_lowest_of_lt hlt)
    have htake := operatorRule_eq_apply left (Power.ne_lowest_of_lt hlt)
    have hless := remaining_advance_lt_of_power (Power.ne_lowest_of_lt hlt)
    generalize hown : parser.peek.kind.power = own at *
    -- where nothing higher comes next, the loops start with that of the next token
    have hloops : ∀ (left : Expr) (other : Parser), other.peek.kind.power ≤ own →
        loops (above power) left other = (loop own left >>= loops lower) other := by
      intro left other hother
      have hskip : loops higher left other = .ok left other :=
        loops_of_not_mem (fun hmem => Nat.not_lt_of_le hother (hhigher _ hmem)) left
      rw [habove, loops_append, bind_of_ok hskip]
      rfl
    have hfirst : loops (above power) left parser =
        (apply own left >>= fun tree => loop own tree >>= loops lower) parser.advance := by
      rw [hloops left parser (Nat.le_of_eq (congrArg Power.rank hown)), loop_eq, bind_apply, hturn,
        ← bind_apply, bind_assoc]
    rw [advance_bind, hfirst, bind_apply, htake, ← bind_apply]
    -- what is left of the loop over powers starts where nothing higher comes next
    refine bind_eq_bind fun tree later htree => ?_
    have hremaining : later.remaining < parser.remaining :=
      Nat.lt_of_le_of_lt (remaining_le_of_apply htree) hless
    rw [operators_eq power tree later, hloops tree later (power_peek_le_of_apply htree)]
  · rw [if_neg hlt]
    refine (loops_of_not_mem ?_ left).symm
    intro hmem
    exact hlt (of_decide_eq_true (List.mem_filter.mp hmem).2)
termination_by parser.remaining

/-! ## Expressions of a level -/

/-- An expression is an operand and the loops above its power. -/
theorem expr_eq (power : Power) :
    unbounded.expr power = unbounded.operandRule >>= loops (above power) := by
  rw [expr_unbounded, exprRule]
  refine congrArg (unbounded.operandRule >>= ·) (funext fun left => ?_)
  rw [← operators_unbounded]
  exact funext (operators_eq power left)

/-- With one more loop, that of the next higher power, an expression is read at a power lower. -/
theorem expr_eq_bind_loop {power higher : Power} (h : above power = above higher ++ [higher]) :
    unbounded.expr power = unbounded.expr higher >>= loop higher := by
  rw [expr_eq, expr_eq, h, bind_assoc]
  refine congrArg (unbounded.operandRule >>= ·) (funext fun left => ?_)
  rw [loops_append, loops_singleton]

/-- An operator before an operand is read with all calls of the operand. -/
theorem power_peek_le_of_prefixOp {parser later : Parser} {tree : Expr}
    (h : unbounded.prefixOpRule parser = .ok tree later) : later.peek.kind.power ≤ .unary := by
  rw [prefixOpRule, current_bind, advance_bind] at h
  obtain ⟨right, mid, hright, h⟩ := eq_ok_of_bind h
  obtain ⟨-, rfl⟩ := eq_of_pure h
  exact power_peek_le hright

theorem unaryLevel_eq : unbounded.unaryLevel = unbounded.expr .unary := by
  have hcall : unbounded.expr .call = unbounded.operandRule := (expr_eq .call).trans (bind_pure _)
  rw [expr_eq_bind_loop (by decide : above .unary = above .call ++ [.call]), hcall]
  funext parser
  cases hkind : parser.current.kind with
  | bang | dash =>
    have hunary : unbounded.unaryLevel parser = unbounded.prefixOpRule parser := by
      rw [unaryLevel, current_bind, hkind]
    have hoperand : unbounded.operandRule parser = unbounded.prefixOpRule parser := by
      rw [operandRule, current_bind, hkind]
    rw [hunary, bind_apply, hoperand]
    -- the loop over calls has nothing to do
    cases htree : unbounded.prefixOpRule parser with
    | error diagnostic later => rfl
    | ok tree later =>
      have hnot : later.peek.kind.power ∉ [Power.call] := by
        intro hmem
        have hpower := power_peek_le_of_prefixOp htree
        rw [List.mem_singleton.mp hmem] at hpower
        exact absurd hpower (by decide)
      have hloop := loops_of_not_mem hnot tree
      rw [loops_singleton] at hloop
      exact hloop.symm
  | _ =>
    have hunary : unbounded.unaryLevel parser = unbounded.callLevel parser := by
      rw [unaryLevel, current_bind, hkind]
    have hoperand : unbounded.operandRule parser = unbounded.primaryLevel parser := by
      rw [operandRule, primaryLevel, current_bind, current_bind, hkind]
    rw [hunary, callLevel, bind_apply, bind_apply, hoperand]
    rfl

/-- **An expression of a level is one of the power below.** -/
theorem levelRule_above {power : Power} (h : power ≠ .call) :
    unbounded.levelRule (.above power) = unbounded.expr power := by
  have hunary : unbounded.unaryLevel = unbounded.expr .multiplicative := by
    rw [unaryLevel_eq, expr_eq, expr_eq]
    rfl
  have hmultiplicative : unbounded.multiplicativeLevel = unbounded.expr .additive := by
    rw [expr_eq_bind_loop (by decide : above .additive = above .multiplicative ++ [.multiplicative]),
      multiplicativeLevel, hunary]
    rfl
  have hadditive : unbounded.additiveLevel = unbounded.expr .relational := by
    rw [expr_eq_bind_loop (by decide : above .relational = above .additive ++ [.additive]),
      additiveLevel, hmultiplicative]
    rfl
  have hrelational : unbounded.relationalLevel = unbounded.expr .equality := by
    rw [expr_eq_bind_loop (by decide : above .equality = above .relational ++ [.relational]),
      relationalLevel, hadditive]
    rfl
  cases power with
  | lowest =>
    rw [expr_eq_bind_loop (by decide : above .lowest = above .equality ++ [.equality])]
    show unbounded.equalityLevel = _
    rw [equalityLevel, hrelational]
    rfl
  | equality => exact hrelational
  | relational => exact hadditive
  | additive => exact hmultiplicative
  | multiplicative => exact hunary
  | unary => exact unaryLevel_eq
  | call => exact absurd rfl h

/-! ## The parser of levels -/

/-- The phrases of `unbounded` as the levels ask for them: what follows an operator before an operand
has its calls, and no operators are left to be taken. -/
def unboundedLevels : Grammar where
  expr
    | .call => unbounded.expr .unary
    | power => unbounded.expr power
  operators _ left := pure left
  moreArguments := unbounded.moreArguments
  moreParameters := unbounded.moreParameters
  statements := unbounded.statements

theorem levelRule_unboundedLevels (level : Level) :
    unboundedLevels.levelRule level = unbounded.levelRule level := by
  cases level <;> rfl

/-- **The phrases are made from themselves by the rules of the levels, too.** -/
theorem levelStep_unboundedLevels : unboundedLevels.levelStep = unboundedLevels := by
  have hexpr : ∀ power, unboundedLevels.levelRule (.above power) = unboundedLevels.expr power := by
    intro power
    rw [levelRule_unboundedLevels]
    cases power with
    | call => exact unaryLevel_eq
    | _ => exact levelRule_above (by decide)
  have hvalue : unboundedLevels.equalityLevel = unbounded.exprRule .lowest :=
    (hexpr .lowest).trans (expr_unbounded .lowest)
  have hstatements : unboundedLevels.levelStep.statements = unboundedLevels.statements := by
    show statementsOf (statementOf unboundedLevels.equalityLevel _) _ = unbounded.statements
    rw [hvalue, statements_unbounded]
    rfl
  unfold levelStep at hstatements ⊢
  congr 1
  · exact funext hexpr
  · exact moreArguments_unbounded.symm
  · exact moreParameters_unbounded.symm

theorem agree_levelled (n : Nat) : Agree n (levelled n) unboundedLevels := by
  induction n with
  | zero =>
    have hbase := agree_unbounded 0
    refine ⟨fun power => ?_, fun power left => .pure left, hbase.moreArguments,
      hbase.moreParameters, hbase.statements⟩
    cases power with
    | call => exact hbase.expr .unary
    | _ => exact hbase.expr _
  | succ n ih =>
    rw [← levelStep_unboundedLevels]
    exact ih.levelStep

end Grammar

namespace Parser

/-- **The bound of the levels does not show.** -/
theorem parseLevel_eq (level : Level) : parseLevel level = Grammar.unboundedLevels.levelRule level := by
  funext parser
  have hagree := (Grammar.agree_levelled parser.remaining).levelRule level
  exact (hagree parser (Nat.le_succ _)).1

/-- The phrases nested in those of a level are of a level again. -/
theorem expr_unboundedLevels (power : Power) :
    Grammar.unboundedLevels.expr power = parseLevel (.above power) := by
  rw [parseLevel_eq]
  exact congrArg (Grammar.expr · power) Grammar.levelStep_unboundedLevels.symm

/-- A level with operators between operands is read over the next tighter one. -/
theorem parseLevel_infix {level tighter : Level} (h : level.tighter? = some tighter)
    (hadds : level.operators ≠ []) :
    parseLevel level = Grammar.infixLevel level (parseLevel tighter) := by
  rw [parseLevel_eq, parseLevel_eq]
  cases level <;> cases h <;> first | rfl | exact absurd rfl hadds

/-- The powers but that of calls are read as levels. -/
theorem parseExpr_eq {power : Power} (h : power ≠ .call) :
    parseExpr power = parseLevel (.above power) := by
  have hrule : parseExpr power = Grammar.unbounded.exprRule power :=
    reading_eq (.expr power)
  rw [hrule, ← Grammar.expr_unbounded, ← Grammar.levelRule_above h, parseLevel_eq,
    Grammar.levelRule_unboundedLevels]

end Parser

/-- **One loop that compares powers does what a parser with a rule for each level does**, whatever
tokens are ahead and however many blocks are open: it gives the same tree or the same diagnostic and
leaves the same parser. -/
theorem parseExpr_eq_parseLevel (parser : Parser) :
    Parser.parseExpr .lowest parser = Parser.parseLevel .equality parser ∧
      Parser.parseExpr .equality parser = Parser.parseLevel .relational parser ∧
      Parser.parseExpr .relational parser = Parser.parseLevel .additive parser ∧
      Parser.parseExpr .additive parser = Parser.parseLevel .multiplicative parser ∧
      Parser.parseExpr .multiplicative parser = Parser.parseLevel .unary parser ∧
      Parser.parseExpr .unary parser = Parser.parseLevel .unary parser := by
  have hlevel : ∀ power ≠ .call,
      Parser.parseExpr power parser = Parser.parseLevel (.above power) parser :=
    fun power hpower => congrFun (Parser.parseExpr_eq hpower) parser
  exact ⟨hlevel .lowest (by decide), hlevel .equality (by decide), hlevel .relational (by decide),
    hlevel .additive (by decide), hlevel .multiplicative (by decide), hlevel .unary (by decide)⟩

end MonkeySyntax
