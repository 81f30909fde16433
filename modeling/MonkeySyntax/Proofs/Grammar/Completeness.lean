import MonkeySyntax.Proofs.Grammar.Precedence
import MonkeySyntax.Proofs.Parser.Facing
import MonkeySyntax.Proofs.Parser.Unbounded

/-!
# MonkeySyntax — what is derived is read

In front of the tokens of a phrase the rule for it succeeds, whatever comes behind them as long as
it may come there, and gives the tree of the derivation.

* **`Phrase.IsRead phrase ts`** — what the rule for the phrase does in front of the tokens `ts`. For
  an expression this is not to stop at the last of them but to be in the precedence loop there, with
  the tree as the left operand: the same tokens may be the operand of a longer expression.
* **`Stmt.IsReadUpTo optional tree ts`** — the same for the statement that begins with `ts`, in
  whatever way it ends. Only where it ends without a semicolon does it matter what comes next.
* **`Derives.isRead`** — the tokens of every derivation are read. There is one lemma for each way to
  derive a phrase, from its parts to the whole.
-/

namespace MonkeySyntax

open Grammar Rule MonkeySyntax.Parser

/-! ## Rules in front of a phrase -/

/-- Whether a statement can stand in front of a token of this kind. -/
def TokenKind.followsStatement (kind : TokenKind) : Bool :=
  kind.beginsStatement || kind = .closeCurly || kind = .eof

/-- A token of this kind goes on neither with an expression of the level nor with an `if`. -/
def TokenKind.Stops (kind : TokenKind) (level : Level) : Prop :=
  kind.power.rank ≤ level.rank ∧ kind ≠ .elseKw

/-- What the rule for the phrase does in front of the tokens `ts`. -/
def Phrase.IsRead : Phrase → List Token → Prop
  | .expr level tree, ts => ∀ ⦃parser : Parser⦄ ⦃rest : List Token⦄ ⦃power : Power⦄,
      parser.Faces ts rest → power ≠ .call → (Level.above power).rank ≤ level.rank →
      (firstKind rest .eof).Stops level →
      unbounded.expr power parser = unbounded.operators power tree (parser.toLast ts)
  | .arguments trees, ts => ∀ ⦃parser : Parser⦄ ⦃rest : List Token⦄,
      parser.Faces ts rest → firstKind rest .eof = .closeParen →
      ∃ argument others mid, trees = argument :: others ∧
        unbounded.expr .lowest parser = .ok argument mid ∧
        unbounded.moreArgumentsRule mid = .ok others (parser.toLast ts)
  | .block tree, ts => ∀ ⦃parser : Parser⦄ ⦃rest : List Token⦄,
      parser.Faces ts rest → unbounded.blockRule parser = .ok tree (parser.toLast ts)
  | .statement next tree, ts => ∀ ⦃parser : Parser⦄ ⦃rest : List Token⦄,
      parser.Faces ts rest → firstKind rest .eof = next → next.followsStatement = true →
      unbounded.statementRule parser = .ok tree (parser.toLast ts)
  | .statements next trees, ts => ∀ ⦃parser : Parser⦄ ⦃rest : List Token⦄,
      parser.Faces ts rest → firstKind rest .eof = next → next = .closeCurly →
      unbounded.statements parser = .ok trees (parser.skip ts.length)

/-- What the rule does in front of the tokens `ts` of the statement and those that end it. Behind a
semicolon any token may follow. -/
def Stmt.IsReadUpTo (optional : Bool) (tree : Stmt) (ts : List Token) : Prop :=
  ∀ ⦃parser : Parser⦄ ⦃us rest : List Token⦄, parser.Faces (ts ++ us) rest →
    Terminator optional us (firstKind rest .eof) →
    (us = [] → (firstKind rest .eof).followsStatement = true) →
    unbounded.statementRule parser = .ok tree (parser.toLast (ts ++ us))

namespace Phrase.IsRead

variable {level tighter : Level} {tree left right callee value : Expr} {ts us vs : List Token}

/-! ## The precedence loop -/

theorem operators_stop {power : Power} {parser : Parser}
    (h : parser.peek.kind.power.rank ≤ power.rank) :
    unbounded.operators power left parser = .ok left parser := by
  have hnot : ¬ power < parser.peek.kind.power := Nat.not_lt.mpr h
  rw [operators_unbounded, operatorsRule, peekKind_bind, if_neg hnot]
  rfl

theorem operators_go {power : Power} {parser later : Parser}
    (h : power < parser.peek.kind.power)
    (hoperator : unbounded.operatorRule parser.peek.kind.power left parser.advance =
      .ok tree later) :
    unbounded.operators power left parser = unbounded.operators power tree later := by
  rw [operators_unbounded, operatorsRule, peekKind_bind, if_pos h, advance_bind,
    bind_of_ok hoperator, operators_unbounded]

theorem expr_of_operand {power : Power} {parser later : Parser}
    (h : unbounded.operandRule parser = .ok tree later) :
    unbounded.expr power parser = unbounded.operators power tree later := by
  rw [expr_unbounded, exprRule, bind_of_ok h, operators_unbounded]

theorem expr_ok {power : Power} {parser : Parser} {rest : List Token}
    (h : (Phrase.expr level tree).IsRead ts) (hts : ts ≠ []) (hfaces : parser.Faces ts rest)
    (hpower : power ≠ .call) (hlevel : (Level.above power).rank ≤ level.rank)
    (hnext : (firstKind rest .eof).power.rank ≤ power.rank)
    (helse : firstKind rest .eof ≠ .elseKw) (hle : power.rank ≤ level.rank) :
    unbounded.expr power parser = .ok tree (parser.toLast ts) := by
  rw [h hfaces hpower hlevel ⟨Nat.le_trans hnext hle, helse⟩]
  apply operators_stop
  rw [hfaces.kind_peek_toLast hts]
  exact hnext

/-! ## Operators -/

theorem infixOp {operator : Token} (htighter : level.tighter? = some tighter)
    (hkind : operator.kind ∈ level.operators) (hts : ts ≠ []) (hus : us ≠ [])
    (hleft : (Phrase.expr level left).IsRead ts) (hright : (Phrase.expr tighter right).IsRead us) :
    (Phrase.expr level (.infixOp operator left operator.literal right)).IsRead
      (ts ++ operator :: us) := by
  intro parser rest power hfaces hpower hlevel ⟨hnext, helse⟩
  have hrank := Level.rank_power hkind
  have htight := Level.rank_of_tighter? htighter
  -- the left operand, behind which the operator is next
  have hpeek : (parser.toLast ts).peek.kind = operator.kind := hfaces.left.kind_peek_toLast hts
  have hgo : power < (parser.toLast ts).peek.kind.power := hpeek ▸ Level.lt_power hkind hlevel
  rw [hleft hfaces.left hpower hlevel ⟨Nat.le_of_eq hrank, Level.ne_elseKw hkind⟩]
  -- the right operand, up to a token of no more power than the operator
  have hoperator : (parser.skip ts.length).Faces (operator :: us) rest := hfaces.skip
  have hmem : (parser.skip ts.length).current.kind ∈ level.operators :=
    hoperator.current ▸ hkind
  have hread : unbounded.expr operator.kind.power (parser.skip ts.length).advance =
      .ok right ((parser.skip ts.length).advance.toLast us) := by
    have habove : (Level.above operator.kind.power).rank ≤ tighter.rank :=
      Nat.le_of_eq (congrArg Level.rank (Level.above_power hkind htighter))
    exact hright.expr_ok hus hoperator.advance (Level.power_ne_call hkind) habove
      (hrank ▸ hnext) helse (by omega)
  apply operators_go hgo
  rw [advance_toLast hts, hpeek, operatorRule_of_mem _ _ hmem, infixOpRule, current_bind,
    advance_bind, bind_of_ok hread, hoperator.current, toLast_cons hus,
    toLast_append (List.cons_ne_nil operator us)]
  rfl

theorem ofTighter (htighter : level.tighter? = some tighter)
    (h : (Phrase.expr tighter tree).IsRead ts) : (Phrase.expr level tree).IsRead ts := by
  intro parser rest power hfaces hpower hlevel ⟨hnext, helse⟩
  have hrank := Level.rank_of_tighter? htighter
  exact h hfaces hpower (by omega) ⟨by omega, helse⟩

theorem prefixOp {operator : Token} (hkind : operator.kind = .bang ∨ operator.kind = .dash)
    (hts : ts ≠ []) (hright : (Phrase.expr .unary right).IsRead ts) :
    (Phrase.expr .unary (.prefixOp operator operator.literal right)).IsRead (operator :: ts) := by
  intro parser rest power hfaces _ _ ⟨hnext, helse⟩
  apply expr_of_operand
  -- the operand is read for more power than `.unary`, which no token behind the whole has
  have hread : unbounded.expr .unary parser.advance = .ok right (parser.advance.toLast ts) :=
    hright.expr_ok hts hfaces.advance (by decide) (by decide) hnext helse (by decide)
  have hrule : unbounded.operandRule parser = unbounded.prefixOpRule parser := by
    rw [operandRule, current_bind, hfaces.current]
    rcases hkind with hkind | hkind <;> rw [hkind]
  rw [hrule, prefixOpRule, current_bind, advance_bind, bind_of_ok hread, hfaces.current,
    toLast_cons hts]
  rfl

/-! ## Calls -/

theorem expr_lowest {parser : Parser} {rest : List Token}
    (h : (Phrase.expr .equality tree).IsRead ts) (hts : ts ≠ []) (hfaces : parser.Faces ts rest)
    (hnext : (firstKind rest .eof).power = .lowest) (helse : firstKind rest .eof ≠ .elseKw) :
    unbounded.expr .lowest parser = .ok tree (parser.toLast ts) :=
  h.expr_ok hts hfaces (by decide) (by decide) (Nat.le_of_eq (congrArg Power.rank hnext)) helse
    (by decide)

theorem lastArgument (hts : ts ≠ []) (h : (Phrase.expr .equality tree).IsRead ts) :
    (Phrase.arguments [tree]).IsRead ts := by
  intro parser rest hfaces hnext
  have hread := h.expr_lowest hts hfaces (by rw [hnext]; rfl) (by simp [hnext])
  refine ⟨tree, [], _, rfl, hread, ?_⟩
  rw [moreArgumentsRule, peekKind_bind, hfaces.kind_peek_toLast hts, hnext, if_neg (by decide)]
  rfl

theorem consArgument {trees : List Expr} {comma : Token} (hts : ts ≠ []) (hus : us ≠ [])
    (hcomma : comma.kind = .comma) (h : (Phrase.expr .equality tree).IsRead ts)
    (hothers : (Phrase.arguments trees).IsRead us) :
    (Phrase.arguments (tree :: trees)).IsRead (ts ++ comma :: us) := by
  intro parser rest hfaces hnext
  have hpeek : (parser.toLast ts).peek.kind = .comma :=
    (hfaces.left.kind_peek_toLast hts).trans hcomma
  have hread := h.expr_lowest hts hfaces.left (by simp [hcomma]; rfl) (by simp [hcomma])
  -- the others begin with an expression, which the rule reads behind the comma
  obtain ⟨argument, others, mid, rfl, hargument, hmore⟩ := hothers hfaces.skip.advance hnext
  refine ⟨tree, argument :: others, _, rfl, hread, ?_⟩
  rw [moreArgumentsRule, peekKind_bind, if_pos hpeek, advance_bind, advance_bind,
    advance_toLast hts, bind_of_ok hargument, moreArguments_unbounded, bind_of_ok hmore,
    toLast_cons hus, toLast_append (List.cons_ne_nil comma us)]
  rfl

theorem argumentsRule_ok {trees : List Expr} {opening closing : Token} {parser : Parser}
    {rest : List Token} (hus : us ≠ []) (hfirst : firstKind us .eof ≠ .closeParen)
    (hclosing : closing.kind = .closeParen) (h : (Phrase.arguments trees).IsRead us)
    (hfaces : parser.Faces (opening :: (us ++ [closing])) rest) :
    unbounded.argumentsRule parser = .ok trees (parser.toLast (opening :: (us ++ [closing]))) := by
  have hinner : parser.advance.Faces us (closing :: rest) := hfaces.advance.left
  obtain ⟨argument, others, mid, rfl, hargument, hmore⟩ := h hinner hclosing
  -- without this the list would be taken for empty
  have hpeek : parser.peek.kind ≠ .closeParen := by
    rw [hfaces.kind_peek, firstKind_append, firstKind_of_ne_nil hus _ .eof]
    exact hfirst
  have hend : (parser.advance.toLast us).peek.kind = .closeParen :=
    (hinner.kind_peek_toLast hus).trans hclosing
  rw [argumentsRule, peekKind_bind, if_neg hpeek, advance_bind, bind_of_ok hargument,
    bind_of_ok hmore, bind_of_ok (expect_of_kind hend), advance_toLast hus, advance_eq_skip,
    skip_skip, toLast]
  simp [pure_apply, Nat.add_comm]

theorem call_of_arguments {trees : List Expr} {opening : Token}
    (hts : ts ≠ []) (hopening : opening.kind = .openParen)
    (hcallee : (Phrase.expr .call callee).IsRead ts)
    (harguments : ∀ {parser : Parser} {rest : List Token}, parser.Faces (opening :: us) rest →
      unbounded.argumentsRule parser = .ok trees (parser.toLast (opening :: us))) :
    (Phrase.expr .call (.call opening callee trees)).IsRead (ts ++ opening :: us) := by
  intro parser rest power hfaces hpower hlevel _
  have hpeek : (parser.toLast ts).peek.kind = .openParen :=
    (hfaces.left.kind_peek_toLast hts).trans hopening
  -- a call has the most power, so that the loop takes it at any other
  have hgo : power < (parser.toLast ts).peek.kind.power := by
    rw [hpeek]
    revert hpower
    cases power <;> decide
  have hnext : opening.kind.Stops .call := by
    rw [hopening]
    exact ⟨by decide, by decide⟩
  rw [hcallee hfaces.left hpower hlevel hnext]
  apply operators_go hgo
  have hfaces' : (parser.skip ts.length).Faces (opening :: us) rest := hfaces.skip
  rw [advance_toLast hts, operatorRule, current_bind, hfaces'.current, hopening]
  simp only [callRule, current_bind, hfaces'.current]
  rw [bind_of_ok (harguments hfaces'), toLast_append (List.cons_ne_nil opening us)]
  rfl

theorem argumentsRule_nothing {opening closing : Token} {parser : Parser} {rest : List Token}
    (hclosing : closing.kind = .closeParen) (hfaces : parser.Faces [opening, closing] rest) :
    unbounded.argumentsRule parser = .ok [] (parser.toLast [opening, closing]) := by
  have hpeek : parser.peek.kind = .closeParen := hfaces.kind_peek.trans hclosing
  rw [argumentsRule, peekKind_bind, if_pos hpeek, advance_bind, advance_eq_skip]
  rfl

/-! ## Primary operands -/

/-- Nothing is added to a primary operand before the loop. -/
theorem of_operandRule
    (h : ∀ {parser : Parser} {rest : List Token}, parser.Faces ts rest →
      firstKind rest .eof ≠ .elseKw → unbounded.operandRule parser = .ok tree (parser.toLast ts)) :
    (Phrase.expr .primary tree).IsRead ts :=
  fun _ _ _ hfaces _ _ hnext => expr_of_operand (h hfaces hnext.2)

theorem identifier {name : Token} (hname : name.kind = .identifier) :
    (Phrase.expr .primary (.identifier ⟨name, name.literal⟩)).IsRead [name] := by
  apply of_operandRule
  intro parser rest hfaces _
  rw [operandRule, current_bind, hfaces.current, hname]
  simp only [identifierRule_bind, hfaces.current]
  rfl

theorem integer {number : Token} (hnumber : number.kind = .integer)
    (hrange : decimalValue number.literal.toList ≤ largestInteger) :
    (Phrase.expr .primary (.integer number (decimalValue number.literal.toList))).IsRead
      [number] := by
  apply of_operandRule
  intro parser rest hfaces _
  -- only here the text of a token matters: one of this kind has no digit missing
  obtain ⟨hnil, hdigits⟩ := (hfaces.lexical number List.mem_cons_self).isNumber hnumber
  have hvalue := integerValue?_eq_some_iff.mpr ⟨hnil, List.all_eq_true.mpr hdigits, hrange, rfl⟩
  rw [operandRule, current_bind, hfaces.current, hnumber]
  simp only [integerRule, current_bind, hfaces.current, hvalue]
  rfl

theorem boolean {word : Token} {truth : Bool}
    (hword : word.kind = .trueKw ∧ truth = true ∨ word.kind = .falseKw ∧ truth = false) :
    (Phrase.expr .primary (.boolean word truth)).IsRead [word] := by
  apply of_operandRule
  intro parser rest hfaces _
  rw [operandRule, current_bind, hfaces.current]
  rcases hword with ⟨hword, rfl⟩ | ⟨hword, rfl⟩ <;>
    simp only [hword, booleanRule, current_bind, hfaces.current] <;> rfl

theorem group {opening closing : Token} (hopening : opening.kind = .openParen)
    (hclosing : closing.kind = .closeParen) (hts : ts ≠ [])
    (h : (Phrase.expr .equality tree).IsRead ts) :
    (Phrase.expr .primary tree).IsRead (opening :: (ts ++ [closing])) := by
  apply of_operandRule
  intro parser rest hfaces _
  have hinner : parser.advance.Faces ts (closing :: rest) := hfaces.advance.left
  have hread := h.expr_lowest hts hinner (by simp [hclosing]; rfl) (by simp [hclosing])
  have hend : (parser.advance.toLast ts).peek.kind = .closeParen :=
    (hinner.kind_peek_toLast hts).trans hclosing
  rw [operandRule, current_bind, hfaces.current, hopening]
  simp only [groupRule, advance_bind]
  rw [bind_of_ok hread, bind_of_ok (expect_of_kind hend), advance_toLast hts, advance_eq_skip,
    skip_skip, toLast]
  simp [pure_apply, Nat.add_comm]

/-! ## Blocks -/

theorem block {trees : List Stmt} {opening closing : Token}
    (hclosing : closing.kind = .closeCurly)
    (h : (Phrase.statements .closeCurly trees).IsRead ts) :
    (Phrase.block (.mk opening trees)).IsRead (opening :: (ts ++ [closing])) := by
  intro parser rest hfaces
  have hinner : parser.enterBlock.advance.Faces ts (closing :: rest) :=
    hfaces.enterBlock.advance.left
  rw [blockRule, current_bind, enterBlock_bind, advance_bind, bind_of_ok (h hinner hclosing rfl),
    leaveBlock_bind, leaveBlock_skip, hfaces.current, toLast]
  simp [pure_apply]

theorem nextBlock {body : Block} {parser : Parser} {rest : List Token} {token : Token}
    (h : (Phrase.block body).IsRead us) (hus : us ≠ [])
    (hfaces : parser.Faces (token :: us) rest) :
    unbounded.blockRule parser.advance = .ok body (parser.toLast (token :: us)) := by
  rw [h hfaces.advance, toLast_cons hus]

/-- An `if` up to the block after its condition. -/
theorem ifElseRule_ok {word opening closing : Token} {consequence : Block}
    {alternative : Option Block} {parser later : Parser} {rest : List Token}
    (hopening : opening.kind = .openParen) (hclosing : closing.kind = .closeParen)
    (hts : ts ≠ []) (hus : us ≠ []) (hcurly : firstKind us .eof = .openCurly)
    (hcondition : (Phrase.expr .equality tree).IsRead ts)
    (hconsequence : (Phrase.block consequence).IsRead us)
    (hfaces : parser.Faces (word :: opening :: (ts ++ closing :: us)) rest)
    (halternative : unbounded.alternativeRule
      (parser.toLast (word :: opening :: (ts ++ closing :: us))) = .ok alternative later) :
    unbounded.ifElseRule parser = .ok (.ifElse word tree consequence alternative) later := by
  have hpeek : parser.peek.kind = .openParen := hfaces.kind_peek.trans hopening
  -- the condition between its parentheses
  have hinner : parser.advance.advance.Faces (ts ++ closing :: us) rest := hfaces.advance.advance
  have hread := hcondition.expr_lowest hts hinner.left (by simp [hclosing]; rfl)
    (by simp [hclosing])
  have hend : (parser.advance.advance.toLast ts).peek.kind = .closeParen :=
    (hinner.left.kind_peek_toLast hts).trans hclosing
  -- the block
  have hblock : (parser.advance.advance.skip ts.length).Faces (closing :: us) rest := hinner.skip
  have hcurly' : (parser.advance.advance.skip ts.length).peek.kind = .openCurly := by
    rw [hblock.kind_peek, firstKind_of_ne_nil hus _ .eof]
    exact hcurly
  have hconsequence' := hconsequence.nextBlock hus hblock
  rw [toLast_append (List.cons_ne_nil closing us), toLast_cons (by simp),
    toLast_cons (List.cons_ne_nil opening _)] at hconsequence'
  rw [ifElseRule, current_bind, bind_of_ok (expect_of_kind hpeek), advance_bind,
    bind_of_ok hread, bind_of_ok (expect_of_kind hend), advance_toLast hts,
    bind_of_ok (expect_of_kind hcurly'), bind_of_ok hconsequence', bind_of_ok halternative,
    hfaces.current]
  rfl

theorem operandRule_if {parser : Parser} (h : parser.current.kind = .ifKw) :
    unbounded.operandRule parser = unbounded.ifElseRule parser := by
  rw [operandRule, current_bind, h]

theorem ifOnly {word opening closing : Token} {consequence : Block} (hword : word.kind = .ifKw)
    (hopening : opening.kind = .openParen) (hclosing : closing.kind = .closeParen)
    (hts : ts ≠ []) (hus : us ≠ []) (hcurly : firstKind us .eof = .openCurly)
    (hcondition : (Phrase.expr .equality tree).IsRead ts)
    (hconsequence : (Phrase.block consequence).IsRead us) :
    (Phrase.expr .primary (.ifElse word tree consequence none)).IsRead
      (word :: opening :: (ts ++ closing :: us)) := by
  apply of_operandRule
  intro parser rest hfaces helse
  rw [operandRule_if (hfaces.current ▸ hword)]
  refine ifElseRule_ok hopening hclosing hts hus hcurly hcondition hconsequence hfaces ?_
  -- what comes behind is no `else`, which would be taken for one of this `if`
  have hpeek : (parser.toLast (word :: opening :: (ts ++ closing :: us))).peek.kind ≠ .elseKw := by
    rw [hfaces.kind_peek_toLast (List.cons_ne_nil word _)]
    exact helse
  rw [alternativeRule, peekKind_bind, if_neg hpeek]
  rfl

theorem ifElse {word opening closing otherwise : Token} {consequence alternative : Block}
    (hword : word.kind = .ifKw) (hopening : opening.kind = .openParen)
    (hclosing : closing.kind = .closeParen) (hotherwise : otherwise.kind = .elseKw)
    (hts : ts ≠ []) (hus : us ≠ []) (hcurly : firstKind us .eof = .openCurly)
    (hvs : vs ≠ []) (hcurly' : firstKind vs .eof = .openCurly)
    (hcondition : (Phrase.expr .equality tree).IsRead ts)
    (hconsequence : (Phrase.block consequence).IsRead us)
    (halternative : (Phrase.block alternative).IsRead vs) :
    (Phrase.expr .primary (.ifElse word tree consequence (some alternative))).IsRead
      (word :: opening :: (ts ++ closing :: (us ++ otherwise :: vs))) := by
  apply of_operandRule
  intro parser rest hfaces _
  rw [operandRule_if (hfaces.current ▸ hword)]
  -- what is before `else`, and what is from there on
  obtain ⟨before, hbefore⟩ : ∃ before, before = word :: opening :: (ts ++ closing :: us) :=
    ⟨_, rfl⟩
  have hsplit : word :: opening :: (ts ++ closing :: (us ++ otherwise :: vs)) =
      before ++ otherwise :: vs := by
    simp [hbefore]
  have hne : before ≠ [] := by simp [hbefore]
  rw [hsplit] at hfaces ⊢
  refine ifElseRule_ok hopening hclosing hts hus hcurly hcondition hconsequence
    (hbefore ▸ hfaces.left) ?_
  rw [← hbefore]
  have helse : (parser.toLast before).peek.kind = .elseKw :=
    (hfaces.left.kind_peek_toLast hne).trans hotherwise
  have hpeek : (parser.skip before.length).peek.kind = .openCurly := by
    rw [hfaces.skip.kind_peek, firstKind_of_ne_nil hvs _ .eof]
    exact hcurly'
  rw [alternativeRule, peekKind_bind, if_pos helse, advance_bind, advance_toLast hne,
    bind_of_ok (expect_of_kind hpeek), bind_of_ok (halternative.nextBlock hvs hfaces.skip),
    toLast_append (List.cons_ne_nil otherwise vs)]
  rfl

/-! ## Functions -/

theorem moreParametersRule_ok {names : List Identifier} (h : Names ts names) :
    ∃ (name : Token) (later : List Token) (others : List Identifier),
      ts = name :: later ∧ name.kind = .identifier ∧ names = ⟨name, name.literal⟩ :: others ∧
      ∀ {parser : Parser} {rest : List Token}, parser.Faces ts rest →
        firstKind rest .eof ≠ .comma →
        unbounded.moreParametersRule parser = .ok others (parser.toLast ts) := by
  -- the rule starts at a name and gives those behind it, so the first one is split off
  induction h with
  | @last name hname =>
    refine ⟨name, [], [], rfl, hname, rfl, ?_⟩
    intro parser rest hfaces hnext
    have hpeek : parser.peek.kind ≠ .comma := by
      rw [hfaces.kind_peek]
      exact hnext
    rw [moreParametersRule, peekKind_bind, if_neg hpeek]
    rfl
  | @cons name comma ts names hname hcomma _ ih =>
    obtain ⟨second, later, others, rfl, hsecond, rfl, hmore⟩ := ih
    refine ⟨name, _, _, rfl, hname, rfl, ?_⟩
    intro parser rest hfaces hnext
    have hpeek : parser.peek.kind = .comma := hfaces.kind_peek.trans hcomma
    have hpeek' : parser.advance.peek.kind = .identifier :=
      hfaces.advance.kind_peek.trans hsecond
    have hfaces' : parser.advance.advance.Faces (second :: later) rest := hfaces.advance.advance
    rw [moreParametersRule, peekKind_bind, if_pos hpeek, advance_bind,
      bind_of_ok (expect_of_kind hpeek'), identifierRule_bind, moreParameters_unbounded,
      bind_of_ok (hmore hfaces' hnext), hfaces'.current,
      toLast_cons (List.cons_ne_nil second later), toLast_cons (List.cons_ne_nil comma _)]
    rfl

theorem parametersRule_ok {names : List Identifier} {opening closing : Token} {parser : Parser}
    {rest : List Token} (hclosing : closing.kind = .closeParen) (h : Parameters ts names)
    (hfaces : parser.Faces (opening :: (ts ++ [closing])) rest) :
    unbounded.parametersRule parser = .ok names (parser.skip (opening :: ts).length) := by
  rcases h with ⟨rfl, rfl⟩ | h
  · have hpeek : parser.peek.kind = .closeParen := hfaces.kind_peek.trans hclosing
    rw [parametersRule, peekKind_bind, if_pos hpeek, advance_bind, advance_eq_skip]
    rfl
  · obtain ⟨name, later, others, rfl, hname, rfl, hmore⟩ := moreParametersRule_ok h
    have hpeek : parser.peek.kind = .identifier := hfaces.kind_peek.trans hname
    have hnot : parser.peek.kind ≠ .closeParen := by simp [hpeek]
    have hinner : parser.advance.Faces (name :: later) (closing :: rest) := hfaces.advance.left
    have hne : name :: later ≠ [] := List.cons_ne_nil name later
    have hend : (parser.advance.toLast (name :: later)).peek.kind = .closeParen :=
      (hinner.kind_peek_toLast hne).trans hclosing
    rw [parametersRule, peekKind_bind, if_neg hnot, bind_of_ok (expect_of_kind hpeek),
      identifierRule_bind, bind_of_ok (hmore hinner (by simp [hclosing])),
      bind_of_ok (expect_of_kind hend), advance_toLast hne, advance_eq_skip, skip_skip,
      ← advance_eq_skip, hinner.current, Nat.add_comm]
    rfl

theorem function {word opening closing : Token} {parameters : List Identifier} {body : Block}
    (hword : word.kind = .fnKw) (hopening : opening.kind = .openParen)
    (hparameters : Parameters ts parameters) (hclosing : closing.kind = .closeParen)
    (hus : us ≠ []) (hcurly : firstKind us .eof = .openCurly)
    (hbody : (Phrase.block body).IsRead us) :
    (Phrase.expr .primary (.function word parameters body)).IsRead
      (word :: opening :: (ts ++ closing :: us)) := by
  apply of_operandRule
  intro parser rest hfaces _
  have hpeek : parser.peek.kind = .openParen := hfaces.kind_peek.trans hopening
  -- the same tokens, split behind the closing parenthesis and before it
  have hparameters' : parser.advance.Faces (opening :: (ts ++ [closing]) ++ us) rest := by
    simpa using hfaces.advance
  have hinner : parser.advance.Faces (opening :: (ts ++ [closing])) (us ++ rest) :=
    hparameters'.left
  have hbehind : parser.advance.Faces (opening :: ts ++ closing :: us) rest := hfaces.advance
  have hclosing' : (parser.advance.skip (opening :: ts).length).Faces (closing :: us) rest :=
    hbehind.skip
  have hcurly' : (parser.advance.skip (opening :: ts).length).peek.kind = .openCurly := by
    rw [hclosing'.kind_peek, firstKind_of_ne_nil hus _ .eof]
    exact hcurly
  have hblock := hbody.nextBlock hus hclosing'
  rw [toLast_append (List.cons_ne_nil closing us), List.cons_append,
    toLast_cons (List.cons_ne_nil opening _)] at hblock
  rw [operandRule, current_bind, hfaces.current, hword]
  simp only [functionRule, current_bind]
  rw [bind_of_ok (expect_of_kind hpeek), bind_of_ok (parametersRule_ok hclosing hparameters hinner),
    bind_of_ok (expect_of_kind hcurly'), bind_of_ok hblock, hfaces.current]
  rfl

/-! ## The end of a statement -/

/-- A statement that may end before the next token ends its expression there. -/
theorem power_of_terminator {optional : Bool} {next : TokenKind}
    (hend : Terminator optional us next) (hfollows : us = [] → next.followsStatement = true) :
    (firstKind us next).power = .lowest ∧ firstKind us next ≠ .elseKw := by
  cases hend with
  | semicolon h =>
    rw [firstKind_cons, h]
    exact ⟨rfl, by decide⟩
  | beforeBracket | beforeEnd => exact ⟨rfl, by decide⟩
  | afterBlock hdash hparen =>
    -- of the tokens that a statement can begin with, only `-` and `(` have a power
    have hnext := hfollows rfl
    cases next <;> first | exact ⟨rfl, by decide⟩ | simp_all [TokenKind.followsStatement,
      TokenKind.beginsStatement, TokenKind.beginsExpr]

theorem endStatement_semicolon {optional : Bool} {parser : Parser}
    (h : parser.peek.kind = .semicolon) :
    endStatement optional parser = .ok () parser.advance := by
  rw [endStatement_apply, h]

theorem endStatement_optional {parser : Parser} (h : parser.peek.kind ≠ .semicolon) :
    endStatement true parser = .ok () parser := by
  rw [endStatement_apply]
  split
  · next hkind => exact absurd hkind h
  · rfl
  · rfl
  · rfl

theorem endStatement_ok {optional : Bool} {next : TokenKind} {parser : Parser}
    {rest : List Token} (hts : ts ≠ []) (hfaces : parser.Faces (ts ++ us) rest)
    (hend : Terminator optional us next) (hnext : firstKind rest .eof = next)
    (hfollows : us = [] → next.followsStatement = true) :
    endStatement optional (parser.toLast ts) = .ok () (parser.toLast (ts ++ us)) := by
  have hpeek : (parser.toLast ts).peek.kind = firstKind us next := by
    rw [hfaces.left.kind_peek_toLast hts, firstKind_append, hnext]
  cases hend with
  | semicolon h =>
    rw [endStatement_semicolon (hpeek.trans h), advance_toLast hts,
      ← toLast_append (List.cons_ne_nil _ []), toLast_singleton]
  | beforeBracket | beforeEnd => rw [endStatement_apply, hpeek, List.append_nil]; rfl
  | afterBlock hdash hparen =>
    -- a semicolon would be taken here, but no statement begins with one
    have hsemicolon : (parser.toLast ts).peek.kind ≠ .semicolon := by
      intro hkind
      rw [hpeek, firstKind_nil] at hkind
      have hnext := hfollows rfl
      rw [hkind] at hnext
      exact absurd hnext (by decide)
    rw [endStatement_optional hsemicolon, List.append_nil]

/-- The value of a statement up to the end of the statement. -/
theorem value_ok {optional : Bool} {next : TokenKind} {parser : Parser} {rest : List Token}
    (h : (Phrase.expr .equality value).IsRead ts) (hts : ts ≠ [])
    (hfaces : parser.Faces (ts ++ us) rest) (hend : Terminator optional us next)
    (hnext : firstKind rest .eof = next) (hfollows : us = [] → next.followsStatement = true) :
    unbounded.exprRule .lowest parser = .ok value (parser.toLast ts) := by
  obtain ⟨hpower, helse⟩ := power_of_terminator hend hfollows
  rw [← expr_unbounded]
  apply h.expr_lowest hts hfaces.left
  · rw [firstKind_append, hnext, hpower]
  · rw [firstKind_append, hnext]
    exact helse

/-! ## Statements -/

theorem letBinding {word name assign : Token} (hword : word.kind = .letKw)
    (hname : name.kind = .identifier) (hassign : assign.kind = .assign) (hts : ts ≠ [])
    (h : (Phrase.expr .equality value).IsRead ts) :
    (Stmt.letBinding word ⟨name, name.literal⟩ value).IsReadUpTo value.endsWithBlock
      (word :: name :: assign :: ts) := by
  intro parser us rest hfaces hend hfollows
  have hpeek : parser.peek.kind = .identifier := hfaces.kind_peek.trans hname
  have hpeek' : parser.advance.peek.kind = .assign := hfaces.advance.kind_peek.trans hassign
  have hvalue : parser.advance.advance.advance.Faces (ts ++ us) rest :=
    hfaces.advance.advance.advance
  have hne : ts ++ us ≠ [] := by simp [hts]
  rw [statementRule, statementOf, current_bind, hfaces.current, hword]
  simp only [letOf, current_bind]
  rw [bind_of_ok (expect_of_kind hpeek), identifierRule_bind, bind_of_ok (expect_of_kind hpeek'),
    advance_bind, bind_of_ok (h.value_ok hts hvalue hend rfl hfollows),
    bind_of_ok (endStatement_ok hts hvalue hend rfl hfollows), hfaces.current,
    hfaces.advance.current, toLast_cons hne, toLast_cons (List.cons_ne_nil assign _),
    toLast_cons (List.cons_ne_nil name _)]
  rfl

theorem returnNothing {word : Token} (hword : word.kind = .returnKw) :
    (Stmt.returnValue word none).IsReadUpTo false [word] := by
  intro parser us rest hfaces hend hfollows
  have hpeek : parser.peek.kind = firstKind us (firstKind rest .eof) := hfaces.kind_peek
  have hdone : endStatement false parser = .ok () (parser.toLast (word :: us)) :=
    endStatement_ok (List.cons_ne_nil word []) hfaces hend rfl hfollows
  -- the end of the statement is next, so no value is read
  have hrule : unbounded.returnRule parser =
      (do
        endStatement false
        pure (.returnValue parser.current none) : Rule Stmt) parser := by
    rw [returnRule, returnOf, current_bind, peekKind_bind, hpeek]
    generalize firstKind rest .eof = next at hend
    cases hend with
    | semicolon h => rw [firstKind_cons, h]
    | beforeBracket | beforeEnd => rfl
  rw [statementRule, statementOf, current_bind, hfaces.current, hword]
  refine hrule.trans ?_
  rw [bind_of_ok hdone, hfaces.current]
  rfl

theorem returnValue {word : Token} (hword : word.kind = .returnKw) (hts : ts ≠ [])
    (hfirst : (firstKind ts .eof).beginsExpr = true)
    (h : (Phrase.expr .equality value).IsRead ts) :
    (Stmt.returnValue word (some value)).IsReadUpTo value.endsWithBlock (word :: ts) := by
  intro parser us rest hfaces hend hfollows
  have hvalue : parser.advance.Faces (ts ++ us) rest := hfaces.advance
  have hpeek : parser.peek.kind.beginsExpr = true := by
    rw [← current_advance, hvalue.left.kind_current, firstKind_of_ne_nil hts _ .eof]
    exact hfirst
  have hne : ts ++ us ≠ [] := by simp [hts]
  -- no token with which a value begins ends the statement
  have hrule : unbounded.returnRule parser =
      (do
        advance
        let value ← unbounded.exprRule .lowest
        endStatement value.endsWithBlock
        pure (.returnValue parser.current (some value)) : Rule Stmt) parser := by
    rw [returnRule, returnOf, current_bind, peekKind_bind]
    generalize parser.peek.kind = kind at hpeek
    cases kind <;> first | rfl | exact absurd hpeek (by decide)
  rw [statementRule, statementOf, current_bind, hfaces.current, hword]
  refine hrule.trans ?_
  rw [advance_bind, bind_of_ok (h.value_ok hts hvalue hend rfl hfollows),
    bind_of_ok (endStatement_ok hts hvalue hend rfl hfollows), hfaces.current, toLast_cons hne]
  rfl

theorem expression {first : Token} (hfirst : first.kind.beginsExpr = true)
    (h : (Phrase.expr .equality value).IsRead (first :: ts)) :
    (Stmt.expression first value).IsReadUpTo value.endsWithBlock (first :: ts) := by
  intro parser us rest hfaces hend hfollows
  have hne := List.cons_ne_nil first ts
  -- no token with which an expression begins chooses another rule
  have hrule : unbounded.statementRule parser = unbounded.expressionRule parser := by
    rw [statementRule, statementOf, current_bind, hfaces.current]
    generalize first.kind = kind at hfirst
    cases kind <;> first | rfl | exact absurd hfirst (by decide)
  rw [hrule, expressionRule, expressionOf, current_bind,
    bind_of_ok (h.value_ok hne hfaces hend rfl hfollows),
    bind_of_ok (endStatement_ok hne hfaces hend rfl hfollows), hfaces.current]
  rfl

theorem statementRule_block {parser : Parser} (h : parser.current.kind = .openCurly) :
    unbounded.statementRule parser = unbounded.blockStatementRule parser := by
  rw [statementRule, statementOf, current_bind, h]

theorem blockOnly {body : Block} {next : TokenKind} (hts : ts ≠ [])
    (hcurly : firstKind ts .eof = .openCurly) (h : (Phrase.block body).IsRead ts)
    (hsemicolon : next ≠ .semicolon) : (Phrase.statement next (.block body)).IsRead ts := by
  intro parser rest hfaces hnext _
  have hcurrent : parser.current.kind = .openCurly := by
    rw [hfaces.kind_current, firstKind_of_ne_nil hts _ .eof, hcurly]
  have hpeek : (parser.toLast ts).peek.kind ≠ .semicolon := by
    rw [hfaces.kind_peek_toLast hts, hnext]
    exact hsemicolon
  rw [statementRule_block hcurrent, blockStatementRule, bind_of_ok (h hfaces),
    bind_of_ok (endStatement_optional hpeek)]
  rfl

theorem blockSemicolon {body : Block} {semicolon : Token} {parser : Parser} {rest : List Token}
    (hts : ts ≠ []) (hcurly : firstKind ts .eof = .openCurly) (h : (Phrase.block body).IsRead ts)
    (hsemicolon : semicolon.kind = .semicolon) (hfaces : parser.Faces (ts ++ [semicolon]) rest) :
    unbounded.statementRule parser = .ok (.block body) (parser.toLast (ts ++ [semicolon])) := by
  have hcurrent : parser.current.kind = .openCurly := by
    rw [hfaces.left.kind_current, firstKind_of_ne_nil hts _ .eof, hcurly]
  have hpeek : (parser.toLast ts).peek.kind = .semicolon :=
    (hfaces.left.kind_peek_toLast hts).trans hsemicolon
  rw [statementRule_block hcurrent, blockStatementRule, bind_of_ok (h hfaces.left),
    bind_of_ok (endStatement_semicolon hpeek), advance_toLast hts,
    ← toLast_append (List.cons_ne_nil semicolon []), toLast_singleton]
  rfl

/-! ## The statements of a block -/

theorem nil {next : TokenKind} : (Phrase.statements next []).IsRead [] := by
  intro parser rest hfaces hnext hclosing
  have hcurrent : parser.current.kind = .closeCurly := by
    rw [hfaces.kind_current, firstKind_nil, hnext, hclosing]
  rw [statements_unbounded, statementsRule, statementsOf, current_bind, hcurrent]
  rfl

theorem cons {statement : Stmt} {others : List Stmt} {next : TokenKind} (hts : ts ≠ [])
    (hfirst : (firstKind ts .eof).beginsStatement = true)
    (hfollows : next = .closeCurly → (firstKind us next).followsStatement = true)
    (h : (Phrase.statement (firstKind us next) statement).IsRead ts)
    (hothers : (Phrase.statements next others).IsRead us) :
    (Phrase.statements next (statement :: others)).IsRead (ts ++ us) := by
  intro parser rest hfaces hnext hclosing
  have hcurrent : parser.current.kind.beginsStatement = true := by
    rw [hfaces.left.kind_current, firstKind_of_ne_nil hts _ .eof]
    exact hfirst
  -- a statement is there, so neither the bracket nor the end of the input
  have hrule : unbounded.statementsRule parser =
      (do
        let statement ← unbounded.statementRule
        advance
        let others ← unbounded.statements
        pure (statement :: others) : Rule (List Stmt)) parser := by
    rw [statementsRule, statementsOf, current_bind]
    generalize parser.current.kind = kind at hcurrent
    cases kind <;> first | rfl | exact absurd hcurrent (by decide)
  have hnext' : firstKind (us ++ rest) .eof = firstKind us next := by
    rw [firstKind_append, hnext]
  rw [statements_unbounded, hrule, bind_of_ok (h hfaces.left hnext' (hfollows hclosing)),
    advance_bind, advance_toLast hts, bind_of_ok (hothers hfaces.skip hnext hclosing), skip_skip,
    List.length_append]
  rfl

end Phrase.IsRead

theorem Stmt.IsReadUpTo.isRead {optional : Bool} {tree : Stmt} {ts us : List Token}
    {next : TokenKind} (h : tree.IsReadUpTo optional ts) (hend : Terminator optional us next) :
    (Phrase.statement next tree).IsRead (ts ++ us) := by
  rintro parser rest hfaces rfl hfollows
  exact h hfaces hend fun _ => hfollows

/-! ## Derivations -/

namespace Derives

variable {phrase : Phrase} {ts us : List Token}

theorem expr_ne_nil {level : Level} {tree : Expr} (h : Derives (.expr level tree) ts) : ts ≠ [] :=
  h.ne_nil Bool.false_ne_true

theorem arguments_ne_nil {trees : List Expr} (h : Derives (.arguments trees) ts) : ts ≠ [] :=
  h.ne_nil Bool.false_ne_true

theorem arguments_ne_closeParen {trees : List Expr} (h : Derives (.arguments trees) ts) :
    firstKind ts .eof ≠ .closeParen := by
  intro hkind
  have hbegins := h.begins .eof
  rw [hkind] at hbegins
  exact absurd hbegins Bool.false_ne_true

theorem block_ne_nil {body : Block} (h : Derives (.block body) ts) : ts ≠ [] :=
  h.ne_nil (nomatch ·)

theorem statement_ne_nil {next : TokenKind} {tree : Stmt} (h : Derives (.statement next tree) ts) :
    ts ≠ [] :=
  h.ne_nil Bool.false_ne_true

/-- Statements in front of a bracket or the end of the input, from which another statement may be
followed. -/
theorem followsStatement {next : TokenKind} {trees : List Stmt}
    (h : Derives (.statements next trees) ts) (hnext : next.followsStatement = true) :
    (firstKind ts next).followsStatement = true := by
  cases h with
  | nil => exact hnext
  | cons hstatement _ =>
    have hbegins := hstatement.begins .eof
    rw [firstKind_append, firstKind_of_ne_nil hstatement.statement_ne_nil _ .eof,
      TokenKind.followsStatement, hbegins]
    rfl

/-- **The tokens of a derivation are read.** -/
theorem isRead (h : Derives phrase ts) : phrase.IsRead ts := by
  -- what each lemma asks besides the hypotheses of the induction is how the parts begin
  induction h with
  | infixOp hlevel hkind hleft hright ihleft ihright =>
    exact Phrase.IsRead.infixOp hlevel hkind hleft.expr_ne_nil hright.expr_ne_nil ihleft ihright
  | tighter hlevel _ ih => exact Phrase.IsRead.ofTighter hlevel ih
  | prefixOp hkind hright ih => exact Phrase.IsRead.prefixOp hkind hright.expr_ne_nil ih
  | call hcallee hopening harguments hclosing ihcallee iharguments =>
    exact Phrase.IsRead.call_of_arguments hcallee.expr_ne_nil hopening ihcallee fun hfaces =>
      Phrase.IsRead.argumentsRule_ok harguments.arguments_ne_nil
        harguments.arguments_ne_closeParen hclosing iharguments hfaces
  | callNothing hcallee hopening hclosing ihcallee =>
    exact Phrase.IsRead.call_of_arguments hcallee.expr_ne_nil hopening ihcallee fun hfaces =>
      Phrase.IsRead.argumentsRule_nothing hclosing hfaces
  | identifier hname => exact Phrase.IsRead.identifier hname
  | integer hnumber hrange => exact Phrase.IsRead.integer hnumber hrange
  | trueWord hword => exact Phrase.IsRead.boolean (Or.inl ⟨hword, rfl⟩)
  | falseWord hword => exact Phrase.IsRead.boolean (Or.inr ⟨hword, rfl⟩)
  | group hopening hinner hclosing ih =>
    exact Phrase.IsRead.group hopening hclosing hinner.expr_ne_nil ih
  | ifOnly hword hopening hcondition hclosing hconsequence ihcondition ihconsequence =>
    exact Phrase.IsRead.ifOnly hword hopening hclosing hcondition.expr_ne_nil
      hconsequence.block_ne_nil (hconsequence.begins .eof) ihcondition ihconsequence
  | ifElse hword hopening hcondition hclosing hconsequence hotherwise halternative ihcondition
      ihconsequence ihalternative =>
    exact Phrase.IsRead.ifElse hword hopening hclosing hotherwise hcondition.expr_ne_nil
      hconsequence.block_ne_nil (hconsequence.begins .eof) halternative.block_ne_nil
      (halternative.begins .eof) ihcondition ihconsequence ihalternative
  | function hword hopening hparameters hclosing hbody ih =>
    exact Phrase.IsRead.function hword hopening hparameters hclosing hbody.block_ne_nil
      (hbody.begins .eof) ih
  | lastArgument hargument ih => exact Phrase.IsRead.lastArgument hargument.expr_ne_nil ih
  | consArgument hargument hcomma hothers ih ihothers =>
    exact Phrase.IsRead.consArgument hargument.expr_ne_nil hothers.arguments_ne_nil hcomma ih
      ihothers
  | block _ _ hclosing ih => exact Phrase.IsRead.block hclosing ih
  | letBinding hword hname hassign hvalue hend ih =>
    exact (Phrase.IsRead.letBinding hword hname hassign hvalue.expr_ne_nil ih).isRead hend
  | returnNothing hword hend => exact (Phrase.IsRead.returnNothing hword).isRead hend
  | returnValue hword hvalue hend ih =>
    exact (Phrase.IsRead.returnValue hword hvalue.expr_ne_nil (hvalue.begins .eof) ih).isRead hend
  | expression hvalue hend ih =>
    exact (Phrase.IsRead.expression (hvalue.begins .eof) ih).isRead hend
  | blockOnly hbody hnext ih =>
    exact Phrase.IsRead.blockOnly hbody.block_ne_nil (hbody.begins .eof) ih hnext
  | blockSemicolon hbody hsemicolon ih =>
    exact fun _ _ hfaces _ _ =>
      Phrase.IsRead.blockSemicolon hbody.block_ne_nil (hbody.begins .eof) ih hsemicolon hfaces
  | nil => exact Phrase.IsRead.nil
  | cons hstatement hothers ih ihothers =>
    refine Phrase.IsRead.cons hstatement.statement_ne_nil (hstatement.begins .eof) ?_ ih ihothers
    intro hnext
    exact hothers.followsStatement (by rw [hnext]; rfl)

end Derives

end MonkeySyntax
