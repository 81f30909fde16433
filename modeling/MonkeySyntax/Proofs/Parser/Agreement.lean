import MonkeySyntax.Parser.Program
import MonkeySyntax.Proofs.Parser.Rules

/-!
# MonkeySyntax — rules that agree on short inputs

A rule over a grammar asks it for nested phrases only where fewer tokens are left. So two grammars
that agree where at most `n` tokens are left give rules that agree where at most `n + 1` are left.
This module proves that, and on the way that no rule goes back.

* **`Parser.Onward`** — a later parser has a tail of the tokens ahead, and the same end of the input
  and diagnostics. Every rule leads onward, in success and in failure.
* **`Rule.Agree`** — two rules do the same where at most `n` tokens are left, and lead onward there.
  This is kept where rules are put together (`Rule.compositional_agree`).
* **`Grammar.RuleName.agree`**, **`Grammar.Agree.step`** — the rules over two grammars that agree, and
  the grammars made from these, agree on one token more.
-/

namespace MonkeySyntax

/-! ## Going onward -/

namespace Parser

/-- `later` is reached from `parser` by moving on in the tokens and counting blocks. -/
structure Onward (parser later : Parser) : Prop where
  ahead : later.ahead <:+ parser.ahead
  stop : later.stop = parser.stop
  diagnostics : later.diagnostics = parser.diagnostics

theorem Onward.refl (parser : Parser) : parser.Onward parser :=
  ⟨List.suffix_refl _, rfl, rfl⟩

theorem Onward.trans {parser later last : Parser} (h : parser.Onward later)
    (h' : later.Onward last) : parser.Onward last :=
  ⟨h'.ahead.trans h.ahead, h'.stop.trans h.stop, h'.diagnostics.trans h.diagnostics⟩

theorem Onward.remaining_le {parser later : Parser} (h : parser.Onward later) :
    later.remaining ≤ parser.remaining :=
  h.ahead.length_le

theorem onward_advance (parser : Parser) : parser.Onward parser.advance :=
  ⟨List.tail_suffix _, rfl, rfl⟩

end Parser

namespace Rule

/-- The reader that a rule leaves behind, whether it succeeds or fails. -/
def leaves {σ α : Type} (rule : RuleOn σ α) (state : σ) : σ :=
  match rule state with
  | .ok _ later => later
  | .error _ later => later

/-- The rules do the same where at most `n` tokens are left, and there they lead onward. -/
def Agree {α : Type} (n : Nat) (rule other : Rule α) : Prop :=
  ∀ parser : Parser, parser.remaining ≤ n →
    rule parser = other parser ∧ parser.Onward (leaves rule parser)

/-! ## Agreement of single steps and of sequences -/

variable {α β : Type} {n : Nat}

theorem Agree.mono {m : Nat} {rule other : Rule α} (h : Agree n rule other) (hle : m ≤ n) :
    Agree m rule other :=
  fun parser hparser => h parser (Nat.le_trans hparser hle)

theorem Agree.symm {rule other : Rule α} (h : Agree n rule other) : Agree n other rule := by
  intro parser hparser
  obtain ⟨heq, hon⟩ := h parser hparser
  unfold leaves at hon ⊢
  rw [heq] at hon
  exact ⟨heq.symm, hon⟩

theorem Agree.trans {rule other third : Rule α} (h : Agree n rule other)
    (h' : Agree n other third) : Agree n rule third :=
  fun parser hparser =>
    ⟨(h parser hparser).1.trans (h' parser hparser).1, (h parser hparser).2⟩

/-- A rule that leads onward agrees with itself. -/
theorem Agree.of_onward {rule : Rule α}
    (h : ∀ parser : Parser, parser.Onward (leaves rule parser)) : Agree n rule rule :=
  fun parser _ => ⟨rfl, h parser⟩

theorem Agree.pure (value : α) : Agree n (pure value : Rule α) (pure value) :=
  .of_onward Parser.Onward.refl

theorem Agree.current : Agree n current current :=
  .of_onward Parser.Onward.refl

theorem Agree.peekKind : Agree n peekKind peekKind :=
  .of_onward Parser.Onward.refl

theorem Agree.failHere (cause : SyntaxError) : Agree n (failHere cause : Rule α) (failHere cause) :=
  .of_onward Parser.Onward.refl

theorem Agree.failNext (kind : TokenKind) : Agree n (failNext kind : Rule α) (failNext kind) :=
  .of_onward Parser.Onward.refl

theorem Agree.enterBlock : Agree n enterBlock enterBlock :=
  .of_onward fun _ => ⟨List.suffix_refl _, rfl, rfl⟩

theorem Agree.leaveBlock : Agree n leaveBlock leaveBlock :=
  .of_onward fun _ => ⟨List.suffix_refl _, rfl, rfl⟩

/-- The first parts lead both to the same place, from where the second parts agree. -/
theorem Agree.bind {rule other : Rule α} {next next' : α → Rule β} (h : Agree n rule other)
    (hnext : ∀ value, Agree n (next value) (next' value)) :
    Agree n (rule >>= next) (other >>= next') := by
  intro parser hparser
  obtain ⟨heq, hon⟩ := h parser hparser
  -- both sequences go on from where the first parts stop, and there no more tokens are left
  unfold leaves at hon ⊢
  rw [bind_apply, bind_apply, ← heq]
  cases hrule : rule parser with
  | error diagnostic later =>
    rw [hrule] at hon
    exact ⟨rfl, hon⟩
  | ok value later =>
    rw [hrule] at hon
    obtain ⟨heq', hon'⟩ := hnext value later (Nat.le_trans hon.remaining_le hparser)
    exact ⟨heq', hon.trans hon'⟩

/-- Behind a token that is used up, agreement on fewer tokens is enough. -/
theorem Agree.advance {next next' : Unit → Rule β} (hnext : Agree n (next ()) (next' ())) :
    Agree (n + 1) (Rule.advance >>= next) (Rule.advance >>= next') := by
  intro parser hparser
  obtain ⟨heq, hon⟩ := hnext parser.advance (Parser.remaining_advance_le_of_succ hparser)
  exact ⟨heq, parser.onward_advance.trans hon⟩

/-- **To do the same and to lead onward** is kept where rules are put together. -/
theorem compositional_agree : Compositional fun n _ rule other => Agree n rule other where
  mono := .mono
  pure := .pure
  bind := .bind
  current := .current
  peekKind := .peekKind
  failHere := .failHere
  failNext := .failNext
  advance := .advance
  block h := by
    refine .bind .current fun token => .bind .enterBlock fun _ => .advance ?_
    exact .bind h fun statements => .bind .leaveBlock fun _ => .pure _

end Rule

/-! ## Grammars that agree

Below, `grammar` and `other` agree where at most `n` tokens are left. -/

namespace Grammar

open Rule

/-- The grammars read every phrase alike where at most `n` tokens are left. -/
structure Agree (n : Nat) (grammar other : Grammar) : Prop where
  expr : ∀ power, Rule.Agree n (grammar.expr power) (other.expr power)
  operators : ∀ power left, Rule.Agree n (grammar.operators power left) (other.operators power left)
  moreArguments : Rule.Agree n grammar.moreArguments other.moreArguments
  moreParameters : Rule.Agree n grammar.moreParameters other.moreParameters
  statements : Rule.Agree n grammar.statements other.statements

theorem agree_iff_related {n : Nat} {grammar other : Grammar} :
    Agree n grammar other ↔ Related (fun n _ rule other => Rule.Agree n rule other) n grammar other :=
  ⟨fun h => ⟨h.expr, h.operators, h.moreArguments, h.moreParameters, h.statements⟩,
    fun h => ⟨h.expr, h.operators, h.moreArguments, h.moreParameters, h.statements⟩⟩

/-- **A rule over grammars that agree** agrees on one token more. -/
theorem RuleName.agree {α : Type} (name : RuleName α) {n : Nat} {grammar other : Grammar}
    (h : Agree n grammar other) : Rule.Agree (n + 1) (name.rule grammar) (name.rule other) :=
  name.related (agree_iff_related.mp h) compositional_agree

namespace Agree

variable {n : Nat} {grammar other : Grammar}

theorem mono {m : Nat} (h : Agree n grammar other) (hle : m ≤ n) : Agree m grammar other where
  expr power := (h.expr power).mono hle
  operators power left := (h.operators power left).mono hle
  moreArguments := h.moreArguments.mono hle
  moreParameters := h.moreParameters.mono hle
  statements := h.statements.mono hle

theorem symm (h : Agree n grammar other) : Agree n other grammar where
  expr power := (h.expr power).symm
  operators power left := (h.operators power left).symm
  moreArguments := h.moreArguments.symm
  moreParameters := h.moreParameters.symm
  statements := h.statements.symm

theorem trans {third : Grammar} (h : Agree n grammar other) (h' : Agree n other third) :
    Agree n grammar third where
  expr power := (h.expr power).trans (h'.expr power)
  operators power left := (h.operators power left).trans (h'.operators power left)
  moreArguments := h.moreArguments.trans h'.moreArguments
  moreParameters := h.moreParameters.trans h'.moreParameters
  statements := h.statements.trans h'.statements

/-- **Grammars made from two that agree agree on one token more.** -/
theorem step (h : Agree n grammar other) : Agree (n + 1) grammar.step other.step :=
  agree_iff_related.mpr ((agree_iff_related.mp h).step compositional_agree)

end Agree

end Grammar

end MonkeySyntax
