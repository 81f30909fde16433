import MonkeySyntax.Proofs.Parser.Rules

/-!
# MonkeySyntax — readers in step

A rule knows a reader by its steps alone. So two readers that show the same two tokens, and go on
showing the same when both move on, are read alike: a rule gives the same value or the same
diagnostic on both, and leaves them showing the same again.

* **`Reader.InStep R`** — the relation `R` between two kinds of reader is kept by every step.
* **`Rule.InStep R`** — a rule does the same on related readers and leaves them related. This is kept
  where rules are put together (`Rule.compositional_inStep`).
* **`Grammar.RuleName.inStep`**, **`Grammar.inStep_upTo`** — so every rule does the same over grammars
  that do, and the grammars of one bound do.
-/

namespace MonkeySyntax

variable {σ τ : Type} [Reader σ] [Reader τ] {R : σ → τ → Prop}

/-- Related readers show the same tokens, and they are related again one step on. -/
structure Reader.InStep (R : σ → τ → Prop) : Prop where
  current {state : σ} {other : τ} : R state other → Reader.current state = Reader.current other
  peek {state : σ} {other : τ} : R state other → Reader.peek state = Reader.peek other
  advance {state : σ} {other : τ} :
    R state other → R (Reader.advance state) (Reader.advance other)
  enterBlock {state : σ} {other : τ} :
    R state other → R (Reader.enterBlock state) (Reader.enterBlock other)
  leaveBlock {state : σ} {other : τ} :
    R state other → R (Reader.leaveBlock state) (Reader.leaveBlock other)

namespace Rule

/-- The same value or the same diagnostic, and related readers left behind. -/
inductive SameOutcome (R : σ → τ → Prop) {α : Type} :
    EStateM.Result Diagnostic σ α → EStateM.Result Diagnostic τ α → Prop where
  | ok (value : α) {state : σ} {other : τ} (h : R state other) :
      SameOutcome R (.ok value state) (.ok value other)
  | error (diagnostic : Diagnostic) {state : σ} {other : τ} (h : R state other) :
      SameOutcome R (.error diagnostic state) (.error diagnostic other)

/-- The rules do the same on related readers. -/
def InStep (R : σ → τ → Prop) {α : Type} (rule : RuleOn σ α) (other : RuleOn τ α) : Prop :=
  ∀ state state', R state state' → SameOutcome R (rule state) (other state')

namespace InStep

variable {α β : Type}

omit [Reader σ] [Reader τ] in
theorem pure (value : α) : InStep R (pure value : RuleOn σ α) (pure value) :=
  fun _ _ h => .ok value h

omit [Reader σ] [Reader τ] in
/-- What follows starts from related readers, with the same value. -/
theorem bind {rule : RuleOn σ α} {other : RuleOn τ α} {next : α → RuleOn σ β}
    {next' : α → RuleOn τ β} (h : InStep R rule other)
    (hnext : ∀ value, InStep R (next value) (next' value)) :
    InStep R (rule >>= next) (other >>= next') := by
  intro state state' hstate
  have houtcome := h state state' hstate
  rw [bind_apply, bind_apply]
  generalize rule state = result at houtcome ⊢
  generalize other state' = result' at houtcome ⊢
  cases houtcome with
  | ok value hlater => exact hnext value _ _ hlater
  | error diagnostic hlater => exact .error diagnostic hlater

variable (hR : Reader.InStep R)
include hR

theorem current : InStep R current current := by
  intro state state' h
  unfold Rule.current
  rw [hR.current h]
  exact .ok _ h

theorem peekKind : InStep R peekKind peekKind := by
  intro state state' h
  unfold Rule.peekKind
  rw [hR.peek h]
  exact .ok _ h

theorem advance : InStep R advance advance :=
  fun _ _ h => .ok () (hR.advance h)

theorem failHere (cause : SyntaxError) :
    InStep R (failHere cause : RuleOn σ α) (failHere cause) := by
  intro state state' h
  unfold Rule.failHere Reader.position
  rw [hR.current h]
  exact .error _ h

theorem failNext (kind : TokenKind) :
    InStep R (failNext kind : RuleOn σ α) (failNext kind) := by
  intro state state' h
  unfold Rule.failNext Reader.unexpected
  rw [hR.peek h]
  exact .error _ h

theorem enterBlock : InStep R enterBlock enterBlock :=
  fun _ _ h => .ok () (hR.enterBlock h)

theorem leaveBlock : InStep R leaveBlock leaveBlock :=
  fun _ _ h => .ok () (hR.leaveBlock h)

end InStep

/-- **To do the same on related readers** is kept where rules are put together. -/
theorem compositional_inStep (hR : Reader.InStep R) :
    Compositional fun _ _ rule other => InStep R rule other where
  mono h _ := h
  pure := .pure
  bind := .bind
  current := .current hR
  peekKind := .peekKind hR
  failHere := .failHere hR
  failNext := .failNext hR
  advance h := .bind (.advance hR) fun _ => h
  block h := by
    refine .bind (.current hR) fun token => .bind (.enterBlock hR) fun _ => ?_
    refine .bind (.advance hR) fun _ => .bind h fun statements => ?_
    exact .bind (.leaveBlock hR) fun _ => .pure _

end Rule

/-! ## Grammars in step -/

namespace Grammar

open Rule

/-- The grammars read every phrase alike on related readers. -/
structure InStep (R : σ → τ → Prop) (grammar : Grammar σ) (other : Grammar τ) : Prop where
  expr : ∀ power, Rule.InStep R (grammar.expr power) (other.expr power)
  operators : ∀ power left, Rule.InStep R (grammar.operators power left) (other.operators power left)
  moreArguments : Rule.InStep R grammar.moreArguments other.moreArguments
  moreParameters : Rule.InStep R grammar.moreParameters other.moreParameters
  statements : Rule.InStep R grammar.statements other.statements

omit [Reader σ] [Reader τ] in
theorem inStep_iff_related {grammar : Grammar σ} {other : Grammar τ} (n : Nat) :
    InStep R grammar other ↔
      Related (fun _ _ rule other => Rule.InStep R rule other) n grammar other :=
  ⟨fun h => ⟨h.expr, h.operators, h.moreArguments, h.moreParameters, h.statements⟩,
    fun h => ⟨h.expr, h.operators, h.moreArguments, h.moreParameters, h.statements⟩⟩

/-- **A rule over grammars that read the nested phrases alike** reads its own phrase alike. -/
theorem RuleName.inStep {α : Type} (name : RuleName α) {grammar : Grammar σ} {other : Grammar τ}
    (h : InStep R grammar other) (hR : Reader.InStep R) :
    Rule.InStep R (name.rule grammar) (name.rule other) :=
  name.related ((inStep_iff_related 0).mp h) (compositional_inStep hR)

/-- **The grammars of one bound are in step.** -/
theorem inStep_upTo (hR : Reader.InStep R) (n : Nat) : InStep R (upTo n) (upTo n) :=
  (inStep_iff_related n).mpr (related_upTo (compositional_inStep hR) n)

end Grammar

end MonkeySyntax
