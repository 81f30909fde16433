import MonkeySyntax.Parser.Program
import MonkeySyntax.Proofs.Grammar.Derivation

/-!
# MonkeySyntax — passing over tokens

What the steps of a rule do, in the two forms in which proofs about whole rules need it.

* **Running a step** — `Rule.current_bind`, `Rule.advance_bind` and the others say where a sequence
  goes on behind its first step; `Rule.eq_ok_of_bind` takes a sequence that succeeds apart.
* **`Parser.Passes parser ts later`** — between the tokens at which the two stand, the latter
  included, lie the tokens `ts`, and nothing else differs. Passages are put together by
  `Parser.Passes.trans`.
-/

namespace MonkeySyntax

/-! ## Running a step -/

namespace Rule

variable {α β : Type}

@[simp]
theorem current_bind (next : Token → Rule β) (parser : Parser) :
    (current >>= next) parser = next parser.current parser := rfl

@[simp]
theorem peekKind_bind (next : TokenKind → Rule β) (parser : Parser) :
    (peekKind >>= next) parser = next parser.peek.kind parser := rfl

@[simp]
theorem advance_bind (next : Unit → Rule β) (parser : Parser) :
    (advance >>= next) parser = next () parser.advance := rfl

@[simp]
theorem enterBlock_bind (next : Unit → Rule β) (parser : Parser) :
    (enterBlock >>= next) parser = next () parser.enterBlock := rfl

@[simp]
theorem leaveBlock_bind (next : Unit → Rule β) (parser : Parser) :
    (leaveBlock >>= next) parser = next () parser.leaveBlock := rfl

@[simp]
theorem identifierRule_bind (next : Identifier → Rule β) (parser : Parser) :
    (Grammar.identifierRule >>= next) parser =
      next ⟨parser.current, parser.current.literal⟩ parser := rfl

/-- A token that is an operator of some level makes an operation of the operand on its left. -/
theorem operatorRule_of_mem {grammar : Grammar} {parser : Parser} {level : Level} (power : Power)
    (left : Expr) (hkind : parser.current.kind ∈ level.operators) :
    grammar.operatorRule power left parser = grammar.infixOpRule power left parser := by
  rw [Grammar.operatorRule, current_bind]
  -- by level, and on each level by operator
  cases level <;>
    simp only [Level.operators, List.mem_cons, List.not_mem_nil, or_false] at hkind <;>
    rcases hkind with hkind | hkind <;> rw [hkind]

theorem bind_of_ok {rule : Rule α} {parser later : Parser} {value : α}
    (h : rule parser = .ok value later) (next : α → Rule β) :
    (rule >>= next) parser = next value later := by
  rw [bind_apply, h]

/-- Sequences are the same if what follows is the same wherever the first step succeeds. -/
theorem bind_eq_bind {rule : Rule α} {next next' : α → Rule β} {parser : Parser}
    (h : ∀ value later, rule parser = .ok value later → next value later = next' value later) :
    (rule >>= next) parser = (rule >>= next') parser := by
  rw [bind_apply, bind_apply]
  cases hrule : rule parser with
  | ok value later => exact h value later hrule
  | error diagnostic later => rfl

theorem expect_of_kind {kind : TokenKind} {parser : Parser} (h : parser.peek.kind = kind) :
    expect kind parser = .ok () parser.advance :=
  if_pos h

theorem eq_ok_of_bind {rule : Rule α} {next : α → Rule β} {parser later : Parser} {value : β}
    (h : (rule >>= next) parser = .ok value later) :
    ∃ first mid, rule parser = .ok first mid ∧ next first mid = .ok value later := by
  rw [bind_apply] at h
  cases hrule : rule parser with
  | error diagnostic mid =>
    rw [hrule] at h
    cases h
  | ok first mid =>
    rw [hrule] at h
    exact ⟨first, mid, rfl, h⟩

theorem eq_of_pure {value result : α} {parser later : Parser}
    (h : (pure value : Rule α) parser = .ok result later) : value = result ∧ parser = later := by
  rw [pure_apply] at h
  cases h
  exact ⟨rfl, rfl⟩

theorem eq_of_expect {kind : TokenKind} {parser later : Parser} {value : Unit}
    (h : expect kind parser = .ok value later) :
    parser.peek.kind = kind ∧ parser.advance = later := by
  rw [expect_apply] at h
  split at h
  · next hkind =>
    cases h
    exact ⟨hkind, rfl⟩
  · cases h

/-- A statement that ends has a semicolon next, or may do without. -/
theorem eq_of_endStatement {optional : Bool} {parser later : Parser} {value : Unit}
    (h : endStatement optional parser = .ok value later) :
    (parser.peek.kind = .semicolon ∧ parser.advance = later) ∨
      (parser.peek.kind ≠ .semicolon ∧ parser = later ∧
        (parser.peek.kind = .closeCurly ∨ parser.peek.kind = .eof ∨ optional = true)) := by
  rw [endStatement_apply] at h
  cases hkind : parser.peek.kind with
  | semicolon =>
    rw [hkind] at h
    cases h
    exact Or.inl ⟨rfl, rfl⟩
  | closeCurly | eof =>
    rw [hkind] at h
    cases h
    exact Or.inr ⟨by decide, rfl, by simp⟩
  | _ =>
    rw [hkind] at h
    -- in front of any other token only a statement that ends with a block may end
    cases optional with
    | false => cases h
    | true =>
      cases h
      exact Or.inr ⟨by decide, rfl, Or.inr (Or.inr rfl)⟩

end Rule

/-! ## Passing over tokens -/

namespace Parser

def skip (n : Nat) (parser : Parser) : Parser :=
  { parser with ahead := parser.ahead.drop n }

@[simp]
theorem skip_skip (m n : Nat) (parser : Parser) : (parser.skip m).skip n = parser.skip (m + n) := by
  simp [skip]

@[simp]
theorem ahead_skip (n : Nat) (parser : Parser) : (parser.skip n).ahead = parser.ahead.drop n := rfl

/-- The parser `n` tokens on stands at the token `n`. -/
theorem current_skip {parser : Parser} {n : Nat} (h : n < parser.ahead.length) :
    (parser.skip n).current = parser.ahead[n] := by
  rw [current, ahead_skip, List.drop_eq_getElem_cons h]
  rfl

theorem advance_eq_skip (parser : Parser) : parser.advance = parser.skip 1 := by
  simp [advance, skip]

@[simp]
theorem advance_skip (n : Nat) (parser : Parser) :
    (parser.skip n).advance = parser.skip (n + 1) := by
  rw [advance_eq_skip, skip_skip]

/-- Behind a block as many blocks are open as before it. -/
theorem leaveBlock_skip (n : Nat) (parser : Parser) :
    (parser.enterBlock.advance.skip n).leaveBlock = parser.skip (n + 1) := by
  simp [skip, advance, enterBlock, leaveBlock]

/-- A token that is not the end of the input is the first one ahead. -/
theorem ahead_eq_cons {parser : Parser} (h : parser.current.kind ≠ .eof) :
    parser.ahead = parser.current :: parser.advance.ahead := by
  cases hahead : parser.ahead with
  | nil => simp [current, endToken, hahead] at h
  | cons token rest => simp [current, hahead]

theorem kind_current (parser : Parser) : parser.current.kind = firstKind parser.ahead .eof := by
  cases hahead : parser.ahead <;> simp [current, endToken, hahead]

/-- Tokens in front, and tokens in front of what is left behind them. -/
theorem append_prefix {ts us tokens : List Token} (h : ts <+: tokens)
    (h' : us <+: tokens.drop ts.length) : ts ++ us <+: tokens := by
  obtain ⟨rest, rfl⟩ := h
  rw [List.drop_left] at h'
  exact (List.prefix_append_right_inj ts).mpr h'

/-- `later` stands at the last of `ts`, the tokens behind the current one of `parser`. If there are
none in `ts`, both stand at the same token. -/
structure Passes (parser : Parser) (ts : List Token) (later : Parser) : Prop where
  ahead : ts <+: parser.ahead.tail
  eq_skip : later = parser.skip ts.length

namespace Passes

variable {parser mid later : Parser} {ts us : List Token}

theorem refl (parser : Parser) : parser.Passes [] parser :=
  ⟨List.nil_prefix, rfl⟩

theorem trans (h : parser.Passes ts mid) (h' : mid.Passes us later) :
    parser.Passes (ts ++ us) later := by
  obtain ⟨hts, rfl⟩ := h
  obtain ⟨hus, rfl⟩ := h'
  constructor
  · rw [ahead_skip, List.tail_drop, ← List.drop_tail] at hus
    exact append_prefix hts hus
  · rw [skip_skip, List.length_append]

theorem ahead_advance (h : parser.Passes ts later) :
    later.advance.ahead = parser.ahead.tail.drop ts.length := by
  rw [h.eq_skip, advance_skip, ahead_skip, List.drop_tail]

theorem advance (h : parser.peek.kind ≠ .eof) : parser.Passes [parser.peek] parser.advance := by
  constructor
  · have hcons : parser.advance.ahead = parser.peek :: parser.advance.advance.ahead :=
      ahead_eq_cons h
    exact ⟨parser.advance.advance.ahead, hcons.symm⟩
  · exact parser.advance_eq_skip

theorem cons (h : parser.peek.kind ≠ .eof) (h' : parser.advance.Passes ts later) :
    parser.Passes (parser.peek :: ts) later :=
  (Passes.advance h).trans h'

theorem remaining_le (h : parser.Passes ts later) : later.remaining ≤ parser.remaining := by
  rw [h.eq_skip, remaining, remaining, ahead_skip, List.length_drop]
  omega

end Passes

end Parser

end MonkeySyntax
