import MonkeySyntax.Parser.Power
import MonkeySyntax.Proofs.Grammar.Derivation

/-!
# MonkeySyntax — powers and levels

The rules tell the operators apart by their power, the grammar by levels. Both are ordered by a
rank, and the ranks match: an operator has the rank of the level that adds it (`rank_power`), a call
that of its level, and what is read at a power is the next tighter level (`Level.above`).
-/

namespace MonkeySyntax

namespace Level

/-- The level that is read where only operators of more than the given power are taken. An operand
with an operator before it is taken in any case. -/
def above : Power → Level
  | .lowest => .equality
  | .equality => .relational
  | .relational => .additive
  | .additive => .multiplicative
  | .multiplicative | .unary | .call => .unary

theorem rank_above_le (power : Power) : (above power).rank ≤ power.rank + 1 := by
  cases power <;> decide

theorem rank_above_le_unary (power : Power) : (above power).rank ≤ unary.rank := by
  cases power <;> decide

theorem rank_power {level : Level} {kind : TokenKind} (h : kind ∈ level.operators) :
    kind.power.rank = level.rank := by
  cases level <;> simp only [operators, List.mem_cons, List.not_mem_nil, or_false] at h <;>
    rcases h with rfl | rfl <;> rfl

/-- The right operand of an operator is of the next tighter level. -/
theorem above_power {level tighter : Level} {kind : TokenKind} (h : kind ∈ level.operators)
    (htighter : level.tighter? = some tighter) : above kind.power = tighter := by
  cases level <;> simp only [operators, List.mem_cons, List.not_mem_nil, or_false] at h <;>
    cases htighter <;> rcases h with rfl | rfl <;> rfl

/-- An operator of a level has more power than one at which that level is read. -/
theorem lt_power {level : Level} {kind : TokenKind} {power : Power} (h : kind ∈ level.operators)
    (hlevel : (above power).rank ≤ level.rank) : power < kind.power := by
  rw [Power.lt_iff_rank, rank_power h]
  -- no operator is added by the tightest levels, and at the others the ranks decide
  cases level with
  | unary | call | primary => exact absurd h List.not_mem_nil
  | _ => cases power <;> revert hlevel <;> decide

theorem power_ne_call {level : Level} {kind : TokenKind} (h : kind ∈ level.operators) :
    kind.power ≠ .call := by
  intro hcall
  have hrank := rank_power h
  rw [hcall] at hrank
  cases level with
  | call => exact absurd h List.not_mem_nil
  | _ => exact absurd hrank (by decide)

theorem ne_elseKw {level : Level} {kind : TokenKind} (h : kind ∈ level.operators) :
    kind ≠ .elseKw := by
  rintro rfl
  cases level <;> simp [operators] at h

theorem eof_not_mem_operators (level : Level) : .eof ∉ level.operators := by
  cases level <;> decide

theorem exists_tighter_of_mem {level : Level} {kind : TokenKind} (h : kind ∈ level.operators) :
    ∃ tighter, level.tighter? = some tighter := by
  cases level with
  | primary => exact absurd h List.not_mem_nil
  | _ => exact ⟨_, rfl⟩

end Level

theorem Power.rank_le (power : Power) : power.rank ≤ 6 := by
  cases power <;> decide

theorem Power.ne_lowest_of_lt {power other : Power} (h : power < other) : other ≠ .lowest := by
  rintro rfl
  exact Nat.not_lt_zero _ h

/-- A token with a power is an operator of some level or opens the arguments of a call. -/
theorem TokenKind.operator_or_openParen {kind : TokenKind} (h : 0 < kind.power.rank) :
    kind = .openParen ∨ ∃ level : Level, kind ∈ level.operators := by
  cases kind with
  | openParen => exact Or.inl rfl
  | equal | notEqual => exact Or.inr ⟨.equality, by decide⟩
  | less | greater => exact Or.inr ⟨.relational, by decide⟩
  | plus | dash => exact Or.inr ⟨.additive, by decide⟩
  | star | slash => exact Or.inr ⟨.multiplicative, by decide⟩
  | _ => exact absurd h (Nat.lt_irrefl 0)

end MonkeySyntax
