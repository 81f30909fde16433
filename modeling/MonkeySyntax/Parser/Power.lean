import MonkeySyntax.Token.Kind

/-!
# MonkeySyntax — how tightly operators bind

Each token that can follow a complete operand has a power. An operand extends to the right as long
as the next token has more power than the operator on its left. Tokens that cannot follow an operand
have the lowest power, which is not more than any, so that they end the expression.
-/

namespace MonkeySyntax

/-- The powers, the lowest first. -/
inductive Power where
  | lowest
  | equality
  | relational
  | additive
  | multiplicative
  | unary
  | call
  deriving DecidableEq, Repr, Inhabited

namespace Power

def rank : Power → Nat
  | .lowest => 0
  | .equality => 1
  | .relational => 2
  | .additive => 3
  | .multiplicative => 4
  | .unary => 5
  | .call => 6

instance : LT Power := ⟨fun a b => a.rank < b.rank⟩

instance : LE Power := ⟨fun a b => a.rank ≤ b.rank⟩

instance (a b : Power) : Decidable (a < b) := inferInstanceAs (Decidable (a.rank < b.rank))

instance (a b : Power) : Decidable (a ≤ b) := inferInstanceAs (Decidable (a.rank ≤ b.rank))

instance : Ord Power := ⟨fun a b => compare a.rank b.rank⟩

theorem lt_iff_rank {a b : Power} : a < b ↔ a.rank < b.rank := Iff.rfl

theorem le_iff_rank {a b : Power} : a ≤ b ↔ a.rank ≤ b.rank := Iff.rfl

end Power

/-- The power of a token of this kind after a complete operand. -/
def TokenKind.power : TokenKind → Power
  | .equal | .notEqual => .equality
  | .less | .greater => .relational
  | .plus | .dash => .additive
  | .star | .slash => .multiplicative
  | .openParen => .call
  | .eof | .illegal | .identifier | .integer | .openCurly | .closeCurly | .closeParen | .assign
  | .bang | .semicolon | .comma | .fnKw | .letKw | .trueKw | .falseKw | .ifKw | .elseKw
  | .returnKw => .lowest

end MonkeySyntax
