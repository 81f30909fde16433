import Mathlib.Algebra.Group.Nat.Defs
import MonkeySyntax.Proofs.Program.Places

/-!
# MonkeySyntax — what diagnostics say is true

A diagnostic names a token of the source: it stands where that token starts, and what its cause says
is true of that token. In the other direction, a statement that is read has no number past the range
of numbers, so no such number goes without a diagnostic.

* **`SyntaxError.TrueOf`** — what a cause says of a token.
* **`parse_diagnostics_truthful`** — both directions, for sources whose places fit a word.
-/

namespace MonkeySyntax

/-- What the cause says is true of the token. -/
def SyntaxError.TrueOf (token : Token) : SyntaxError → Prop
  | .unexpectedToken expected found => found = token.kind ∧ found ≠ expected
  | .notAnExpression kind => kind = token.kind ∧
    kind ∉ [.identifier, .integer, .trueKw, .falseKw, .bang, .dash, .openParen, .ifKw, .fnKw]
  | .invalidNumber literal => token.kind = .integer ∧ token.literal = literal ∧
    2 ^ 63 - 1 < decimalValue literal.toList

theorem largestInteger_eq : largestInteger = 2 ^ 63 - 1 := by
  decide

/-- A kind that begins no expression is none of those that do. -/
theorem not_mem_of_beginsExpr_eq_false {kind : TokenKind} (h : kind.beginsExpr = false) :
    kind ∉ [.identifier, .integer, .trueKw, .falseKw, .bang, .dash, .openParen, .ifKw, .fnKw] := by
  have hall : ∀ kind ∈ [TokenKind.identifier, .integer, .trueKw, .falseKw, .bang, .dash, .openParen,
      .ifKw, .fnKw], kind.beginsExpr = true := by
    decide
  intro hmem
  exact Bool.false_ne_true (h.symm.trans (hall kind hmem))

/-- A number that denotes no integer is past the range. -/
theorem IsNumber.lt_decimalValue {text : String} (h : IsNumber text)
    (hnone : integerValue? text = none) : 2 ^ 63 - 1 < decimalValue text.toList := by
  apply Nat.lt_of_not_le
  rw [← largestInteger_eq]
  intro hrange
  have hsome := integerValue?_eq_some_iff.mpr
    ⟨h.1, List.all_eq_true.mpr h.2, hrange, rfl⟩
  rw [hnone] at hsome
  cases hsome

/-! ## The tokens of a source -/

variable {source : String} {token : Token}

theorem mem_tokenize (h : token ∈ tokenize source) :
    token ∈ (Parser.ofSource source).ahead ∨ token = (Parser.ofSource source).endToken := by
  rw [tokenize_eq] at h
  simpa using h

theorem lexical_of_mem_tokenize (h : token ∈ tokenize source) (hkind : token.kind ≠ .eof) :
    token.Lexical := by
  rcases mem_tokenize h with h | rfl
  · exact lexical_of_mem_scan h
  · exact absurd rfl hkind

/-- A token starts within the source, the end of the input at its end. -/
theorem start_le_of_mem_tokenize (hsize : source.utf8ByteSize < UInt32.size)
    (h : token ∈ tokenize source) : token.span.start.toNat ≤ source.utf8ByteSize := by
  rcases mem_tokenize h with h | rfl
  · have hmem : token ∈ scan 0 0 (utf8 source) := h
    obtain ⟨start, -, hlt, hstart⟩ := exists_start_of_mem_scan hmem
    rw [Nat.zero_add, length_utf8] at hlt
    rw [hstart, toNat_toUInt32 (Nat.lt_trans hlt hsize)]
    exact Nat.le_of_lt hlt
  · exact Nat.le_of_eq (toNat_toUInt32 hsize)

/-- A diagnostic that names a token of a source is true of it. -/
theorem Diagnostic.Names.trueOf {diagnostic : Diagnostic} (h : diagnostic.Names token)
    (htoken : token ∈ tokenize source) : diagnostic.cause.TrueOf token := by
  obtain ⟨-, h⟩ := h
  cases hcause : diagnostic.cause with
  | unexpectedToken expected found =>
    rw [hcause] at h
    exact h
  | notAnExpression kind =>
    rw [hcause] at h
    exact ⟨h.1, not_mem_of_beginsExpr_eq_false h.2⟩
  | invalidNumber literal =>
    rw [hcause] at h
    obtain ⟨hkind, rfl, hnone⟩ := h
    have hnumber := (lexical_of_mem_tokenize htoken (by rw [hkind]; decide)).isNumber hkind
    exact ⟨hkind, rfl, hnumber.lt_decimalValue hnone⟩

/-- **Diagnostics are true.** Let the places of a source fit a word. Then every diagnostic stands
within the source where exactly one of its tokens starts, and its cause is true of that token. And
the tokens of every statement that is read have no number past the range. -/
theorem parse_diagnostics_truthful (hsize : source.utf8ByteSize < UInt32.size) :
    (∀ diagnostic ∈ (parse source).2,
      diagnostic.position.toNat ≤ source.utf8ByteSize ∧
      ∃ (k : Nat) (token : Token), diagnostic.IsOn source k ∧
        (tokenize source)[k]? = some token ∧ diagnostic.cause.TrueOf token) ∧
      ∃ segments : List Segment,
        tokenize source =
          segments.flatMap Segment.tokens ++ [(Parser.ofSource source).endToken] ∧
        parse source = (⟨segments.filterMap Segment.statement?⟩,
          segments.filterMap Segment.diagnostic?) ∧
        ∀ segment ∈ segments, ∀ statement, segment.outcome = .ok statement →
          (∃ next, Derives (.statement next statement) segment.tokens) ∧
          ∀ token ∈ segment.tokens, token.kind = .integer →
            decimalValue token.literal.toList ≤ 2 ^ 63 - 1 := by
  obtain ⟨segments, hturns⟩ := (Parser.ofSource source).exists_turns
  have hends : ∀ token ∈ (Parser.ofSource source).ahead, token.kind ≠ .eof :=
    Parser.AtTurn.start.kind_ne_eof
  obtain ⟨found, hlocated, hfound⟩ := hturns.exists_located 0
  have hparse := hturns.parse_eq
  refine ⟨?_, segments, ?_, hparse, ?_⟩
  · intro diagnostic hdiagnostic
    rw [hparse] at hdiagnostic
    rw [← hfound] at hdiagnostic
    obtain ⟨entry, hentry, rfl⟩ := List.mem_map.mp hdiagnostic
    obtain ⟨token, htoken, hnames⟩ := hlocated.names_tokenize entry hentry
    have hmem : token ∈ tokenize source := List.mem_of_getElem? htoken
    refine ⟨?_, entry.1, token, hnames.isOn hsize htoken, htoken, hnames.trueOf hmem⟩
    rw [hnames.1]
    exact start_le_of_mem_tokenize hsize hmem
  · rw [hturns.flatMap_tokens hends, tokenize_eq]
  · intro segment hsegment statement houtcome
    obtain ⟨before, after, hsplit⟩ := List.append_of_mem hsegment
    have haccounts := (hturns.accounts hends hsplit).2
    rw [Segment.Accounts, houtcome] at haccounts
    refine ⟨⟨_, haccounts⟩, fun token htoken hkind => ?_⟩
    rw [← largestInteger_eq]
    exact (haccounts.readable token htoken).2 hkind

/-- One diagnostic of each cause, and the largest number as a statement behind them. -/
theorem parse_diagnostics_truthful_each_cause :
    "let 5; 9223372036854775808; ); 9223372036854775807".utf8ByteSize < UInt32.size ∧
      (parse "let 5; 9223372036854775808; ); 9223372036854775807").2 =
        [⟨.unexpectedToken .identifier .integer, 4⟩, ⟨.invalidNumber "9223372036854775808", 7⟩,
          ⟨.notAnExpression .closeParen, 28⟩] ∧
      (∀ diagnostic ∈ (parse "let 5; 9223372036854775808; ); 9223372036854775807").2,
        diagnostic.position.toNat ≤ 50 ∧ ∃ (k : Nat) (token : Token),
          diagnostic.IsOn "let 5; 9223372036854775808; ); 9223372036854775807" k ∧
          (tokenize "let 5; 9223372036854775808; ); 9223372036854775807")[k]? = some token ∧
          diagnostic.cause.TrueOf token) ∧
      ∃ segments : List Segment,
        (parse "let 5; 9223372036854775808; ); 9223372036854775807").1.statements =
          segments.filterMap Segment.statement? ∧
        ∀ segment ∈ segments, ∀ statement, segment.outcome = .ok statement →
          ∀ token ∈ segment.tokens, token.kind = .integer →
            decimalValue token.literal.toList ≤ 2 ^ 63 - 1 := by
  have hsize : "let 5; 9223372036854775808; ); 9223372036854775807".utf8ByteSize < UInt32.size := by
    decide
  obtain ⟨hdiagnostics, segments, -, hparse, hnumbers⟩ := parse_diagnostics_truthful hsize
  exact ⟨hsize, rfl, hdiagnostics, segments, by rw [hparse],
    fun segment hsegment statement houtcome => (hnumbers segment hsegment statement houtcome).2⟩

end MonkeySyntax
