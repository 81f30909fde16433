import MonkeySyntax.Parser.Program
import MonkeySyntax.Parser.Window
import MonkeySyntax.Proofs.Lexer.Cursor
import MonkeySyntax.Proofs.Parser.Lockstep
import MonkeySyntax.Proofs.Parser.Unbounded

/-!
# MonkeySyntax — what a window shows

A window reads as a parser does that has the same tokens before it as a list.

* **`Window.Shows window parser`** — the window has the first two tokens of the parser, and its
  lexer has the others still to come. Every step keeps this (`inStep_shows`).
* **`Window.inStep_reading`** — so a phrase is read alike, although the two go by different bounds on
  what is left.
* **`Window.Shows.skipBroken`**, **`Window.Shows.readStatements`** — broken statements are skipped
  alike, and so all statements are read alike.
-/

namespace MonkeySyntax

namespace Window

/-- The window stands where the parser stands and has found the same. -/
structure Shows (window : Window) (parser : Parser) : Prop where
  current : window.current = parser.current
  peek : window.peek = parser.peek
  coherent : window.lexer.Coherent
  pending : window.lexer.pending = parser.ahead.tail.tail
  endToken : window.lexer.endToken = parser.endToken
  diagnostics : window.diagnostics = parser.diagnostics
  openBlocks : window.openBlocks = parser.openBlocks

/-! ## Steps -/

theorem ofLexer_eq (lexer : Lexer) :
    ofLexer lexer =
      ⟨lexer.nextToken.2.nextToken.2, lexer.nextToken.1, lexer.nextToken.2.nextToken.1, [], 0⟩ := by
  rw [ofLexer]

theorem advance_eq (window : Window) :
    window.advance =
      ⟨window.lexer.nextToken.2, window.peek, window.lexer.nextToken.1, window.diagnostics,
        window.openBlocks⟩ := by
  rw [advance]

theorem shows_ofLexer {lexer : Lexer} (h : lexer.Coherent) :
    (ofLexer lexer).Shows (.ofLexer lexer) := by
  have hnext := h.coherent_nextToken
  rw [ofLexer_eq]
  exact {
    current := h.nextToken_eq_headD
    peek := by
      rw [hnext.nextToken_eq_headD, h.pending_nextToken, h.endToken_nextToken]
      rfl
    coherent := hnext.coherent_nextToken
    pending := by
      rw [hnext.pending_nextToken, h.pending_nextToken]
      rfl
    endToken := hnext.endToken_nextToken.trans h.endToken_nextToken
    diagnostics := rfl
    openBlocks := rfl }

namespace Shows

variable {window : Window} {parser : Parser}

theorem advance (h : window.Shows parser) : window.advance.Shows parser.advance := by
  rw [advance_eq]
  exact {
    current := h.peek
    peek := by
      rw [h.coherent.nextToken_eq_headD, h.pending, h.endToken]
      rfl
    coherent := h.coherent.coherent_nextToken
    pending := by
      rw [h.coherent.pending_nextToken, h.pending]
      rfl
    endToken := h.coherent.endToken_nextToken.trans h.endToken
    diagnostics := h.diagnostics
    openBlocks := h.openBlocks }

theorem enterBlock (h : window.Shows parser) : window.enterBlock.Shows parser.enterBlock :=
  { h with openBlocks := congrArg (· + 1) h.openBlocks }

theorem leaveBlock (h : window.Shows parser) : window.leaveBlock.Shows parser.leaveBlock :=
  { h with openBlocks := congrArg (· - 1) h.openBlocks }

theorem record (h : window.Shows parser) (diagnostic : Diagnostic) :
    (window.record diagnostic).Shows (parser.record diagnostic) :=
  { h with diagnostics := congrArg (· ++ [diagnostic]) h.diagnostics }

theorem atEnd (h : window.Shows parser) : window.atEnd = parser.atEnd := by
  rw [Window.atEnd, Parser.atEnd, h.current]

/-- The bound of a window covers the tokens that are left. -/
theorem remaining_le (h : window.Shows parser) : parser.remaining ≤ window.remaining := by
  have hlength := window.lexer.length_pending_le
  rw [h.pending, List.length_tail, List.length_tail] at hlength
  rw [Parser.remaining, Window.remaining]
  omega

end Shows

/-- **Windows and parsers are in step.** -/
theorem inStep_shows : Reader.InStep Shows where
  current := Shows.current
  peek := Shows.peek
  advance := Shows.advance
  enterBlock := Shows.enterBlock
  leaveBlock := Shows.leaveBlock

/-! ## Phrases -/

/-- **A phrase is read alike.** The bound of the window can be taken for that of the parser. -/
theorem inStep_reading {α : Type} (name : Grammar.RuleName α) :
    Rule.InStep Shows (Parser.reading name.rule) (Parser.reading name.rule) := by
  intro window parser h
  have hbound := name.agree (Grammar.agree_upTo h.remaining_le (Nat.le_refl parser.remaining))
  have houtcome :=
    name.inStep (Grammar.inStep_upTo inStep_shows window.remaining) inStep_shows window parser h
  rw [(hbound parser (Nat.le_succ _)).1] at houtcome
  exact houtcome

/-! ## Statements -/

namespace Shows

variable {window : Window} {parser : Parser}

/-- **A broken statement is skipped alike.** -/
theorem skipUpTo (h : window.Shows parser) {n : Nat} (hn : parser.remaining ≤ n) (depth : Nat) :
    (window.skipUpTo n depth).Shows
      { parser with ahead := skipStatement depth parser.ahead } := by
  induction n generalizing window parser depth with
  | zero =>
    have hnil : parser.ahead = [] := List.length_eq_zero_iff.mp (Nat.le_zero.mp hn)
    obtain ⟨ahead, stop, diagnostics, openBlocks⟩ := parser
    obtain rfl : ahead = [] := hnil
    exact h
  | succ n ih =>
    have hmore := fun depth => ih h.advance (Parser.remaining_advance_le_of_succ hn) depth
    obtain ⟨ahead, stop, diagnostics, openBlocks⟩ := parser
    have hcurrent := congrArg Token.kind h.current
    cases ahead with
    | nil =>
      rw [Window.skipUpTo, hcurrent]
      exact h
    | cons token rest =>
      -- the end of the input is no semicolon, so the two ask the same of the next token
      have hpeek : window.peek.kind = .semicolon ↔ rest.head?.map Token.kind = some .semicolon := by
        rw [h.peek]
        cases rest <;> simp [Parser.peek, Parser.endToken]
      change window.current.kind = token.kind at hcurrent
      rw [Window.skipUpTo, hcurrent, skipStatement]
      cases token.kind with
      | eof => exact h
      | semicolon =>
        by_cases hdepth : depth = 0
        · simp only [hdepth]
          exact h
        · simp only [hdepth]
          exact hmore depth
      | openCurly => exact hmore (depth + 1)
      | closeCurly =>
        by_cases hdepth : depth = 1
        · simp only [hdepth, hpeek, if_true]
          split
          · exact h.advance
          · exact h
        · simp only [hdepth]
          exact hmore (depth - 1)
      | _ => exact hmore depth

theorem skipBroken (h : window.Shows parser) : window.skipBroken.Shows parser.skipBroken := by
  have hclosed : Shows { window with openBlocks := 0 } { parser with openBlocks := 0 } :=
    { h with openBlocks := rfl }
  have hskip := hclosed.skipUpTo h.remaining_le window.openBlocks
  rw [h.openBlocks] at hskip
  rw [Window.skipBroken, h.openBlocks]
  exact hskip

theorem readStatement (h : window.Shows parser) (m : Nat) :
    (window.readStatement (.upTo m)).1 = (parser.readStatement (.upTo m)).1 ∧
      (window.readStatement (.upTo m)).2.Shows (parser.readStatement (.upTo m)).2 := by
  have houtcome := Grammar.RuleName.statement.inStep (Grammar.inStep_upTo inStep_shows m) inStep_shows
    window parser h
  simp only [Grammar.RuleName.rule] at houtcome
  unfold Window.readStatement Parser.readStatement
  generalize (Grammar.upTo m).statementRule window = result at houtcome ⊢
  generalize (Grammar.upTo m).statementRule parser = result' at houtcome ⊢
  cases houtcome with
  | ok statement hlater => exact ⟨rfl, hlater.advance⟩
  | error diagnostic hlater => exact ⟨rfl, (hlater.record diagnostic).skipBroken.advance⟩

/-- **Statements are read alike.** -/
theorem readStatements (h : window.Shows parser) (m n : Nat) :
    (window.readStatements (.upTo m) n).1 = (parser.readStatements (.upTo m) n).1 ∧
      (window.readStatements (.upTo m) n).2.Shows (parser.readStatements (.upTo m) n).2 := by
  induction n generalizing window parser with
  | zero => exact ⟨rfl, h⟩
  | succ n ih =>
    obtain ⟨hstatement, hlater⟩ := h.readStatement m
    obtain ⟨hothers, hlast⟩ := ih hlater
    rw [Window.readStatements, Parser.readStatements, h.atEnd]
    split
    · exact ⟨rfl, h⟩
    · refine ⟨?_, hlast⟩
      show _ ++ _ = _ ++ _
      rw [hstatement, hothers]

end Shows

end Window

end MonkeySyntax
