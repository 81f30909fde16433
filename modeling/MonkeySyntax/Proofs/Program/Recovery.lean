import MonkeySyntax.Proofs.Program.Turns

/-!
# MonkeySyntax — what is skipped of a broken statement

Reading goes on behind the end of a broken statement: the first semicolon outside of its blocks, or
the bracket that closes the outermost of them. The blocks are counted from where the statement
begins, while it is read and then while it is skipped.

The two counts meet where the statement breaks. If it breaks at the next token, the current one has
been counted already, and it is counted once more. This makes no difference but where it is the
bracket that closes a block while another one is open (`Parser.Recounts`); then a block that is
open is taken for closed.

* **`Parser.brokenAt`** — the index, from the first token of the statement on, of the token that the
  diagnostic is on.
* **`Parser.skipsFrom_brokenAt_iff`** — what is skipped is the rest of the statement exactly where
  no bracket is counted twice, or none is left that would show it.
-/

namespace MonkeySyntax

namespace Parser

variable {parser later : Parser} {diagnostic : Diagnostic} {ts : List Token}

/-- How many tokens behind the current one of `parser` the diagnostic is on, if `later` is where it
was found: the next token where another one is expected, and else the current one. At the end of the
input that is a block that is not closed. -/
def brokenAt (parser : Parser) (diagnostic : Diagnostic) (later : Parser) : Nat :=
  parser.remaining - later.remaining +
    if later.atEnd then 0 else diagnostic.cause.lookahead

/-- The diagnostic is on the token behind a bracket that closes a block inside of another one. -/
def Recounts (later : Parser) (diagnostic : Diagnostic) : Prop :=
  diagnostic.cause.lookahead = 1 ∧ later.current.kind = .closeCurly ∧ 0 < later.openBlocks

/-- A failure at a token that is ahead. -/
theorem brokenAt_reach {n depth : Nat} (hlt : n < parser.remaining)
    (hend : ∀ token ∈ parser.ahead, token.kind ≠ .eof) :
    parser.brokenAt diagnostic (parser.reach n depth) = n + diagnostic.cause.lookahead ∧
      (parser.reach n depth).atEnd = false := by
  have hnot : (parser.reach n depth).atEnd = false := by
    rw [atEnd, current_reach, current_skip hlt]
    exact decide_eq_false (hend _ (List.getElem_mem hlt))
  rw [remaining] at hlt
  rw [brokenAt, hnot, remaining, remaining, ahead_reach, List.length_drop]
  simp only [Bool.false_eq_true, if_false, and_true]
  omega

/-- A failure at the end of the input. -/
theorem brokenAt_reach_end {n depth : Nat} (hle : parser.remaining ≤ n) :
    parser.brokenAt diagnostic (parser.reach n depth) = parser.remaining := by
  have hnil : (parser.reach n depth).ahead = [] := List.drop_eq_nil_of_le hle
  have hatEnd : (parser.reach n depth).atEnd = true := by
    rw [atEnd, kind_current, hnil]
    rfl
  rw [brokenAt, hatEnd, remaining, remaining, hnil]
  rfl

theorem Breaks.brokenAt_eq (h : parser.Breaks ts diagnostic later)
    (hend : ∀ token ∈ parser.ahead, token.kind ≠ .eof) :
    parser.brokenAt diagnostic later = ts.length := by
  have hle := h.front.length_le
  rcases h.stops.place with ⟨rfl, hcause⟩ | ⟨j, hj, rfl, hcause, -⟩
  · rcases Nat.lt_or_eq_of_le hle with hlt | heq
    · obtain ⟨hbroken, hnot⟩ := parser.brokenAt_reach hlt hend
      have hzero := hcause.resolve_right (by rw [hnot]; exact Bool.false_ne_true)
      rw [hbroken, hzero, Nat.add_zero]
    · rw [brokenAt_reach_end (Nat.le_of_eq heq.symm), remaining, heq]
  · -- the token of the diagnostic is ahead, so this is not the end of the input
    have hlt : j < parser.remaining := Nat.lt_of_lt_of_le (by omega) hle
    rw [(parser.brokenAt_reach hlt hend).1, hcause, hj]

/-- **What is skipped of a broken statement.** At a turn on a source let a statement fail. Counting
blocks from the first token of the statement on, reading goes on where a broken statement ends that
breaks at the token of the diagnostic, if and only if no bracket is counted twice. If one is, then
unless more than one block is open and the input ends before they are closed. -/
theorem skipsFrom_brokenAt_iff {source : String} (hturn : parser.AtTurn source)
    (hrule : parseStatement parser = .error diagnostic later) :
    diagnostic.position = (parser.skip (parser.brokenAt diagnostic later)).current.span.start ∧
      (SkipsFrom 0 parser.ahead (parser.brokenAt diagnostic later)
          (later.record diagnostic).skipBroken.ahead ↔
        ¬ later.Recounts diagnostic ∨
          1 < later.openBlocks ∧ (later.record diagnostic).skipBroken.ahead = []) := by
  have hend := hturn.kind_ne_eof
  rw [parseStatement_eq] at hrule
  obtain ⟨ts, hbreaks, -⟩ := fails_statementRule hrule
  obtain ⟨rest, hrest⟩ := hbreaks.front
  have hdepth : braceDepth 0 (parser.ahead.take ts.length) = braceDepth parser.openBlocks ts := by
    rw [← hrest, List.take_left, hturn.invariant.1]
  rw [hbreaks.brokenAt_eq hend, skipsFrom_iff, hdepth]
  refine ⟨hbreaks.stops.names.1, ?_⟩
  show skipStatement later.openBlocks later.ahead = _ ↔
    _ ∨ 1 < later.openBlocks ∧ skipStatement later.openBlocks later.ahead = []
  rcases hbreaks.stops.place with ⟨rfl, hcause⟩ | ⟨j, hj, rfl, hcause, hkind⟩
  · -- the parser stands at the token of the diagnostic, which is counted once
    have hnot : ¬ (parser.reach ts.length (braceDepth parser.openBlocks ts)).Recounts
        diagnostic := by
      rintro ⟨hone, hclose, -⟩
      rcases hcause with hcause | hcause
      · exact absurd (hcause.symm.trans hone) (by decide)
      · exact absurd (hclose.symm.trans (of_decide_eq_true hcause)) (by decide)
    simp [hnot]
  · -- it stands at the token before, from which skipping starts
    have hlt : j < parser.ahead.length := by
      have hle := hbreaks.front.length_le
      omega
    have hsplit : parser.ahead.drop j = parser.ahead[j] :: parser.ahead.drop ts.length := by
      rw [hj, List.drop_eq_getElem_cons hlt]
    have hends : ∀ other ∈ parser.ahead[j] :: parser.ahead.drop ts.length, other.kind ≠ .eof := by
      rw [← hsplit]
      exact fun other hother => hend other (List.mem_of_mem_drop hother)
    rw [current_reach, current_skip hlt] at hkind
    rw [Recounts, current_reach, current_skip hlt, ahead_reach, hsplit, openBlocks_reach,
      skipStatement_cons_eq_iff hkind hends]
    simp [hcause]

/-- A statement that breaks inside of a block, at a token that is not a bracket. -/
theorem skipsFrom_brokenAt_in_block :
    ∃ parser diagnostic later,
      parser.AtTurn "\x7b let x 5; y; \x7d z;" ∧
      parseStatement parser = .error diagnostic later ∧ ¬ later.Recounts diagnostic ∧
      SkipsFrom 0 parser.ahead (parser.brokenAt diagnostic later)
        (later.record diagnostic).skipBroken.ahead := by
  have hrule : ∃ diagnostic later,
      parseStatement (ofSource "\x7b let x 5; y; \x7d z;") = .error diagnostic later ∧
        ¬ later.Recounts diagnostic := by
    refine ⟨_, _, rfl, ?_⟩
    rintro ⟨-, hclose, -⟩
    exact absurd hclose (by decide)
  obtain ⟨diagnostic, later, hrule, hnot⟩ := hrule
  exact ⟨_, diagnostic, later, .start, hrule, hnot,
    (skipsFrom_brokenAt_iff .start hrule).2.mpr (Or.inl hnot)⟩

/-- A group that breaks behind an `if`, whose bracket is counted twice: the block around it is taken
for closed, and the statement that follows in it is read as one of the program. -/
theorem not_skipsFrom_brokenAt :
    ∃ parser diagnostic later,
      parser.AtTurn "\x7b (if (a) \x7b b \x7d ; c; \x7d d;" ∧
      parseStatement parser = .error diagnostic later ∧ later.Recounts diagnostic ∧
      ¬ SkipsFrom 0 parser.ahead (parser.brokenAt diagnostic later)
        (later.record diagnostic).skipBroken.ahead ∧
      (parse "\x7b (if (a) \x7b b \x7d ; c; \x7d d;").1.statements.map (·.token.literal) =
        ["c"] := by
  refine ⟨_, _, _, .start, rfl, ⟨rfl, by decide, by decide⟩, ?_, rfl⟩
  rw [skipsFrom_iff]
  decide

end Parser

end MonkeySyntax
