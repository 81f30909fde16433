import MonkeySyntax.Proofs.Grammar.Failure
import MonkeySyntax.Proofs.Grammar.Parsing
import MonkeySyntax.Proofs.Parser.Skipping

/-!
# MonkeySyntax — the turns of the loop over a program

A program is read in turns. Each of them reads a statement, or reports why there is none and skips
to its end, and then moves on behind it. This module says what a turn does and what all of them
together do.

* **`Parser.turn`** — one turn; `turn_of_ok` and `turn_of_error` say where it leads.
* **`Parser.AtTurn source parser`** — a turn on `source` starts at `parser`.
* **`Parser.Turns parser segments`** — all turns up to the end of the input, with the tokens that
  each of them uses up. There always are such segments (`exists_turns`), and no others
  (`Turns.unique`); they are what a program is read into (`Turns.parse_eq`).
-/

namespace MonkeySyntax

/-! ## One turn -/

/-- The tokens that a turn uses up, and what it makes of them. -/
structure Segment where
  tokens : List Token
  outcome : Except Diagnostic Stmt

namespace Segment

def statement? (segment : Segment) : Option Stmt :=
  segment.outcome.toOption

def diagnostic? (segment : Segment) : Option Diagnostic :=
  match segment.outcome with
  | .ok _ => none
  | .error diagnostic => some diagnostic

variable (ts : List Token) (statement : Stmt) (diagnostic : Diagnostic)

@[simp]
theorem statement?_ok : statement? ⟨ts, .ok statement⟩ = some statement := rfl

@[simp]
theorem statement?_error : statement? ⟨ts, .error diagnostic⟩ = none := rfl

@[simp]
theorem diagnostic?_ok : diagnostic? ⟨ts, .ok statement⟩ = none := rfl

@[simp]
theorem diagnostic?_error : diagnostic? ⟨ts, .error diagnostic⟩ = some diagnostic := rfl

end Segment

namespace Parser

/-- Reads a statement, or reports why there is none and skips to its end; moves on behind it. -/
def turn (parser : Parser) : Except Diagnostic Stmt × Parser :=
  match parseStatement parser with
  | .ok statement later => (.ok statement, later.advance)
  | .error diagnostic later => (.error diagnostic, (later.record diagnostic).skipBroken.advance)

/-- The turns on `source` up to the one that starts here were not at the end of the input. -/
inductive AtTurn (source : String) : Parser → Prop where
  | start : AtTurn source (.ofSource source)
  | next {parser : Parser} (h : AtTurn source parser) (hend : parser.atEnd = false) :
      AtTurn source parser.turn.2

/-- The turns from here up to the end of the input. -/
inductive Turns : Parser → List Segment → Prop where
  | done {parser : Parser} (hend : parser.atEnd = true) : Turns parser []
  | next {parser later : Parser} {tokens : List Token} {outcome : Except Diagnostic Stmt}
      {segments : List Segment} (hend : parser.atEnd = false)
      (hturn : parser.turn = (outcome, later)) (hsplit : parser.ahead = tokens ++ later.ahead)
      (hmore : Turns later segments) : Turns parser (⟨tokens, outcome⟩ :: segments)

variable {parser later : Parser} {tree : Stmt} {diagnostic : Diagnostic}
  {outcome : Except Diagnostic Stmt}

/-- The loop reads a statement by a turn. -/
theorem readStatement_eq (parser : Parser) :
    parser.readStatement .unbounded = (parser.turn.1.toOption, parser.turn.2) := by
  rw [readStatement, turn, parseStatement_eq]
  cases Grammar.unbounded.statementRule parser <;> rfl

/-- A turn that reads a statement uses up its tokens, which are derived in front of the next one. -/
theorem turn_of_ok (h : parser.turn = (.ok tree, later)) :
    ∃ init last, parser.ahead = init ++ last :: later.ahead ∧
      later = { parser with ahead := later.ahead } ∧
      Derives (.statement (firstKind later.ahead .eof) tree) (init ++ [last]) ∧
      Grammar.unbounded.statementRule parser =
        .ok tree { parser with ahead := last :: later.ahead } := by
  rw [turn, parseStatement_eq] at h
  cases hrule : Grammar.unbounded.statementRule parser with
  | error diagnostic mid =>
    rw [hrule] at h
    cases h
  | ok statement mid =>
    rw [hrule] at h
    cases h
    obtain ⟨hupTo, -⟩ := Grammar.agree_statementRule parser.remaining parser (Nat.le_refl _)
    have hread := (Grammar.sound_upTo _).statementRule (Nat.le_succ _) (hupTo.trans hrule)
    have hend : ¬ (Phrase.statement mid.peek.kind tree).Begins .eof := Bool.false_ne_true
    obtain ⟨init, last, rest, hsplit, rfl, hderives⟩ := hread.exists_split hend
    have hnext : firstKind rest .eof =
        (Parser.peek { parser with ahead := last :: rest }).kind := by
      rw [← current_advance, kind_current]
      rfl
    exact ⟨init, last, hsplit, rfl, hnext ▸ hderives, rfl⟩

/-- A turn that reads a statement moves on by its tokens and does nothing else. -/
theorem exists_last_of_turn {tree : Stmt} {tokens : List Token}
    (hturn : parser.turn = (.ok tree, later)) (hsplit : parser.ahead = tokens ++ later.ahead) :
    ∃ init last, tokens = init ++ [last] ∧ later = parser.skip tokens.length ∧
      Derives (.statement (firstKind later.ahead .eof) tree) tokens ∧
      parser.ahead = init ++ last :: later.ahead ∧
      Grammar.unbounded.statementRule parser =
        .ok tree { parser with ahead := last :: later.ahead } := by
  obtain ⟨init, last, hahead, hlater, hderives, hrule⟩ := turn_of_ok hturn
  have htokens : init ++ [last] = tokens := by
    have hsplit' : parser.ahead = init ++ [last] ++ later.ahead := by
      rw [hahead, List.append_assoc, List.singleton_append]
    exact List.append_cancel_right (hsplit'.symm.trans hsplit)
  refine ⟨init, last, htokens.symm, ?_, htokens ▸ hderives, hahead, hrule⟩
  rw [hlater, skip, hsplit, List.drop_left]

/-- A turn that fails goes on behind the end of the broken statement. -/
theorem turn_of_error (h : parser.turn = (.error diagnostic, later)) :
    ∃ mid, Grammar.unbounded.statementRule parser = .error diagnostic mid ∧
      later = (mid.record diagnostic).skipBroken.advance := by
  rw [turn, parseStatement_eq] at h
  cases hrule : Grammar.unbounded.statementRule parser with
  | error diagnostic mid =>
    rw [hrule] at h
    cases h
    exact ⟨mid, rfl, rfl⟩
  | ok statement mid =>
    rw [hrule] at h
    cases h

theorem turn_eq_of_ok (h : Grammar.unbounded.statementRule parser = .ok tree later) :
    parser.turn = (.ok tree, later.advance) := by
  rw [turn, parseStatement_eq, h]

theorem turn_eq_of_error (h : Grammar.unbounded.statementRule parser = .error diagnostic later) :
    parser.turn = (.error diagnostic, (later.record diagnostic).skipBroken.advance) := by
  rw [turn, parseStatement_eq, h]

/-- Where a statement fails nothing is lost of the tokens but those in front. -/
theorem onward_of_error {mid : Parser}
    (h : Grammar.unbounded.statementRule parser = .error diagnostic mid) : parser.Onward mid := by
  have hon := parser.onward_statementRule
  unfold Rule.leaves at hon
  rw [h] at hon
  exact hon

/-- A turn leads on behind the token at which it starts. -/
theorem ahead_turn (parser : Parser) : parser.turn.2.ahead <:+ parser.ahead.tail := by
  -- what is left is the tail of some tail of the tokens ahead
  have htail : ∀ {ts : List Token}, ts <:+ parser.ahead → ts.tail <:+ parser.ahead.tail := by
    rintro ts ⟨front, hfront⟩
    rw [← hfront]
    cases front with
    | nil => exact List.suffix_refl _
    | cons token front => exact (List.tail_suffix ts).trans (List.suffix_append front ts)
  rw [turn, parseStatement_eq]
  have hon := parser.onward_statementRule
  unfold Rule.leaves at hon
  cases hrule : Grammar.unbounded.statementRule parser with
  | ok statement later =>
    rw [hrule] at hon
    exact htail hon.ahead
  | error diagnostic later =>
    rw [hrule] at hon
    exact htail ((skipStatement_suffix _ _).trans hon.ahead)

theorem remaining_turn_lt (hend : parser.atEnd = false) :
    parser.turn.2.remaining < parser.remaining :=
  Nat.lt_of_le_of_lt parser.ahead_turn.length_le (remaining_advance_lt hend)

theorem stop_turn (parser : Parser) : parser.turn.2.stop = parser.stop := by
  cases hturn : parser.turn with
  | mk outcome later =>
    cases outcome with
    | ok tree =>
      obtain ⟨_, _, -, hlater, -⟩ := turn_of_ok hturn
      rw [hlater]
    | error diagnostic =>
      obtain ⟨mid, hrule, rfl⟩ := turn_of_error hturn
      exact (onward_of_error hrule).stop

theorem endToken_of_turn (h : parser.turn = (outcome, later)) :
    later.endToken = parser.endToken := by
  have hstop := parser.stop_turn
  rw [h] at hstop
  rw [endToken, endToken, hstop]

/-- A turn leaves no block open. -/
theorem openBlocks_turn (hopen : parser.openBlocks = 0) : parser.turn.2.openBlocks = 0 := by
  cases hturn : parser.turn with
  | mk outcome later =>
    cases outcome with
    | ok tree =>
      obtain ⟨_, _, -, hlater, -⟩ := turn_of_ok hturn
      rw [hlater]
      exact hopen
    | error diagnostic =>
      obtain ⟨mid, -, rfl⟩ := turn_of_error hturn
      rfl

theorem diagnostics_turn (h : parser.turn = (outcome, later)) (tokens : List Token) :
    later.diagnostics = parser.diagnostics ++ (Segment.mk tokens outcome).diagnostic?.toList := by
  cases outcome with
  | ok tree =>
    obtain ⟨_, _, -, hlater, -⟩ := turn_of_ok h
    rw [hlater]
    exact (List.append_nil _).symm
  | error diagnostic =>
    obtain ⟨mid, hrule, rfl⟩ := turn_of_error h
    exact congrArg (· ++ [diagnostic]) (onward_of_error hrule).diagnostics

/-! ## All turns -/

/-- A bound that covers what is left makes no difference to the statements that are read. -/
theorem readStatements_eq_of_le (parser : Parser) {n m : Nat} (hn : parser.remaining ≤ n)
    (hm : parser.remaining ≤ m) :
    parser.readStatements .unbounded n = parser.readStatements .unbounded m := by
  cases hend : parser.atEnd with
  | true => rw [readStatements_of_atEnd hend, readStatements_of_atEnd hend]
  | false =>
    -- both bounds allow for a turn, and cover what is left after it
    have hlt := remaining_turn_lt hend
    obtain ⟨n, rfl⟩ : ∃ k, n = k + 1 := Nat.exists_eq_succ_of_ne_zero (by omega)
    obtain ⟨m, rfl⟩ : ∃ k, m = k + 1 := Nat.exists_eq_succ_of_ne_zero (by omega)
    rw [readStatements_succ, readStatements_succ, readStatement_eq,
      parser.turn.2.readStatements_eq_of_le (Nat.le_of_lt_succ (Nat.lt_of_lt_of_le hlt hn))
        (Nat.le_of_lt_succ (Nat.lt_of_lt_of_le hlt hm))]
termination_by parser.remaining

/-- Where a turn starts, no block is open, and the tokens ahead are the last ones of the source. -/
theorem AtTurn.invariant {source : String} (h : parser.AtTurn source) :
    parser.openBlocks = 0 ∧ parser.ahead <:+ (ofSource source).ahead := by
  induction h with
  | start => exact ⟨rfl, List.suffix_refl _⟩
  | @next parser _ _ ih =>
    obtain ⟨hopen, hahead⟩ := ih
    exact ⟨openBlocks_turn hopen, parser.ahead_turn.trans ((List.tail_suffix _).trans hahead)⟩

theorem exists_turns (parser : Parser) : ∃ segments, parser.Turns segments := by
  induction hn : parser.remaining using Nat.strongRecOn generalizing parser with
  | ind n ih =>
    cases hend : parser.atEnd with
    | true => exact ⟨[], .done hend⟩
    | false =>
      obtain ⟨tokens, hsplit⟩ := parser.ahead_turn.trans (List.tail_suffix _)
      obtain ⟨segments, hmore⟩ := ih _ (hn ▸ remaining_turn_lt hend) parser.turn.2 rfl
      exact ⟨_, .next hend rfl hsplit.symm hmore⟩

namespace Turns

variable {segments : List Segment}

/-- **The statements and the diagnostics of a program are those of its turns**, in their order. -/
theorem readStatements (h : parser.Turns segments) {n : Nat} (hn : parser.remaining ≤ n) :
    (parser.readStatements .unbounded n).1 = segments.filterMap Segment.statement? ∧
      (parser.readStatements .unbounded n).2.diagnostics =
        parser.diagnostics ++ segments.filterMap Segment.diagnostic? := by
  induction h generalizing n with
  | done hend =>
    rw [readStatements_of_atEnd hend]
    exact ⟨rfl, (List.append_nil _).symm⟩
  | @next parser later tokens outcome segments hend hturn _ _ ih =>
    have hlt := remaining_turn_lt hend
    rw [hturn] at hlt
    obtain ⟨n, rfl⟩ : ∃ m, n = m + 1 := Nat.exists_eq_succ_of_ne_zero (by omega)
    obtain ⟨hstatements, hdiagnostics⟩ := ih (Nat.le_of_lt_succ (Nat.lt_of_lt_of_le hlt hn))
    rw [readStatements_succ, hend, readStatement_eq, hturn]
    constructor
    · show outcome.toOption.toList ++ _ = _
      rw [hstatements, List.filterMap_cons]
      cases outcome <;> rfl
    · show (Parser.readStatements .unbounded n later).2.diagnostics = _
      rw [hdiagnostics, diagnostics_turn hturn tokens, List.append_assoc, List.filterMap_cons]
      cases outcome <;> rfl

/-- **A source is read into its turns.** -/
theorem parse_eq {source : String} (h : (ofSource source).Turns segments) :
    parse source = (⟨segments.filterMap Segment.statement?⟩,
      segments.filterMap Segment.diagnostic?) := by
  obtain ⟨hstatements, hdiagnostics⟩ := h.readStatements (Nat.le_refl _)
  rw [parse, parseProgram_eq]
  exact Prod.ext (congrArg Program.mk hstatements) hdiagnostics

/-- There is one way to take turns. -/
theorem unique {others : List Segment} (h : parser.Turns segments) (h' : parser.Turns others) :
    others = segments := by
  induction h generalizing others with
  | done hend =>
    cases h' with
    | done => rfl
    | next hend' => exact absurd (hend'.symm.trans hend) Bool.false_ne_true
  | next hend hturn hsplit _ ih =>
    cases h' with
    | done hend' => exact absurd (hend.symm.trans hend') Bool.false_ne_true
    | next _ hturn' hsplit' hmore' =>
      rw [hturn] at hturn'
      cases hturn'
      rw [ih hmore', List.append_cancel_right (hsplit'.symm.trans hsplit)]

/-- The turns use up the tokens ahead, none of which is the end of the input. -/
theorem flatMap_tokens (h : parser.Turns segments)
    (hend : ∀ token ∈ parser.ahead, token.kind ≠ .eof) :
    segments.flatMap Segment.tokens = parser.ahead := by
  induction h with
  | @done parser hdone =>
    have hkind : parser.current.kind = .eof := of_decide_eq_true hdone
    cases hahead : parser.ahead with
    | nil => rfl
    | cons token rest =>
      rw [kind_current, hahead] at hkind
      exact absurd hkind (hend token (by rw [hahead]; exact List.mem_cons_self))
  | next _ _ hsplit _ ih =>
    rw [List.flatMap_cons, hsplit, ih]
    intro token htoken
    exact hend token (by rw [hsplit]; exact List.mem_append_right _ htoken)

end Turns

/-- No token of a source is the end of the input. -/
theorem AtTurn.kind_ne_eof {source : String} (h : parser.AtTurn source) :
    ∀ token ∈ parser.ahead, token.kind ≠ .eof := fun token htoken =>
  ((faces_ofSource source).lexical token (h.invariant.2.subset htoken)).kind_ne_eof

end Parser

end MonkeySyntax
