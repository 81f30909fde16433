import MonkeySyntax.Proofs.Program.Recovery

/-!
# MonkeySyntax — turns on parsers that are alike

What a turn does is decided by the tokens that it reads and by one more, so it does the same on
every parser that is alike so far. A parser whose tokens are those of another one at other places is
alike all the way, and then all turns are.

* **`Parser.statementRule_of_ok`**, **`Parser.statementRule_of_error`** — a statement that is read,
  or fails, on one parser is read, or fails, on every parser that is alike up to the token behind
  it, or up to the token of the diagnostic.
* **`Parser.Moved place parser other`** — `other` has the tokens of `parser` where `place` puts
  them. `Moved.turns` says that its turns are those of `parser`, moved.
-/

namespace MonkeySyntax

namespace Parser

variable {place : Position → Position} {parser other later : Parser} {tree : Stmt}
  {diagnostic : Diagnostic} {ts : List Token}

/-! ## Alike up to the end -/

theorem Like.atEnd {n : Nat} (h : parser.Like place n other) : other.atEnd = parser.atEnd := by
  rw [Parser.atEnd, Parser.atEnd, h.current, Token.kind_moved]

/-- Where a token is ahead that is not the end of the input, a parser that is alike has one as
well. -/
theorem Like.lt_remaining {n i : Nat} (h : parser.Like place n other) (hi : i ≤ n)
    (hlt : i < parser.remaining) (hend : ∀ token ∈ parser.ahead, token.kind ≠ .eof) :
    i < other.remaining := by
  have hkind : (parser.skip i).current.kind ≠ .eof := by
    rw [current_skip hlt]
    exact hend _ (List.getElem_mem hlt)
  apply Nat.lt_of_not_le
  intro hle
  have htoken := congrArg Token.kind (h.token i hi)
  rw [Token.kind_moved, kind_current, ahead_skip, List.drop_eq_nil_of_le hle] at htoken
  exact hkind htoken.symm

/-- Parsers that are alike up to the end of the input are alike everywhere. -/
theorem Like.of_remaining {n : Nat} (h : parser.Like place n other) (hn : parser.remaining ≤ n)
    (hother : ∀ token ∈ other.ahead, token.kind ≠ .eof) (m : Nat) :
    parser.Like place m other ∧ other.remaining ≤ parser.remaining := by
  have hlast := h.token _ hn
  have hnil : (parser.skip parser.remaining).ahead = [] := List.drop_length
  have hnil' : other.remaining ≤ parser.remaining := by
    apply Nat.le_of_not_lt
    intro hlt
    have hkind := congrArg Token.kind hlast
    rw [Token.kind_moved, current_skip hlt, kind_current, hnil] at hkind
    exact hother _ (List.getElem_mem hlt) hkind
  refine ⟨⟨fun i _ => ?_, h.openBlocks⟩, hnil'⟩
  rcases Nat.le_total i n with hle | hle
  · exact h.token i hle
  · -- both stand behind their last token
    have hend : ∀ (i : Nat) (p : Parser), p.remaining ≤ i → (p.skip i).current = p.endToken := by
      intro i p hi
      rw [Parser.current, ahead_skip, List.drop_eq_nil_of_le hi]
      rfl
    have hle' := Nat.le_trans hn hle
    rw [hend _ _ (Nat.le_refl _), hend _ _ hnil'] at hlast
    rw [hend _ _ hle', hend _ _ (Nat.le_trans hnil' hle'), hlast]

/-! ## One statement -/

/-- How far a parser is on, where tokens are left. -/
theorem eq_of_reach_eq {n m depth openBlocks : Nat}
    (h : parser.reach n depth = parser.reach m openBlocks) (hm : m < parser.remaining) :
    n = m ∧ depth = openBlocks := by
  have hlength := congrArg (List.length ∘ Parser.ahead) h
  simp only [Function.comp, ahead_reach, List.length_drop] at hlength
  rw [remaining] at hm
  exact ⟨by omega, congrArg Parser.openBlocks h⟩

/-- **A statement that is read** is read on every parser that is alike up to the token behind it. -/
theorem statementRule_of_ok {init rest : List Token} {last : Token}
    (hsplit : parser.ahead = init ++ last :: rest)
    (hrule : Grammar.unbounded.statementRule parser =
      .ok tree { parser with ahead := last :: rest })
    (hlike : parser.Like place (init.length + 1) other) :
    Grammar.unbounded.statementRule other =
      .ok (tree.retoken (.moved place)) (other.skip init.length) := by
  obtain ⟨n, depth, hlater, hother⟩ := statementRule_ok_of_like other hrule
  have hlast : parser.reach n depth = parser.reach init.length parser.openBlocks := by
    rw [← hlater, reach, skip, hsplit, List.drop_left]
  have hlt : init.length < parser.remaining := by
    rw [remaining, hsplit, List.length_append, List.length_cons]
    omega
  obtain ⟨rfl, rfl⟩ := eq_of_reach_eq hlast hlt
  rw [hother hlike, ← hlike.openBlocks]
  rfl

/-- **A statement that fails** fails on every parser that is alike up to the token that the
diagnostic is on, and at that token. -/
theorem statementRule_of_error
    (hrule : Grammar.unbounded.statementRule parser = .error diagnostic later)
    (hbreaks : parser.Breaks ts diagnostic later)
    (hend : ∀ token ∈ parser.ahead, token.kind ≠ .eof)
    (hother : ∀ token ∈ other.ahead, token.kind ≠ .eof)
    (hlike : parser.Like place ts.length other) :
    ∃ n depth, later = parser.reach n depth ∧
      Grammar.unbounded.statementRule other =
        .error (diagnostic.moved place) (other.reach n depth) ∧
      other.brokenAt (diagnostic.moved place) (other.reach n depth) = ts.length := by
  obtain ⟨n, depth, hlater, hfails⟩ := statementRule_error_of_like other hrule
  have hbroken := hbreaks.brokenAt_eq hend
  refine ⟨n, depth, hlater, ?_⟩
  rcases Nat.lt_or_ge n parser.remaining with hlt | hge
  · rw [hlater, (parser.brokenAt_reach hlt hend).1] at hbroken
    rw [hbroken] at hfails
    have hlt' := hlike.lt_remaining (by omega) hlt hend
    exact ⟨hfails hlike, ((brokenAt_reach hlt' hother).1).trans hbroken⟩
  · -- the failure is at the end of the input, which both come to after as many tokens
    rw [hlater, brokenAt_reach_end hge] at hbroken
    have hall := hlike.of_remaining (Nat.le_of_eq hbroken) hother
    have hge' : parser.remaining ≤ other.remaining := by
      apply Nat.le_of_not_lt
      intro hlt
      exact Nat.lt_irrefl _ (hlike.lt_remaining (by omega) hlt hend)
    have heq := Nat.le_antisymm (hall 0).2 hge'
    refine ⟨hfails (hall _).1, ?_⟩
    rw [brokenAt_reach_end (heq ▸ hge), heq, hbroken]

end Parser

/-! ## Segments at other places -/

/-- What a turn gives, where `place` puts it. -/
def movedOutcome (place : Position → Position) : Except Diagnostic Stmt → Except Diagnostic Stmt
  | .ok tree => .ok (tree.retoken (.moved place))
  | .error diagnostic => .error (diagnostic.moved place)

namespace Segment

/-- The segment where `place` puts it. -/
def moved (place : Position → Position) (segment : Segment) : Segment :=
  ⟨segment.tokens.map (.moved place), movedOutcome place segment.outcome⟩

theorem filterMap_statement_moved (place : Position → Position) (segments : List Segment) :
    (segments.map (moved place)).filterMap statement? =
      (segments.filterMap statement?).map (Stmt.retoken (.moved place)) := by
  rw [List.filterMap_map, List.map_filterMap]
  congr 1
  funext segment
  obtain ⟨ts, outcome⟩ := segment
  cases outcome <;> rfl

theorem filterMap_diagnostic_moved (place : Position → Position) (segments : List Segment) :
    (segments.map (moved place)).filterMap diagnostic? =
      (segments.filterMap diagnostic?).map (Diagnostic.moved place) := by
  rw [List.filterMap_map, List.map_filterMap]
  congr 1
  funext segment
  obtain ⟨ts, outcome⟩ := segment
  cases outcome <;> rfl

end Segment

/-! ## Parsers at other places -/

/-- Skipping looks at the kinds of tokens alone. -/
theorem skipStatement_map (place : Position → Position) (depth : Nat) (ts : List Token) :
    skipStatement depth (ts.map (.moved place)) = (skipStatement depth ts).map (.moved place) := by
  induction ts generalizing depth with
  | nil => rfl
  | cons token ts ih =>
    have hhead : (ts.map (Token.moved place)).head?.map Token.kind = ts.head?.map Token.kind := by
      cases ts <;> rfl
    rw [List.map_cons, skipStatement, skipStatement, Token.kind_moved, hhead]
    cases token.kind with
    | eof => rfl
    | semicolon =>
      dsimp only
      split
      · rfl
      · exact ih depth
    | closeCurly =>
      dsimp only
      split
      · split <;> rfl
      · exact ih (depth - 1)
    | _ => exact ih _

namespace Parser

variable {place : Position → Position} {parser other later : Parser}

/-- The tokens of `other` are those of `parser` where `place` puts them, and as many blocks are
open. -/
structure Moved (place : Position → Position) (parser other : Parser) : Prop where
  ahead : other.ahead = parser.ahead.map (.moved place)
  stop : other.stop = place parser.stop
  openBlocks : other.openBlocks = parser.openBlocks

namespace Moved

theorem like (h : parser.Moved place other) (n : Nat) : parser.Like place n other := by
  refine ⟨fun i _ => ?_, h.openBlocks⟩
  rw [current, current, ahead_skip, ahead_skip, h.ahead, ← List.map_drop]
  cases parser.ahead.drop i with
  | nil =>
    show other.endToken = parser.endToken.moved place
    rw [endToken, h.stop]
    rfl
  | cons token rest => rfl

theorem kind_ne_eof (h : parser.Moved place other)
    (hend : ∀ token ∈ parser.ahead, token.kind ≠ .eof) :
    ∀ token ∈ other.ahead, token.kind ≠ .eof := by
  rw [h.ahead, List.forall_mem_map]
  exact hend

/-- A turn on the tokens at other places. -/
theorem turn {outcome : Except Diagnostic Stmt} (h : parser.Moved place other)
    (hend : ∀ token ∈ parser.ahead, token.kind ≠ .eof) (hturn : parser.turn = (outcome, later)) :
    ∃ last, other.turn = (movedOutcome place outcome, last) ∧ later.Moved place last := by
  cases outcome with
  | ok tree =>
    obtain ⟨init, last, hsplit, hlater, -, hrule⟩ := turn_of_ok hturn
    have hother := turn_eq_of_ok (statementRule_of_ok hsplit hrule (h.like _))
    refine ⟨_, hother, ?_⟩
    rw [advance_skip, hlater]
    refine ⟨?_, h.stop, h.openBlocks⟩
    rw [ahead_skip, h.ahead, ← List.map_drop, hsplit, List.drop_append, List.drop_eq_nil_of_le
      (Nat.le_succ _), Nat.add_sub_cancel_left]
    rfl
  | error diagnostic =>
    obtain ⟨mid, hrule, rfl⟩ := turn_of_error hturn
    obtain ⟨ts, hbreaks, -⟩ := fails_statementRule hrule
    obtain ⟨n, depth, rfl, hfails, -⟩ :=
      statementRule_of_error hrule hbreaks hend (h.kind_ne_eof hend) (h.like _)
    refine ⟨_, turn_eq_of_error hfails, ?_, h.stop, rfl⟩
    show (skipStatement depth (other.ahead.drop n)).tail =
      (skipStatement depth (parser.ahead.drop n)).tail.map (.moved place)
    rw [h.ahead, ← List.map_drop, skipStatement_map, List.map_tail]

/-- **The turns on the tokens at other places.** -/
theorem turns {segments : List Segment} (h : parser.Moved place other)
    (hend : ∀ token ∈ parser.ahead, token.kind ≠ .eof) (hturns : parser.Turns segments) :
    other.Turns (segments.map (.moved place)) := by
  induction hturns generalizing other with
  | done hdone => exact .done ((h.like 0).atEnd.trans hdone)
  | @next parser later tokens outcome segments hfirst hturn hsplit _ ih =>
    obtain ⟨last, hother, hlast⟩ := h.turn hend hturn
    refine .next ((h.like 0).atEnd.trans hfirst) hother ?_ (ih hlast ?_)
    · rw [h.ahead, hsplit, List.map_append, hlast.ahead]
    · rw [hsplit] at hend
      exact fun token htoken => hend token (List.mem_append_right _ htoken)

end Moved

end Parser

end MonkeySyntax
