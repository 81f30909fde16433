import Mathlib.Data.Nat.Find
import Mathlib.Logic.Function.Iterate
import Mathlib.Order.Bounds.Basic
import MonkeySyntax.Proofs.Grammar.Braces
import MonkeySyntax.Proofs.Lexer.Session
import MonkeySyntax.Proofs.Parser.Window

/-!
# MonkeySyntax — where a window stops skipping

A window skips a broken statement token by token, with a count of the blocks that are open. It stops
at the first token at which the statement can end, from whatever token and with whatever count it
started, and it does no more than move on to it.

* **`Window.token`**, **`Window.depthAt`** — the tokens from the current one on, and the blocks that
  are open before each of them.
* **`Window.CanStop`** — a broken statement can end at a token.
* **`Window.skipUpTo_of_canStop`**, **`Window.skipUpTo_of_not_canStop`** — one round of the loop: it
  stops, or it goes on from the next token. `Window.skipUpTo_iterate` goes on over several tokens.
* **`skipBroken_stops`** — where a window stops.
-/

namespace MonkeySyntax

namespace Window

variable {window : Window} {depth : Nat}

/-! ## The tokens from the current one on -/

/-- The token that is current after `j` steps. -/
def token (window : Window) (j : Nat) : Token :=
  (advance^[j] window).current

/-- The blocks that are open before token `j`, where `depth` are open before the current one. -/
def depthAt (window : Window) (depth j : Nat) : Nat :=
  braceDepth depth ((List.range j).map window.token)

/-- A broken statement can end at token `j`: it is the end of the input, a semicolon outside of all
blocks, or the bracket that closes the last open block. -/
def CanStop (window : Window) (depth j : Nat) : Prop :=
  (window.token j).kind = .eof ∨
    (window.token j).kind = .semicolon ∧ window.depthAt depth j = 0 ∨
    (window.token j).kind = .closeCurly ∧ window.depthAt depth j = 1

instance (window : Window) (depth j : Nat) : Decidable (window.CanStop depth j) :=
  inferInstanceAs (Decidable (_ ∨ _))

/-- Token `j`, or the semicolon behind it if it closes a block. -/
def pastBlock (window : Window) (j : Nat) : Nat :=
  if (window.token j).kind = .closeCurly ∧ (window.token (j + 1)).kind = .semicolon then j + 1 else j

theorem token_iterate (i j : Nat) : (advance^[i] window).token j = window.token (i + j) := by
  rw [token, token, ← Function.iterate_add_apply, Nat.add_comm]

theorem token_one : window.token 1 = window.peek := by
  show window.advance.current = window.peek
  rw [advance]

theorem depthAt_succ (j : Nat) :
    window.depthAt depth (j + 1) = (window.token j).kind.nest (window.depthAt depth j) := by
  rw [depthAt, List.range_succ, List.map_append, braceDepth_append]
  rfl

theorem canStop_iterate (j : Nat) :
    (advance^[j] window).CanStop (window.depthAt depth j) 0 ↔ window.CanStop depth j := by
  unfold CanStop
  rw [token_iterate, Nat.add_zero]
  rfl

theorem pastBlock_iterate (j : Nat) :
    advance^[(advance^[j] window).pastBlock 0] (advance^[j] window) =
      advance^[window.pastBlock j] window := by
  unfold pastBlock
  rw [token_iterate, token_iterate, ← Function.iterate_add_apply, Nat.add_zero, Nat.zero_add]
  split
  · rw [Nat.add_comm]
  · rw [Nat.zero_add]

/-! ## One round and several -/

theorem skipUpTo_of_canStop (h : window.CanStop depth 0) (n : Nat) :
    window.skipUpTo (n + 1) depth = advance^[window.pastBlock 0] window := by
  unfold CanStop at h
  unfold pastBlock
  rw [token_one]
  change window.current.kind = .eof ∨ window.current.kind = .semicolon ∧ depth = 0 ∨
    window.current.kind = .closeCurly ∧ depth = 1 at h
  show _ = advance^[if window.current.kind = .closeCurly ∧ window.peek.kind = .semicolon
    then 1 else 0] window
  rw [skipUpTo]
  rcases h with hkind | ⟨hkind, rfl⟩ | ⟨hkind, rfl⟩
  · simp [hkind]
  · simp [hkind]
  · by_cases hpeek : window.peek.kind = .semicolon <;> simp [hkind, hpeek]

theorem skipUpTo_of_not_canStop (h : ¬ window.CanStop depth 0) (n : Nat) :
    window.skipUpTo (n + 1) depth =
      window.advance.skipUpTo n (window.current.kind.nest depth) := by
  unfold CanStop at h
  change ¬ (window.current.kind = .eof ∨ window.current.kind = .semicolon ∧ depth = 0 ∨
    window.current.kind = .closeCurly ∧ depth = 1) at h
  rw [skipUpTo]
  cases hkind : window.current.kind with
  | eof => exact absurd (Or.inl hkind) h
  | semicolon =>
    have hdepth : depth ≠ 0 := fun hzero => h (Or.inr (Or.inl ⟨hkind, hzero⟩))
    exact if_neg hdepth
  | closeCurly =>
    have hdepth : depth ≠ 1 := fun hone => h (Or.inr (Or.inr ⟨hkind, hone⟩))
    exact if_neg hdepth
  | _ => rfl

/-- Over tokens at which the statement cannot end one goes on, with the blocks counted. -/
theorem skipUpTo_iterate (n j : Nat) (h : ∀ i < j, ¬ window.CanStop depth i) :
    window.skipUpTo (n + j) depth =
      (advance^[j] window).skipUpTo n (window.depthAt depth j) := by
  induction j generalizing n with
  | zero => rfl
  | succ j ih =>
    have hround := ih (n + 1) fun i hi => h i (Nat.lt_succ_of_lt hi)
    rw [Nat.add_right_comm] at hround
    rw [← Nat.add_assoc, hround, depthAt_succ, Function.iterate_succ_apply']
    exact skipUpTo_of_not_canStop (mt (canStop_iterate j).mp (h j (Nat.lt_succ_self j))) n

/-- **Skipping stops at the first token at which the statement can end**, where the bound reaches
to the end of the input. -/
theorem skipUpTo_stops {n : Nat} (hend : (window.token n).kind = .eof) (depth : Nat) :
    ∃ j, IsLeast {j | window.CanStop depth j} j ∧
      window.skipUpTo n depth = advance^[window.pastBlock j] window := by
  have hstops : ∃ j, window.CanStop depth j := ⟨n, Or.inl hend⟩
  have hj := Nat.find_spec hstops
  have hless : ∀ i < Nat.find hstops, ¬ window.CanStop depth i := fun i hi => Nat.find_min hstops hi
  have hn : Nat.find hstops ≤ n := Nat.find_min' hstops (Or.inl hend)
  refine ⟨Nat.find hstops, ⟨hj, fun i hi => Nat.find_min' hstops hi⟩, ?_⟩
  generalize Nat.find hstops = j at hj hless hn
  rcases Nat.lt_or_eq_of_le hn with hlt | rfl
  · obtain ⟨k, rfl⟩ : ∃ k, n = k + 1 + j := ⟨n - (j + 1), by omega⟩
    rw [skipUpTo_iterate (k + 1) j hless, skipUpTo_of_canStop ((canStop_iterate j).mpr hj) k,
      pastBlock_iterate]
  · -- the bound is used up at the end of the input, where nothing more is done
    have hround := skipUpTo_iterate 0 j hless
    rw [Nat.zero_add] at hround
    rw [hround, pastBlock, hend, if_neg (by simp)]
    rfl

/-! ## The bound of a window -/

theorem lexer_iterate (window : Window) (j : Nat) :
    (advance^[j] window).lexer = window.lexer.after j := by
  induction j generalizing window with
  | zero => rfl
  | succ j ih =>
    rw [Function.iterate_succ_apply, ih window.advance, advance_eq]
    rfl

/-- Behind the two tokens that a window holds come those of its lexer. -/
theorem token_add_two (window : Window) (j : Nat) :
    window.token (j + 2) = window.lexer.stream j := by
  rw [token, Function.iterate_succ_apply', advance_eq, Function.iterate_succ_apply', advance_eq,
    lexer_iterate]
  rfl

/-- The bound of a window reaches to the end of the input. -/
theorem kind_token_remaining (h : window.lexer.Coherent) :
    (window.token window.remaining).kind = .eof := by
  show (window.token (window.lexer.source.size + 2)).kind = .eof
  rw [token_add_two, h.stream_eq, List.getD_eq_getElem?_getD,
    List.getElem?_eq_none window.lexer.length_pending_le]
  rfl

theorem diagnostics_iterate (window : Window) (j : Nat) :
    (advance^[j] window).diagnostics = window.diagnostics := by
  induction j generalizing window with
  | zero => rfl
  | succ j ih =>
    rw [Function.iterate_succ_apply, ih window.advance, advance_eq]

theorem iterate_openBlocks (window : Window) (openBlocks j : Nat) :
    advance^[j] { window with openBlocks } = { advance^[j] window with openBlocks } := by
  induction j generalizing window with
  | zero => rfl
  | succ j ih =>
    rw [Function.iterate_succ_apply, Function.iterate_succ_apply, ← ih window.advance, advance_eq,
      advance_eq]

theorem token_openBlocks (window : Window) (openBlocks : Nat) :
    token { window with openBlocks } = window.token := by
  funext j
  rw [token, iterate_openBlocks]
  rfl

/-! ## Broken statements -/

/-- From `window` on one skips to the first token at which the broken statement can end, or to the
semicolon behind it if it closes a block. There, at `last`, no block is open, and that is all. -/
def SkipsTo (window last : Window) : Prop :=
  ∃ j, IsLeast {j | window.CanStop window.openBlocks j} j ∧
    last = { advance^[window.pastBlock j] window with openBlocks := 0 }

theorem skipsTo_skipBroken (h : window.lexer.Coherent) : window.SkipsTo window.skipBroken := by
  let closed : Window := { window with openBlocks := 0 }
  have htoken : closed.token = window.token := window.token_openBlocks 0
  have hend : (closed.token window.remaining).kind = .eof := kind_token_remaining h
  obtain ⟨j, hj, hskip⟩ := skipUpTo_stops hend window.openBlocks
  -- where the statement can end is told by the tokens, which are those of `window`
  unfold CanStop depthAt at hj
  unfold pastBlock at hskip
  rw [htoken] at hj hskip
  exact ⟨j, hj, hskip.trans (window.iterate_openBlocks 0 _)⟩

theorem SkipsTo.openBlocks {last : Window} (h : window.SkipsTo last) : last.openBlocks = 0 := by
  obtain ⟨j, -, rfl⟩ := h
  rfl

theorem SkipsTo.diagnostics {last : Window} (h : window.SkipsTo last) :
    last.diagnostics = window.diagnostics := by
  obtain ⟨j, -, rfl⟩ := h
  exact window.diagnostics_iterate _

/-- The lexer stays coherent while a phrase is read. -/
theorem inStep_coherent :
    Reader.InStep fun window other : Window => window = other ∧ window.lexer.Coherent where
  current h := congrArg Window.current h.1
  peek h := congrArg Window.peek h.1
  advance := by
    rintro window _ ⟨rfl, hlexer⟩
    refine ⟨rfl, ?_⟩
    show window.advance.lexer.Coherent
    rw [advance_eq]
    exact hlexer.coherent_nextToken
  enterBlock := by
    rintro window _ ⟨rfl, hlexer⟩
    exact ⟨rfl, hlexer⟩
  leaveBlock := by
    rintro window _ ⟨rfl, hlexer⟩
    exact ⟨rfl, hlexer⟩

theorem coherent_of_error {n : Nat} {diagnostic : Diagnostic} {later : Window}
    (h : window.lexer.Coherent)
    (hrule : (Grammar.upTo n).statementRule window = .error diagnostic later) :
    later.lexer.Coherent := by
  have houtcome := Grammar.RuleName.statement.inStep (Grammar.inStep_upTo inStep_coherent n)
    inStep_coherent window window ⟨rfl, h⟩
  simp only [Grammar.RuleName.rule, hrule] at houtcome
  cases houtcome with
  | error _ hlater => exact hlater.2

end Window

/-- **A window stops skipping where a broken statement can first end**, whatever token it shows and
however many blocks it counts. Its count is zero then, and no diagnostics are added. This is where a
program is gone on with behind a statement that fails. -/
theorem skipBroken_stops (source : String) (requests : List Request) (current peek : Token)
    (diagnostics : List Diagnostic) (openBlocks : Nat) :
    let lexer := ((Session.ofSource source).run requests).track.lexer
    let window : Window := ⟨lexer, current, peek, diagnostics, openBlocks⟩
    window.SkipsTo window.skipBroken ∧ window.skipBroken.openBlocks = 0 ∧
      window.skipBroken.diagnostics = diagnostics ∧
      ∀ n diagnostic later, (Grammar.upTo n).statementRule window = .error diagnostic later →
        ∃ last, (later.record diagnostic).SkipsTo last ∧ last.openBlocks = 0 ∧
          last.diagnostics = later.diagnostics ++ [diagnostic] ∧
          window.readStatement (.upTo n) = (none, last.advance) := by
  intro lexer window
  have hlexer : window.lexer.Coherent :=
    ((Session.Faithful.ofSource source).run requests).track.coherent
  have hskips := Window.skipsTo_skipBroken hlexer
  refine ⟨hskips, hskips.openBlocks, hskips.diagnostics, ?_⟩
  intro n diagnostic later hrule
  have hlater : later.lexer.Coherent := Window.coherent_of_error hlexer hrule
  have hskips : (later.record diagnostic).SkipsTo (later.record diagnostic).skipBroken :=
    Window.skipsTo_skipBroken hlater
  refine ⟨_, hskips, hskips.openBlocks, hskips.diagnostics, ?_⟩
  rw [Window.readStatement, hrule]

end MonkeySyntax
