import Mathlib.Order.Monotone.Basic
import MonkeySyntax.Proofs.Parser.Window
import MonkeySyntax.Proofs.Program.Turns

/-!
# MonkeySyntax — a window under requests in any order

A window can be asked for a whole program or for any phrase, wherever it stands, and it can be moved
by hand. Whatever the order of these requests, and whether they succeed or fail, it goes on showing
two neighbours in one stream of tokens, and its lexer goes on with the ones behind them.

* **`Window.Move`** — what a window can be asked for short of a program. It is a rule, so it is the
  same on a parser (`Move.inStep_rule`), which it leads onward (`Move.onward_rule`).
* **`Parser.Exhausts`** — what reading a program does to a parser.
* **`Window.Stands lexer k window`** — the invariant: the window shows a parser before which the first
  `k` tokens of the lexer are gone. `Stands.step` is the step for one request, `Stands.run` the one
  for all.
* **`window_is_exact`** — what this says of the tokens that a window shows (`Window.Faces`).
-/

namespace MonkeySyntax

/-! ## Reading a program from anywhere -/

namespace Parser

variable {parser later : Parser}

/-- `later` stands at the end of the input, and diagnostics were added on the way. -/
structure Exhausts (parser later : Parser) : Prop where
  atEnd : later.atEnd = true
  ahead : later.ahead <:+ parser.ahead
  stop : later.stop = parser.stop
  diagnostics : parser.diagnostics <+: later.diagnostics

theorem Exhausts.of_atEnd (h : parser.atEnd = true) : parser.Exhausts parser :=
  ⟨h, List.suffix_refl _, rfl, List.prefix_refl _⟩

/-- What follows a turn exhausts the parser from before it. -/
theorem Exhausts.of_turn (h : parser.turn.2.Exhausts later) : parser.Exhausts later where
  atEnd := h.atEnd
  ahead := h.ahead.trans (parser.ahead_turn.trans (List.tail_suffix _))
  stop := h.stop.trans parser.stop_turn
  diagnostics := by
    refine List.IsPrefix.trans ?_ h.diagnostics
    cases hturn : parser.turn with
    | mk outcome later =>
      rw [diagnostics_turn hturn []]
      exact List.prefix_append _ _

/-- Statements are read up to the end of the input, if the bound covers what is left. -/
theorem exhausts_readStatements {n : Nat} (hn : parser.remaining ≤ n) :
    parser.Exhausts (parser.readStatements .unbounded n).2 := by
  induction n generalizing parser with
  | zero =>
    have hnil : parser.ahead = [] := List.length_eq_zero_iff.mp (Nat.le_zero.mp hn)
    refine .of_atEnd ?_
    rw [atEnd, kind_current, hnil]
    rfl
  | succ n ih =>
    rw [readStatements_succ]
    cases hend : parser.atEnd with
    | true => exact .of_atEnd hend
    | false =>
      rw [readStatement_eq]
      exact (ih (Nat.le_of_lt_succ (Nat.lt_of_lt_of_le (remaining_turn_lt hend) hn))).of_turn

theorem exhausts_parseProgram (parser : Parser) : parser.Exhausts parser.parseProgram.2 := by
  rw [parseProgram_eq]
  exact exhausts_readStatements (Nat.le_refl _)

end Parser

/-! ## Requests -/

namespace Window

/-- What a window can be asked for short of a program, with the type of the answer: to look at the
current token or at the kind of the next one, to move on, and to read a phrase. -/
inductive Move : Type → Type where
  | current : Move Token
  | peekKind : Move TokenKind
  | advance : Move Unit
  | expect (kind : TokenKind) : Move Unit
  | endStatement (optional : Bool) : Move Unit
  | statement : Move Stmt
  | letBinding : Move Stmt
  | returnValue : Move Stmt
  | expressionStatement : Move Stmt
  | block : Move Block
  | expr (power : Power) : Move Expr
  | operand : Move Expr
  | operator (power : Power) (left : Expr) : Move Expr
  | infixOp (power : Power) (left : Expr) : Move Expr
  | call (callee : Expr) : Move Expr
  | identifier : Move Identifier
  | integer : Move Expr
  | boolean : Move Expr
  | prefixOp : Move Expr
  | group : Move Expr
  | ifElse : Move Expr
  | function : Move Expr

/-- The rule that answers. -/
def Move.rule {σ α : Type} [Reader σ] : Move α → RuleOn σ α
  | current => Rule.current
  | peekKind => Rule.peekKind
  | advance => Rule.advance
  | expect kind => Rule.expect kind
  | endStatement optional => Rule.endStatement optional
  | statement => Parser.parseStatement
  | letBinding => Parser.parseLet
  | returnValue => Parser.parseReturn
  | expressionStatement => Parser.parseExpressionStatement
  | block => Parser.parseBlock
  | expr power => Parser.parseExpr power
  | operand => Parser.parseOperand
  | operator power left => Parser.parseOperator power left
  | infixOp power left => Parser.parseInfixOp power left
  | call callee => Parser.parseCall callee
  | identifier => Parser.parseIdentifier
  | integer => Parser.parseInteger
  | boolean => Parser.parseBoolean
  | prefixOp => Parser.parsePrefixOp
  | group => Parser.parseGroup
  | ifElse => Parser.parseIfElse
  | function => Parser.parseFunction

inductive Request where
  | move {α : Type} (move : Move α)
  | program

/-- The window after one request. -/
def after (window : Window) : Request → Window
  | .move move => Rule.leaves move.rule window
  | .program => window.parseProgram.2

/-- The window after requests one behind the other. -/
def run (window : Window) (requests : List Request) : Window :=
  requests.foldl after window

/-! ## One request -/

theorem Move.inStep_rule {α : Type} (move : Move α) :
    Rule.InStep Shows (move.rule : RuleOn Window α) (move.rule : Rule α) := by
  have hR := inStep_shows
  have hC := Rule.compositional_inStep hR
  cases move with
  | current => exact .current hR
  | peekKind => exact .peekKind hR
  | advance => exact .advance hR
  | expect kind => exact hC.expectKind (n := 0) kind
  | endStatement optional => exact hC.endStatement (n := 0) optional
  | statement => exact inStep_reading .statement
  | letBinding => exact inStep_reading .letBinding
  | returnValue => exact inStep_reading .returnValue
  | expressionStatement => exact inStep_reading .expression
  | block => exact inStep_reading .block
  | expr power => exact inStep_reading (.expr power)
  | operand => exact inStep_reading .operand
  | operator power left => exact inStep_reading (.operator power left)
  | infixOp power left => exact inStep_reading (.infixOp power left)
  | call callee => exact inStep_reading (.call callee)
  | identifier => exact inStep_reading .identifier
  | integer => exact inStep_reading .integer
  | boolean => exact inStep_reading .boolean
  | prefixOp => exact inStep_reading .prefixOp
  | group => exact inStep_reading .group
  | ifElse => exact inStep_reading .ifElse
  | function => exact inStep_reading .function

/-- A move leads a parser onward. -/
theorem Move.onward_rule {α : Type} (move : Move α) (parser : Parser) :
    parser.Onward (Rule.leaves move.rule parser) := by
  have hadvance := parser.onward_advance
  have hstays := Parser.Onward.refl parser
  cases move with
  | current | peekKind => exact hstays
  | advance => exact hadvance
  | expect kind =>
    exact (Rule.compositional_agree.expectKind kind parser (Nat.le_refl parser.remaining)).2
  | endStatement optional =>
    exact (Rule.compositional_agree.endStatement optional parser (Nat.le_refl parser.remaining)).2
  | statement => exact Parser.onward_reading .statement parser
  | letBinding => exact Parser.onward_reading .letBinding parser
  | returnValue => exact Parser.onward_reading .returnValue parser
  | expressionStatement => exact Parser.onward_reading .expression parser
  | block => exact Parser.onward_reading .block parser
  | expr power => exact Parser.onward_reading (.expr power) parser
  | operand => exact Parser.onward_reading .operand parser
  | operator power left => exact Parser.onward_reading (.operator power left) parser
  | infixOp power left => exact Parser.onward_reading (.infixOp power left) parser
  | call callee => exact Parser.onward_reading (.call callee) parser
  | identifier => exact Parser.onward_reading .identifier parser
  | integer => exact Parser.onward_reading .integer parser
  | boolean => exact Parser.onward_reading .boolean parser
  | prefixOp => exact Parser.onward_reading .prefixOp parser
  | group => exact Parser.onward_reading .group parser
  | ifElse => exact Parser.onward_reading .ifElse parser
  | function => exact Parser.onward_reading .function parser

namespace Shows

variable {window : Window} {parser : Parser}

/-- A move shows what it leaves on a parser. -/
theorem leaves (h : window.Shows parser) {α : Type} (move : Move α) :
    (Rule.leaves move.rule window).Shows (Rule.leaves move.rule parser) := by
  have houtcome := move.inStep_rule window parser h
  unfold Rule.leaves
  generalize move.rule window = result at houtcome ⊢
  generalize move.rule parser = result' at houtcome ⊢
  cases houtcome with
  | ok value hlater => exact hlater
  | error diagnostic hlater => exact hlater

/-- **A program is read alike.** -/
theorem parseProgram (h : window.Shows parser) :
    window.parseProgram.1 = parser.parseProgram.1 ∧
      window.parseProgram.2.Shows parser.parseProgram.2 := by
  have hbound := h.remaining_le
  obtain ⟨hstatements, hlater⟩ := h.readStatements window.remaining window.remaining
  rw [Parser.readStatements_upTo _ hbound,
    parser.readStatements_eq_of_le hbound (Nat.le_refl _)] at hstatements hlater
  rw [Parser.parseProgram_eq]
  exact ⟨congrArg Program.mk hstatements, hlater⟩

end Shows

/-- **A source is parsed by a window on its lexer.** -/
theorem parse_eq (text : String) :
    parse text = ((ofSource text).parseProgram.1, (ofSource text).parseProgram.2.diagnostics) := by
  obtain ⟨hprogram, hlater⟩ := (shows_ofLexer (Lexer.coherent_ofSource text)).parseProgram
  rw [parse, ofSource, Parser.ofSource, hprogram, hlater.diagnostics]

/-- A move finds no diagnostics to record. -/
theorem diagnostics_leaves {window : Window} {parser : Parser} (h : window.Shows parser) {α : Type}
    (move : Move α) : (Rule.leaves move.rule window).diagnostics = window.diagnostics := by
  rw [(h.leaves move).diagnostics, (move.onward_rule parser).diagnostics, h.diagnostics]

/-- At the end of the input there is nothing more to read. -/
theorem parseProgram_of_atEnd {window : Window} (h : window.atEnd = true) :
    window.parseProgram = (⟨[]⟩, window) := by
  simp only [parseProgram, remaining, readStatements, h, if_true]

/-- Where another token is expected than the next one, nothing is done. -/
theorem eq_of_expect_error {window later : Window} {kind : TokenKind} {diagnostic : Diagnostic}
    (h : Rule.expect kind window = .error diagnostic later) : later = window := by
  unfold Rule.expect at h
  split at h
  · cases h
  · cases h
    rfl

/-- Where a statement cannot end, nothing is done. -/
theorem eq_of_endStatement_error {window later : Window} {optional : Bool}
    {diagnostic : Diagnostic}
    (h : Rule.endStatement optional window = .error diagnostic later) : later = window := by
  unfold Rule.endStatement at h
  split at h
  · cases h
  · cases h
  · cases h
  · split at h
    · cases h
    · cases h
      rfl

/-! ## All requests -/

/-- The window is `k` tokens on in what `lexer` gives. -/
def Stands (lexer : Lexer) (k : Nat) (window : Window) : Prop :=
  ∃ parser, window.Shows parser ∧ parser.ahead = lexer.pending.drop k ∧
    parser.endToken = lexer.endToken

/-- What a window shows at the `k`th token of a lexer: that one and the next, and then its own lexer
gives the others. -/
structure Faces (lexer : Lexer) (k : Nat) (window : Window) : Prop where
  current : window.current = lexer.stream k
  peek : window.peek = lexer.stream (k + 1)
  next : ∀ j, window.lexer.stream j = lexer.stream (k + 2 + j)

namespace Stands

variable {lexer : Lexer} {k : Nat} {window : Window}

theorem ofLexer (h : lexer.Coherent) : Stands lexer 0 (ofLexer lexer) :=
  ⟨_, shows_ofLexer h, rfl, rfl⟩

/-- **One request leads onward** from one place in the tokens to another. -/
theorem step (h : Stands lexer k window) (request : Request) :
    ∃ k' ≥ k, Stands lexer k' (window.after request) := by
  obtain ⟨parser, hshows, hahead, hend⟩ := h
  -- it is enough that a parser shown later has a tail of the tokens, and the same end
  have hlater : ∀ {later : Parser}, (window.after request).Shows later →
      later.ahead <:+ parser.ahead → later.stop = parser.stop →
        ∃ k' ≥ k, Stands lexer k' (window.after request) := by
    intro later hlater hsuffix hstop
    rw [List.suffix_iff_eq_drop, hahead, List.drop_drop] at hsuffix
    refine ⟨_, Nat.le_add_right _ _, later, hlater, hsuffix, ?_⟩
    rw [← hend, Parser.endToken, Parser.endToken, hstop]
  cases request with
  | move move =>
    have hon := move.onward_rule parser
    exact hlater (hshows.leaves move) hon.ahead hon.stop
  | program =>
    have hon := parser.exhausts_parseProgram
    exact hlater hshows.parseProgram.2 hon.ahead hon.stop

/-- **Requests lead onward** one behind the other. -/
theorem run (h : Stands lexer k window) (requests : List Request) :
    ∃ place : Nat → Nat, place 0 = k ∧ Monotone place ∧
      ∀ i, Stands lexer (place i) (window.run (requests.take i)) := by
  induction requests generalizing window k with
  | nil => exact ⟨fun _ => k, rfl, monotone_const, fun i => by rw [List.take_nil]; exact h⟩
  | cons request requests ih =>
    obtain ⟨k', hle, hafter⟩ := h.step request
    obtain ⟨place, hfirst, hmono, hplace⟩ := ih hafter
    refine ⟨fun i => i.casesOn k place, rfl, monotone_nat_of_le_succ fun i => ?_, fun i => ?_⟩
    · cases i with
      | zero => exact hle.trans_eq hfirst.symm
      | succ i => exact hmono i.le_succ
    · cases i with
      | zero => exact h
      | succ i => exact hplace i

/-- What a window shows are the tokens of the lexer from its place on. -/
theorem faces (h : Stands lexer k window) (hlexer : lexer.Coherent) :
    Faces lexer k window := by
  obtain ⟨parser, hshows, hahead, hend⟩ := h
  have htoken : ∀ j, lexer.stream (k + j) = (parser.ahead.drop j).headD parser.endToken := by
    intro j
    rw [hlexer.stream_eq, hahead, hend, List.drop_drop, List.headD_eq_head?_getD,
      List.head?_drop, List.getD_eq_getElem?_getD]
  constructor
  · exact hshows.current.trans (htoken 0).symm
  · rw [hshows.peek, htoken 1, List.drop_one]
    rfl
  · intro j
    rw [hshows.coherent.stream_eq, hshows.pending, hshows.endToken, Nat.add_assoc, htoken,
      List.headD_eq_head?_getD, List.head?_drop, List.getD_eq_getElem?_getD, Nat.add_comm 2 j,
      ← List.drop_one, ← List.drop_one, List.drop_drop, List.getElem?_drop, Nat.add_comm]

/-- Reading a program leads to the end of the input, and from there it reads nothing more. -/
theorem parseProgram (h : Stands lexer k window) :
    window.parseProgram.2.current = lexer.endToken ∧ window.parseProgram.2.peek = lexer.endToken ∧
      window.parseProgram.2.parseProgram = (⟨[]⟩, window.parseProgram.2) ∧
      window.diagnostics <+: window.parseProgram.2.diagnostics := by
  obtain ⟨parser, hshows, hahead, hend⟩ := h
  have hlater := hshows.parseProgram.2
  have hexhausts := parser.exhausts_parseProgram
  have hkind : parser.parseProgram.2.current.kind = .eof := of_decide_eq_true hexhausts.atEnd
  have hnil : parser.parseProgram.2.ahead = [] := by
    -- all tokens ahead come from the lexer, and none of these is the end of the input
    cases hrest : parser.parseProgram.2.ahead with
    | nil => rfl
    | cons token rest =>
      have hmem : token ∈ lexer.pending := by
        have hsuffix := hexhausts.ahead.trans (hahead ▸ List.drop_suffix k lexer.pending)
        rw [hrest] at hsuffix
        exact hsuffix.subset List.mem_cons_self
      rw [Parser.kind_current, hrest] at hkind
      exact absurd hkind (Lexer.kind_ne_eof_of_mem_pending hmem)
  have hendToken : parser.parseProgram.2.endToken = lexer.endToken := by
    rw [← hend, Parser.endToken, Parser.endToken, hexhausts.stop]
  refine ⟨?_, ?_, ?_, ?_⟩
  · rw [hlater.current, Parser.current, hnil, hendToken]
    rfl
  · rw [hlater.peek, Parser.peek, hnil, hendToken]
    rfl
  · exact parseProgram_of_atEnd (hlater.atEnd.trans hexhausts.atEnd)
  · rw [hshows.diagnostics, hlater.diagnostics]
    exact hexhausts.diagnostics

end Stands

end Window

/-- In a list that goes on with one value for ever, that value may stand at the end as well. -/
theorem getD_append_singleton {α : Type} (values : List α) (value : α) (i : Nat) :
    (values ++ [value]).getD i value = values.getD i value := by
  rw [List.getD_eq_getElem?_getD, List.getD_eq_getElem?_getD, List.getElem?_append]
  split
  · rfl
  · next hle =>
    rw [List.getElem?_eq_none (Nat.le_of_not_lt hle)]
    cases i - values.length <;> rfl

/-- **A window is exact** on whatever lexer it was made, and whatever it was asked for. It shows two
neighbours in the tokens of the source and its lexer gives the ones behind them, and it never goes
back. A token that is expected in vain and a statement that cannot end leave it as it is. Only a
program that is read adds diagnostics; that leads to the end of the input, where nothing more is
read. -/
theorem window_is_exact (source : String) (skipped : Nat) :
    (∀ k, ((Lexer.ofSource source).after skipped).stream k =
        (tokenize source).getD (skipped + k) (.endOfInput source.utf8ByteSize)) ∧
      ∀ requests : List Window.Request,
        let lexer := (Lexer.ofSource source).after skipped
        let stop := Token.endOfInput source.utf8ByteSize
        (∃ place : Nat → Nat, Monotone place ∧
          ∀ i, Window.Faces lexer (place i) ((Window.ofLexer lexer).run (requests.take i))) ∧
        let window := (Window.ofLexer lexer).run requests
        (∀ kind diagnostic later, Rule.expect kind window = .error diagnostic later →
          later = window) ∧
        (∀ optional diagnostic later, Rule.endStatement optional window = .error diagnostic later →
          later = window) ∧
        (∀ {α : Type} (move : Window.Move α),
          (Rule.leaves move.rule window).diagnostics = window.diagnostics) ∧
        window.diagnostics <+: window.parseProgram.2.diagnostics ∧
        window.parseProgram.2.current = stop ∧ window.parseProgram.2.peek = stop ∧
        window.parseProgram.2.parseProgram = (⟨[]⟩, window.parseProgram.2) := by
  have hsource := Lexer.coherent_ofSource source
  have hlexer := hsource.coherent_after skipped
  have hstop := hsource.endToken_after skipped
  constructor
  · intro k
    rw [hlexer.stream_eq, hsource.pending_after, hstop, tokenize_eq_pending,
      show (Lexer.ofSource source).endToken = .endOfInput source.utf8ByteSize from rfl,
      getD_append_singleton, List.getD_eq_getElem?_getD, List.getElem?_drop,
      List.getD_eq_getElem?_getD]
  · intro requests lexer stop
    obtain ⟨place, -, hmono, hplace⟩ := (Window.Stands.ofLexer hlexer).run requests
    have hwindow := hplace requests.length
    rw [List.take_length] at hwindow
    obtain ⟨parser, hshows, -⟩ := id hwindow
    obtain ⟨hcurrent, hpeek, hagain, hfound⟩ := hwindow.parseProgram
    exact ⟨⟨place, hmono, fun i => (hplace i).faces hlexer⟩,
      fun _ _ _ => Window.eq_of_expect_error, fun _ _ _ => Window.eq_of_endStatement_error,
      Window.diagnostics_leaves hshows, hfound, hcurrent.trans hstop, hpeek.trans hstop, hagain⟩

end MonkeySyntax
