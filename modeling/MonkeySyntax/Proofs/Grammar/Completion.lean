import MonkeySyntax.Proofs.Grammar.Braces
import MonkeySyntax.Proofs.Grammar.Soundness
import MonkeySyntax.Proofs.Lexer.Lexemes
import MonkeySyntax.Proofs.Parser.Locality

/-!
# MonkeySyntax — what was read before a failure

The tokens that a rule has gone over before it fails may still be the front of its phrase. This
module says what is known of them, and how it is carried over the parts of a rule that were read
before the failure.

* **`Completable P ts`** — the tokens `ts` and some `spares` behind them satisfy `P`.
* **`Parser.Breaks parser ts diagnostic later`** — from the current token of `parser` on, the tokens
  `ts` stand in front of the token that the diagnostic is on. `later` stands at that token, or at
  the last of `ts`.
* **`Parser.Fails`**, **`Parser.FailsNext`** — both at once, from the current token on and from the
  next one on. `FailsNext.cons`, `FailsNext.here`, `ReadNext.fails` and `Read.fails` go back over
  what was read; `fails_here` and `failsNext_expect` start where the failure is.
-/

namespace MonkeySyntax

/-! ## Going on with what was read -/

namespace Spare

def name : Token := .spelled .identifier "a"

def openParen : Token := .spelled .openParen "("

def closeParen : Token := .spelled .closeParen ")"

def openCurly : Token := .spelled .openCurly "\x7b"

def closeCurly : Token := .spelled .closeCurly "\x7d"

def assign : Token := .spelled .assign "="

def semicolon : Token := .spelled .semicolon ";"

theorem kind_openParen : openParen.kind = .openParen := rfl

theorem kind_closeParen : closeParen.kind = .closeParen := rfl

end Spare

/-- The tokens by which a part of a phrase is gone on with. -/
def spares : List Token :=
  [Spare.name, Spare.openParen, Spare.closeParen, Spare.openCurly, Spare.closeCurly, Spare.assign,
    Spare.semicolon]

/-- The tokens, with some spare ones behind them, are as `P` asks. -/
def Completable (P : List Token → Prop) (ts : List Token) : Prop :=
  ∃ us ⊆ spares, P (ts ++ us)

/-- The tokens are a phrase of the form `phrase`, with some tree. -/
def Derivable {α : Type} (phrase : α → Phrase) (ts : List Token) : Prop :=
  ∃ tree, Derives (phrase tree) ts

/-- With a semicolon behind them the tokens are a statement, whatever comes then. -/
def LacksSemicolon (ts : List Token) : Prop :=
  ∃ tree, ∀ (semicolon : Token) (next : TokenKind), semicolon.kind = .semicolon →
    Derives (.statement next tree) (ts ++ [semicolon])

namespace Completable

variable {P Q : List Token → Prop} {ts : List Token}

theorem of_append {us : List Token} (hus : us ⊆ spares) (h : P (ts ++ us)) : Completable P ts :=
  ⟨us, hus, h⟩

/-- Tokens in front, and spare ones behind. -/
theorem extend (front behind : List Token) (h : Completable P ts) (hbehind : behind ⊆ spares)
    (hPQ : ∀ us, P us → Q (front ++ (us ++ behind))) : Completable Q (front ++ ts) := by
  obtain ⟨us, hus, hP⟩ := h
  refine ⟨us ++ behind, List.append_subset.mpr ⟨hus, hbehind⟩, ?_⟩
  have hQ := hPQ _ hP
  simpa using hQ

theorem front (front : List Token) (h : Completable P ts) (hPQ : ∀ us, P us → Q (front ++ us)) :
    Completable Q (front ++ ts) := by
  refine h.extend front [] (List.nil_subset spares) fun us hP => ?_
  rw [List.append_nil]
  exact hPQ us hP

theorem behind (h : Completable P ts) {behind : List Token} (hbehind : behind ⊆ spares)
    (hPQ : ∀ us, P us → Q (us ++ behind)) : Completable Q ts :=
  h.extend [] behind hbehind hPQ

end Completable

theorem derives_name (level : Level) :
    Derives (.expr level (.identifier ⟨Spare.name, "a"⟩)) [Spare.name] :=
  (Derives.identifier rfl).loosen (by cases level <;> decide)

theorem derives_emptyBlock :
    Derives (.block (.mk Spare.openCurly [])) [Spare.openCurly, Spare.closeCurly] :=
  .block rfl .nil rfl

theorem lacksSemicolon_let {word name assign : Token} {value : Expr} {ts : List Token}
    (hword : word.kind = .letKw) (hname : name.kind = .identifier) (hassign : assign.kind = .assign)
    (hvalue : Derives (.expr .equality value) ts) :
    LacksSemicolon (word :: name :: assign :: ts) :=
  ⟨_, fun _ _ hkind => .letBinding hword hname hassign hvalue (.semicolon hkind)⟩

theorem lacksSemicolon_return {word : Token} {value : Expr} {ts : List Token}
    (hword : word.kind = .returnKw) (hvalue : Derives (.expr .equality value) ts) :
    LacksSemicolon (word :: ts) :=
  ⟨_, fun _ _ hkind => .returnValue hword hvalue (.semicolon hkind)⟩

theorem lacksSemicolon_expr {value : Expr} {ts : List Token}
    (hvalue : Derives (.expr .equality value) ts) : LacksSemicolon ts := by
  obtain ⟨first, rest, rfl, -⟩ := hvalue.exists_first Bool.false_ne_true
  exact ⟨_, fun _ _ hkind => .expression hvalue (.semicolon hkind)⟩

theorem lacksSemicolon_block {body : Block} {ts : List Token} (hbody : Derives (.block body) ts) :
    LacksSemicolon ts :=
  ⟨_, fun _ _ hkind => .blockSemicolon hbody hkind⟩

/-- A statement may end in front of the end of a block or of the input, whatever it was read in
front of. -/
theorem Derives.statement_before {next other : TokenKind} {tree : Stmt} {ts : List Token}
    (h : Derives (.statement next tree) ts) (hother : other = .closeCurly ∨ other = .eof) :
    Derives (.statement other tree) ts := by
  have hterminator : ∀ {optional : Bool} {us : List Token}, Terminator optional us next →
      Terminator optional us other := by
    rintro optional us (hkind | _ | _ | _)
    · exact .semicolon hkind
    all_goals
      rcases hother with rfl | rfl
      · exact .beforeBracket
      · exact .beforeEnd
  cases h with
  | letBinding hword hname hassign hvalue hend =>
    exact .letBinding hword hname hassign hvalue (hterminator hend)
  | returnNothing hword hend => exact .returnNothing hword (hterminator hend)
  | returnValue hword hvalue hend => exact .returnValue hword hvalue (hterminator hend)
  | expression hvalue hend => exact .expression hvalue (hterminator hend)
  | blockOnly hbody _ =>
    refine .blockOnly hbody ?_
    rcases hother with rfl | rfl <;> decide
  | blockSemicolon hbody hsemicolon => exact .blockSemicolon hbody hsemicolon

/-- One statement. -/
theorem Derives.singleton {next : TokenKind} {tree : Stmt} {ts : List Token}
    (h : Derives (.statement next tree) ts) : Derives (.statements next [tree]) ts := by
  have hcons : Derives (.statements next [tree]) (ts ++ []) := .cons h .nil
  rwa [List.append_nil] at hcons

/-- The phrase opens and closes its own blocks, and is not empty. -/
def Phrase.IsClosed (phrase : Phrase) : Prop :=
  (∀ ts, phrase.Encloses ts → Enclosed ts) ∧ ¬ phrase.Begins .eof

theorem isClosed_expr {level : Level} {tree : Expr} : (Phrase.expr level tree).IsClosed :=
  ⟨fun _ h => h, Bool.false_ne_true⟩

theorem isClosed_arguments {trees : List Expr} : (Phrase.arguments trees).IsClosed :=
  ⟨fun _ h => h, Bool.false_ne_true⟩

theorem isClosed_block {tree : Block} : (Phrase.block tree).IsClosed :=
  ⟨fun _ h => h, nofun⟩

/-! ## The token of a diagnostic -/

/-- The diagnostic is on the token, and its cause is true of it. -/
def Diagnostic.Names (diagnostic : Diagnostic) (token : Token) : Prop :=
  diagnostic.position = token.span.start ∧
    match diagnostic.cause with
    | .unexpectedToken expected found => found = token.kind ∧ found ≠ expected
    | .notAnExpression kind => kind = token.kind ∧ kind.beginsExpr = false
    | .invalidNumber literal =>
      token.kind = .integer ∧ token.literal = literal ∧ integerValue? literal = none

namespace Parser

/-- The diagnostic is on the token `k` places on. `later` stands there, or one token before, which
then is neither the opening bracket of a block nor the end of a statement; `depth` blocks are open
in front of the token. -/
structure Stops (parser : Parser) (k depth : Nat) (diagnostic : Diagnostic) (later : Parser) :
    Prop where
  names : diagnostic.Names (parser.skip k).current
  place : (later = parser.reach k depth ∧
      (diagnostic.cause.lookahead = 0 ∨ later.atEnd = true)) ∨
    ∃ j, k = j + 1 ∧ later = parser.reach j depth ∧ diagnostic.cause.lookahead = 1 ∧
      later.current.kind ≠ .openCurly ∧ later.current.kind ≠ .semicolon

/-- From the current token on, `ts` stand in front of the token that the diagnostic is on. -/
structure Breaks (parser : Parser) (ts : List Token) (diagnostic : Diagnostic) (later : Parser) :
    Prop where
  front : ts <+: parser.ahead
  stops : parser.Stops ts.length (braceDepth parser.openBlocks ts) diagnostic later

/-- Behind the current token, `ts` stand in front of the token that the diagnostic is on. -/
structure BreaksNext (parser : Parser) (ts : List Token) (diagnostic : Diagnostic)
    (later : Parser) : Prop where
  front : ts <+: parser.ahead.tail
  stops : parser.Stops (ts.length + 1) (braceDepth parser.openBlocks ts) diagnostic later

/-- What stands in front of the token of the diagnostic can be gone on with. -/
def Fails (parser : Parser) (P : List Token → Prop) (diagnostic : Diagnostic) (later : Parser) :
    Prop :=
  ∃ ts, parser.Breaks ts diagnostic later ∧ Completable P ts

def FailsNext (parser : Parser) (P : List Token → Prop) (diagnostic : Diagnostic)
    (later : Parser) : Prop :=
  ∃ ts, parser.BreaksNext ts diagnostic later ∧ Completable P ts

variable {parser mid later : Parser} {diagnostic : Diagnostic} {P Q : List Token → Prop}
  {ts : List Token}

theorem Stops.reach {n k depth : Nat} (openBlocks : Nat)
    (h : (parser.reach n openBlocks).Stops k depth diagnostic later) :
    parser.Stops (n + k) depth diagnostic later := by
  obtain ⟨hnames, hplace⟩ := h
  rw [skip_reach, current_reach] at hnames
  refine ⟨hnames, ?_⟩
  rcases hplace with ⟨rfl, hcause⟩ | ⟨j, rfl, rfl, hcause⟩
  · exact Or.inl ⟨reach_reach .., hcause⟩
  · exact Or.inr ⟨n + j, rfl, reach_reach .., hcause⟩

theorem Stops.advance {k depth : Nat} (h : parser.advance.Stops k depth diagnostic later) :
    parser.Stops (k + 1) depth diagnostic later := by
  rw [advance_eq_reach] at h
  rw [Nat.add_comm]
  exact h.reach parser.openBlocks

theorem Stops.of_enterBlock {k depth : Nat}
    (h : parser.enterBlock.Stops k depth diagnostic later) :
    parser.Stops k depth diagnostic later :=
  ⟨h.names, h.place⟩

/-! ## Failing behind what was read

Towards the failure of a rule one goes over the tokens that it has read, which then stand in front
of what can be gone on with. -/

theorem Fails.behind (h : parser.Fails P diagnostic later) (us : List Token) (hus : us ⊆ spares)
    (hPQ : ∀ ts, P ts → Q (ts ++ us)) : parser.Fails Q diagnostic later := by
  obtain ⟨ts, hbreaks, hcompletable⟩ := h
  exact ⟨ts, hbreaks, hcompletable.behind hus hPQ⟩

theorem FailsNext.behind (h : parser.FailsNext P diagnostic later) (us : List Token)
    (hus : us ⊆ spares) (hPQ : ∀ ts, P ts → Q (ts ++ us)) :
    parser.FailsNext Q diagnostic later := by
  obtain ⟨ts, hbreaks, hcompletable⟩ := h
  exact ⟨ts, hbreaks, hcompletable.behind hus hPQ⟩

theorem Fails.mono (h : parser.Fails P diagnostic later) (hPQ : ∀ ts, P ts → Q ts) :
    parser.Fails Q diagnostic later :=
  h.behind [] (List.nil_subset spares) fun ts hP => (List.append_nil ts).symm ▸ hPQ ts hP

theorem FailsNext.mono (h : parser.FailsNext P diagnostic later) (hPQ : ∀ ts, P ts → Q ts) :
    parser.FailsNext Q diagnostic later :=
  h.behind [] (List.nil_subset spares) fun ts hP => (List.append_nil ts).symm ▸ hPQ ts hP

theorem Fails.next (h : parser.advance.Fails P diagnostic later) :
    parser.FailsNext P diagnostic later := by
  obtain ⟨ts, ⟨hfront, hstops⟩, hcompletable⟩ := h
  exact ⟨ts, ⟨hfront, hstops.advance⟩, hcompletable⟩

theorem FailsNext.here (hplain : parser.current.kind.isPlain = true)
    (hend : parser.current.kind ≠ .eof)
    (h : parser.FailsNext (fun ts => P (parser.current :: ts)) diagnostic later) :
    parser.Fails P diagnostic later := by
  obtain ⟨ts, ⟨hfront, hstops⟩, hcompletable⟩ := h
  refine ⟨parser.current :: ts, ⟨?_, ?_⟩, hcompletable.front [parser.current] fun _ hP => hP⟩
  · rw [ahead_eq_cons hend]
    exact List.cons_prefix_cons.mpr ⟨rfl, hfront⟩
  · rw [braceDepth_cons, TokenKind.nest_of_isPlain hplain]
    exact hstops

theorem FailsNext.cons (hplain : parser.peek.kind.isPlain = true) (hend : parser.peek.kind ≠ .eof)
    (h : parser.advance.FailsNext (fun ts => P (parser.peek :: ts)) diagnostic later) :
    parser.FailsNext P diagnostic later :=
  Fails.next (FailsNext.here hplain hend h)

theorem FailsNext.after (hts : parser.Passes ts mid) (henclosed : Enclosed ts)
    (h : mid.FailsNext (fun us => P (ts ++ us)) diagnostic later) :
    parser.FailsNext P diagnostic later := by
  obtain ⟨hahead, rfl⟩ := hts
  obtain ⟨us, ⟨hfront, hstops⟩, hcompletable⟩ := h
  refine ⟨ts ++ us, ⟨?_, ?_⟩, hcompletable.front ts fun _ hP => hP⟩
  · rw [ahead_skip, List.tail_drop, ← List.drop_tail] at hfront
    exact append_prefix hahead hfront
  · rw [braceDepth_append, henclosed.braceDepth_eq, List.length_append, Nat.add_assoc]
    exact hstops.reach parser.openBlocks

/-- The last token of some that open and close their own blocks. -/
theorem Passes.kind_current (hts : parser.Passes ts mid) (hne : ts ≠ []) (henclosed : Enclosed ts) :
    mid.current.kind ≠ .openCurly ∧ mid.current.kind ≠ .semicolon := by
  obtain ⟨init, last, rfl⟩ : ∃ init last, ts = init ++ [last] :=
    ⟨_, _, (List.dropLast_concat_getLast hne).symm⟩
  obtain ⟨⟨rest, hrest⟩, rfl⟩ := hts
  have hcurrent : (parser.skip (init ++ [last]).length).current = last := by
    rw [current, ahead_skip, List.length_append, List.length_singleton, ← List.drop_tail, ← hrest,
      List.append_assoc, List.drop_left]
    rfl
  rw [hcurrent]
  exact henclosed.kind_last

/-- At the current token. -/
theorem fails_here (us : List Token) (hnames : diagnostic.Names parser.current)
    (hcause : diagnostic.cause.lookahead = 0 ∨ parser.atEnd = true) (hus : us ⊆ spares)
    (hP : P us) : parser.Fails P diagnostic parser :=
  ⟨[], ⟨List.nil_prefix, ⟨hnames, Or.inl ⟨rfl, hcause⟩⟩⟩, .of_append hus hP⟩

/-- At the next token, where another kind was expected. -/
theorem failsNext_expect {kind : TokenKind}
    (hexpect : Rule.expect kind parser = .error diagnostic later)
    (hkind : parser.current.kind ≠ .openCurly ∧ parser.current.kind ≠ .semicolon)
    (us : List Token) (hus : us ⊆ spares) (hP : P us) : parser.FailsNext P diagnostic later := by
  rw [Rule.expect_apply] at hexpect
  split at hexpect
  · cases hexpect
  · next hpeek =>
    cases hexpect
    refine ⟨[], ⟨List.nil_prefix, ⟨⟨?_, ?_, hpeek⟩, ?_⟩⟩, .of_append hus hP⟩
    · rw [List.length_nil, ← advance_eq_skip, current_advance]
      rfl
    · rw [List.length_nil, ← advance_eq_skip, current_advance]
    · exact Or.inr ⟨0, rfl, rfl, rfl, hkind⟩

/-! ## Failing behind a phrase -/

theorem ReadNext.kind_current {phrase : Phrase} (h : parser.ReadNext phrase mid)
    (hclosed : phrase.IsClosed) :
    mid.current.kind ≠ .openCurly ∧ mid.current.kind ≠ .semicolon := by
  obtain ⟨ts, hts, hderives⟩ := h
  exact hts.kind_current (hderives.ne_nil hclosed.2) (hclosed.1 ts hderives.encloses)

theorem ReadNext.fails {phrase : Phrase} (h : parser.ReadNext phrase mid)
    (hclosed : phrase.IsClosed)
    (hfails : ∀ ts, Derives phrase ts →
      mid.FailsNext (fun us => P (ts ++ us)) diagnostic later) :
    parser.FailsNext P diagnostic later := by
  obtain ⟨ts, hts, hderives⟩ := h
  exact .after hts (hclosed.1 ts hderives.encloses) (hfails ts hderives)

theorem Read.fails {phrase : Phrase} (h : parser.Read phrase mid)
    (hdepth : ∀ ts, phrase.Encloses ts → ∀ depth, braceDepth depth ts = depth)
    (hbegins : ¬ phrase.Begins .eof)
    (hfails : ∀ ts, Derives phrase ts →
      mid.FailsNext (fun us => P (ts ++ us)) diagnostic later) :
    parser.Fails P diagnostic later := by
  obtain ⟨ts, ⟨hahead, rfl⟩, hderives⟩ := h
  obtain ⟨us, ⟨hfront, hstops⟩, hcompletable⟩ := hfails _ hderives
  have hend : parser.current.kind ≠ .eof := by
    intro heof
    have hfirst := hderives.begins .eof
    rw [firstKind_cons, heof] at hfirst
    exact hbegins hfirst
  refine ⟨parser.current :: ts ++ us, ⟨?_, ?_⟩, hcompletable.front _ fun _ hP => hP⟩
  · rw [ahead_skip, List.tail_drop, ← List.drop_tail] at hfront
    rw [ahead_eq_cons hend, List.cons_append]
    exact List.cons_prefix_cons.mpr ⟨rfl, append_prefix hahead hfront⟩
  · rw [braceDepth_append, hdepth _ hderives.encloses, List.length_append, List.length_cons,
      Nat.add_assoc, Nat.add_comm 1]
    exact hstops.reach parser.openBlocks

theorem Read.fails_expr {level : Level} {tree : Expr} (h : parser.Read (.expr level tree) mid)
    (hfails : ∀ ts, Derives (.expr level tree) ts →
      mid.FailsNext (fun us => P (ts ++ us)) diagnostic later) :
    parser.Fails P diagnostic later :=
  h.fails (fun _ henclosed => henclosed.braceDepth_eq) not_begins_expr hfails

theorem Read.kind_current {phrase : Phrase} (h : parser.Read phrase mid)
    (hclosed : phrase.IsClosed) :
    mid.current.kind ≠ .openCurly ∧ mid.current.kind ≠ .semicolon := by
  obtain ⟨init, last, rest, -, rfl, hderives⟩ := h.exists_split hclosed.2
  exact Enclosed.kind_last (hclosed.1 _ hderives.encloses)

/-- Behind a phrase another kind of token was expected. -/
theorem ReadNext.fails_expect {phrase : Phrase} {kind : TokenKind}
    (h : parser.ReadNext phrase mid) (hclosed : phrase.IsClosed)
    (hexpect : Rule.expect kind mid = .error diagnostic later) (us : List Token) (hus : us ⊆ spares)
    (hP : ∀ ts, Derives phrase ts → P (ts ++ us)) : parser.FailsNext P diagnostic later :=
  h.fails hclosed fun ts hderives =>
    failsNext_expect hexpect (h.kind_current hclosed) us hus (hP ts hderives)

end Parser

end MonkeySyntax
