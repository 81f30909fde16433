import MonkeySyntax.Parser.State

/-!
# MonkeySyntax — rules

A rule reads a phrase from where a reader stands. It succeeds with what it has read, and then the
reader stands at the last token of the phrase; or it fails with a diagnostic, and then the reader
stands where the failure was noticed. Either way the state that it leaves behind is kept: nothing is
undone.

This module has the steps that rules are made of, and what each of them is on a parser. Only
`advance`, `expect` and `endStatement` move on in the tokens, by at most one token each.
-/

namespace MonkeySyntax

/-- A way to read a phrase that gives an `α`, for readers of one type. -/
abbrev RuleOn (σ α : Type) := EStateM Diagnostic σ α

/-- A way to read a phrase from a parser. -/
abbrev Rule (α : Type) := EStateM Diagnostic Parser α

namespace Rule

section Steps

variable {σ : Type} [Reader σ]

def current : RuleOn σ Token := fun state => .ok (Reader.current state) state

def peekKind : RuleOn σ TokenKind := fun state => .ok (Reader.peek state).kind state

def advance : RuleOn σ Unit := fun state => .ok () (Reader.advance state)

def failHere {α : Type} (cause : SyntaxError) : RuleOn σ α := fun state =>
  .error ⟨cause, Reader.position state⟩ state

/-- Moves on to the next token if it has this kind, and fails at it otherwise. -/
def expect (kind : TokenKind) : RuleOn σ Unit := fun state =>
  if (Reader.peek state).kind = kind then
    .ok () (Reader.advance state)
  else
    .error (Reader.unexpected state kind) state

/-- Ends a statement: moves on to a semicolon that comes next. There need be none before a closing
bracket or the end of the input, nor where it is `optional`. -/
def endStatement (optional : Bool) : RuleOn σ Unit := fun state =>
  match (Reader.peek state).kind with
  | .semicolon => .ok () (Reader.advance state)
  | .closeCurly | .eof => .ok () state
  | _ => if optional then .ok () state else .error (Reader.unexpected state .semicolon) state

def enterBlock : RuleOn σ Unit := fun state => .ok () (Reader.enterBlock state)

def leaveBlock : RuleOn σ Unit := fun state => .ok () (Reader.leaveBlock state)

end Steps

/-! ## The steps on a parser -/

theorem current_apply (parser : Parser) : current parser = .ok parser.current parser := rfl

theorem peekKind_apply (parser : Parser) : peekKind parser = .ok parser.peek.kind parser := rfl

theorem failHere_apply {α : Type} (cause : SyntaxError) (parser : Parser) :
    (failHere cause : Rule α) parser = .error ⟨cause, parser.position⟩ parser := rfl

theorem expect_apply (kind : TokenKind) (parser : Parser) :
    expect kind parser =
      if parser.peek.kind = kind then
        .ok () parser.advance
      else
        .error (parser.unexpected kind) parser := rfl

theorem endStatement_apply (optional : Bool) (parser : Parser) :
    endStatement optional parser =
      match parser.peek.kind with
      | .semicolon => .ok () parser.advance
      | .closeCurly | .eof => .ok () parser
      | _ => if optional then .ok () parser else .error (parser.unexpected .semicolon) parser := rfl

/-! ## Sequences -/

/-- Sequencing: the second rule goes on from where the first one stops, and does not run after a
failure. -/
theorem bind_apply {σ α β : Type} (rule : RuleOn σ α) (next : α → RuleOn σ β) (state : σ) :
    (rule >>= next) state =
      match rule state with
      | .ok value state => next value state
      | .error diagnostic state => .error diagnostic state := by
  simp only [bind, EStateM.bind]
  cases rule state <;> rfl

theorem pure_apply {σ α : Type} (value : α) (state : σ) :
    (pure value : RuleOn σ α) state = .ok value state := rfl

end Rule

end MonkeySyntax
