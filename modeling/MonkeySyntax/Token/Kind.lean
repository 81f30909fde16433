/-!
# MonkeySyntax — the kinds of token

A token of Monkey is a word, a number, one of sixteen symbols, a character that no token starts
with, or the end of the input. This module lists the kinds, their two printed forms (`name` in a
listing of tokens, `label` in a message) and the two tables that the lexer reads:

* **`symbols`** gives every symbol its kind, a symbol before each of its own beginnings, so that
  the first one that matches is the longest one that matches;
* **`keywords`** gives every reserved word its kind. Any other word is an identifier
  (`TokenKind.ofWord`).
-/

namespace MonkeySyntax

/-- What a token is, apart from its text and its place. -/
inductive TokenKind where
  | eof
  /-- A character that starts no token. -/
  | illegal
  | identifier
  | integer
  | openCurly
  | closeCurly
  | openParen
  | closeParen
  | assign
  | equal
  | bang
  | notEqual
  | less
  | greater
  | semicolon
  | comma
  | plus
  | dash
  | slash
  | star
  | fnKw
  | letKw
  | trueKw
  | falseKw
  | ifKw
  | elseKw
  | returnKw
  deriving DecidableEq, Repr, Inhabited

namespace TokenKind

/-- The name of a kind in a listing of tokens. -/
def name : TokenKind → String
  | .eof => "EOF"
  | .illegal => "Illegal"
  | .identifier => "Identifier"
  | .integer => "Integer"
  | .openCurly => "OpenCurly"
  | .closeCurly => "CloseCurly"
  | .openParen => "OpenParen"
  | .closeParen => "CloseParen"
  | .assign => "Assignment"
  | .equal => "Equals"
  | .bang => "Not"
  | .notEqual => "NotEquals"
  | .less => "Less"
  | .greater => "Greater"
  | .semicolon => "Semicolon"
  | .comma => "Comma"
  | .plus => "Plus"
  | .dash => "Dash"
  | .slash => "Slash"
  | .star => "Star"
  | .fnKw => "Fn"
  | .letKw => "Let"
  | .trueKw => "True"
  | .falseKw => "False"
  | .ifKw => "If"
  | .elseKw => "Else"
  | .returnKw => "Return"

/-- How a message speaks of a kind: a symbol by its spelling, any other kind by a word in
capitals. -/
def label : TokenKind → String
  | .eof => "EOF"
  | .illegal => "ILLEGAL"
  | .identifier => "IDENT"
  | .integer => "INT"
  | .openCurly => "\x7b"
  | .closeCurly => "\x7d"
  | .openParen => "("
  | .closeParen => ")"
  | .assign => "="
  | .equal => "=="
  | .bang => "!"
  | .notEqual => "!="
  | .less => "<"
  | .greater => ">"
  | .semicolon => ";"
  | .comma => ","
  | .plus => "+"
  | .dash => "-"
  | .slash => "/"
  | .star => "*"
  | .fnKw => "FUNCTION"
  | .letKw => "LET"
  | .trueKw => "TRUE"
  | .falseKw => "FALSE"
  | .ifKw => "IF"
  | .elseKw => "ELSE"
  | .returnKw => "RETURN"

def all : List TokenKind :=
  [.eof, .illegal, .identifier, .integer, .openCurly, .closeCurly, .openParen, .closeParen,
    .assign, .equal, .bang, .notEqual, .less, .greater, .semicolon, .comma, .plus, .dash, .slash,
    .star, .fnKw, .letKw, .trueKw, .falseKw, .ifKw, .elseKw, .returnKw]

theorem mem_all (kind : TokenKind) : kind ∈ all := by
  cases kind <;> decide

/-- The kind that a listing calls `text`. -/
def ofName? (text : String) : Option TokenKind :=
  all.find? fun kind => kind.name = text

@[simp]
theorem ofName?_name (kind : TokenKind) : ofName? kind.name = some kind := by
  cases kind <;> decide

/-- The symbols and their kinds. A symbol stands before each of its own beginnings. -/
def symbols : List (String × TokenKind) :=
  [("==", .equal), ("!=", .notEqual), ("=", .assign), ("!", .bang), (";", .semicolon),
    ("(", .openParen), (")", .closeParen), ("\x7b", .openCurly), ("\x7d", .closeCurly),
    (",", .comma), ("+", .plus), ("-", .dash), ("/", .slash), ("*", .star), ("<", .less),
    (">", .greater)]

def keywords : List (String × TokenKind) :=
  [("fn", .fnKw), ("let", .letKw), ("true", .trueKw), ("false", .falseKw), ("if", .ifKw),
    ("else", .elseKw), ("return", .returnKw)]

def isKeyword (word : String) : Bool :=
  keywords.any fun entry => entry.1 = word

/-- The kind of a word: that of the reserved word it is, or else `identifier`. -/
def ofWord (word : String) : TokenKind :=
  match keywords.find? fun entry => entry.1 = word with
  | some entry => entry.2
  | none => .identifier

theorem ofWord_eq_identifier {word : String} (h : isKeyword word = false) :
    ofWord word = .identifier := by
  have hnone : (keywords.find? fun entry => entry.1 = word) = none := by
    simpa [isKeyword, List.find?_eq_none] using h
  rw [ofWord, hnone]

/-- A symbol is printed in a message as it is spelled in the source. -/
theorem label_of_mem_symbols {text : String} {kind : TokenKind} (h : (text, kind) ∈ symbols) :
    kind.label = text := by
  simp only [symbols, List.mem_cons, Prod.mk.injEq, List.not_mem_nil, or_false] at h
  rcases h with h | h | h | h | h | h | h | h | h | h | h | h | h | h | h | h <;>
    obtain ⟨rfl, rfl⟩ := h <;> rfl

end TokenKind

end MonkeySyntax
