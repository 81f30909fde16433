import MonkeySyntax.Text.Quoted
import MonkeySyntax.Token.Basic

/-!
# MonkeySyntax — what can be wrong with a program

A `SyntaxError` is a cause: a token other than the one that has to follow, a token that no
expression starts with, or a number that is too large. A `Diagnostic` is a cause and its place.
Each cause has a name, a message, and nearly always a tip for the reader.
-/

namespace MonkeySyntax

/-- Why a statement cannot be read. -/
inductive SyntaxError where
  /-- `expected` has to come next, and `found` comes next. -/
  | unexpectedToken (expected found : TokenKind)
  /-- No expression starts with a token of this kind. -/
  | notAnExpression (kind : TokenKind)
  /-- The text of a number does not denote one in the range of numbers. -/
  | invalidNumber (literal : String)
  deriving DecidableEq, Repr, Inhabited

namespace SyntaxError

def name : SyntaxError → String
  | .unexpectedToken _ _ => "UnexpectedToken"
  | .notAnExpression _ => "MissingPrefixRule"
  | .invalidNumber _ => "NumberParseError"

/-- What is wrong, in one line. -/
def message : SyntaxError → String
  | .unexpectedToken expected found =>
    "expected next token to be " ++ expected.label ++ ", found " ++ found.label
  | .notAnExpression kind => "no prefix parse function for " ++ kind.label ++ " found"
  | .invalidNumber literal => "could not parse " ++ quoted literal ++ " as integer"

/-- Advice on what may be meant. There is none on a character that starts no token. -/
def tip? : SyntaxError → Option String
  | .unexpectedToken .semicolon found =>
    some ("Unexpected token: `" ++ found.label ++ "`, did you miss a semicolon?")
  | .unexpectedToken expected found =>
    some ("Expected `" ++ expected.label ++ "`, found `" ++ found.label ++ "`")
  | .notAnExpression .illegal => none
  | .notAnExpression kind => some ("`" ++ kind.label ++ "` cannot start an expression")
  | .invalidNumber literal =>
    some ("Invalid number: `" ++ literal ++ "`, is it above the integer limit?")

end SyntaxError

/-- A syntax error and the place in the source where it was found. -/
structure Diagnostic where
  cause : SyntaxError
  position : Position
  deriving DecidableEq, Repr, Inhabited

end MonkeySyntax
