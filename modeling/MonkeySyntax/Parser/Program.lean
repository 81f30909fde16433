import MonkeySyntax.Parser.Phrase
import MonkeySyntax.Parser.Recovery

/-!
# MonkeySyntax — reading a program

A program is read statement by statement up to the end of the input. A statement that fails leaves a
diagnostic in place of itself: the rest of it is skipped and reading goes on behind it, so that
every statement is reported or returned, and the ones around a broken statement are not lost.
-/

namespace MonkeySyntax

namespace Parser

/-- Reads one statement, or records why there is none and skips to its end; moves on behind it in
both cases. -/
def readStatement (grammar : Grammar) (parser : Parser) : Option Stmt × Parser :=
  match grammar.statementRule parser with
  | .ok statement parser => (some statement, parser.advance)
  | .error diagnostic parser => (none, (parser.record diagnostic).skipBroken.advance)

/-- Reads statements up to the end of the input, which is at most `n` tokens ahead. -/
def readStatements (grammar : Grammar) : (n : Nat) → Parser → List Stmt × Parser
  | 0, parser => ([], parser)
  | n + 1, parser =>
    if parser.atEnd then
      ([], parser)
    else
      let (statement?, parser) := parser.readStatement grammar
      let (others, parser) := parser.readStatements grammar n
      (statement?.toList ++ others, parser)

/-- Reads a program. It has the statements that could be read; the parser that is left holds the
diagnostics on the others. -/
def parseProgram (parser : Parser) : Program × Parser :=
  let (statements, parser) := parser.readStatements (.upTo parser.remaining) parser.remaining
  (⟨statements⟩, parser)

end Parser

/-- The program that a source holds, and what is wrong with the rest of it. -/
def parse (text : String) : Program × List Diagnostic :=
  let (program, parser) := (Parser.ofSource text).parseProgram
  (program, parser.diagnostics)

end MonkeySyntax
