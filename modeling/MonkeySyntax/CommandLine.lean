import MonkeySyntax.Diagnostic.Excerpt
import MonkeySyntax.Parser.Program
import MonkeySyntax.Syntax.Render

/-!
# MonkeySyntax — what the command line answers

The command line reads one file and shows what the parser makes of it: the program in the layout of
`Syntax/Render.lean`, or its diagnostics if there are any, or on request the tokens instead. This
module says what is written for what is in the file; reading and writing are in `Main.lean`.
-/

namespace MonkeySyntax

namespace CommandLine

/-- What a run leaves behind: the exit code and the two outputs. -/
structure Outcome where
  code : UInt32
  stdout : String
  stderr : String
  deriving DecidableEq, Repr, Inhabited

def fileName (path : String) : String :=
  String.ofList (path.toList.reverse.takeWhile (· ≠ '/')).reverse

def showTokens (source : String) : String :=
  String.join ((tokenize source).map fun token => token.listing ++ "\n")

/-- The answer on the text `source` of the file at `path`. -/
def answer (tokens : Bool) (path source : String) : Outcome :=
  if tokens then
    ⟨0, showTokens source, ""⟩
  else
    match parse source with
    | (program, []) => ⟨0, program.render ++ "\n", ""⟩
    | (_, diagnostics) =>
      ⟨1, "", String.join (diagnostics.map fun diagnostic =>
        diagnostic.report source (fileName path))⟩

/-- The answer on a file that holds these bytes, or on one that cannot be read. A file that cannot
be read or is not text in UTF-8 fails without output. -/
def run (tokens : Bool) (path : String) (contents : Option ByteArray) : Outcome :=
  match contents.bind String.fromUTF8? with
  | none => ⟨1, "", ""⟩
  | some source => answer tokens path source

end CommandLine

end MonkeySyntax
