import MonkeySyntax.Parser.State

/-!
# MonkeySyntax — going on after a failure

After a failure the rest of the broken statement is skipped. Where the statement ends is told by
the curly brackets alone: it ends at a semicolon outside of all its blocks, or at the bracket that
closes the outermost block that was open, together with a semicolon right after it.
-/

namespace MonkeySyntax

/-- The tokens from the last one of a broken statement on, where `depth` blocks are open. A closing
bracket outside of all blocks closes nothing and is skipped. -/
def skipStatement : (depth : Nat) → List Token → List Token
  | _, [] => []
  | depth, token :: rest =>
    match token.kind with
    | .eof => token :: rest
    | .semicolon => if depth = 0 then token :: rest else skipStatement depth rest
    | .openCurly => skipStatement (depth + 1) rest
    | .closeCurly =>
      if depth = 1 then
        if rest.head?.map Token.kind = some .semicolon then rest else token :: rest
      else
        skipStatement (depth - 1) rest
    | _ => skipStatement depth rest

namespace Parser

/-- The parser at the end of the statement that it could not read, with no block open. -/
def skipBroken (parser : Parser) : Parser :=
  { parser with ahead := skipStatement parser.openBlocks parser.ahead, openBlocks := 0 }

@[simp]
theorem diagnostics_skipBroken (parser : Parser) :
    parser.skipBroken.diagnostics = parser.diagnostics := rfl

@[simp]
theorem openBlocks_skipBroken (parser : Parser) : parser.skipBroken.openBlocks = 0 := rfl

end Parser

end MonkeySyntax
