import MonkeySyntax.Main
import MonkeySyntax.Proofs.Diagnostic.Caret
import MonkeySyntax.Proofs.Grammar.Endings
import MonkeySyntax.Proofs.Grammar.Levels
import MonkeySyntax.Proofs.Grammar.RoundTrip
import MonkeySyntax.Proofs.Lexer.Munch
import MonkeySyntax.Proofs.Lexer.Session
import MonkeySyntax.Proofs.Lexer.Spacing
import MonkeySyntax.Proofs.Lexer.Tiling
import MonkeySyntax.Proofs.Parser.Balance
import MonkeySyntax.Proofs.Parser.Stopping
import MonkeySyntax.Proofs.Program.Concatenation
import MonkeySyntax.Proofs.Program.Layout
import MonkeySyntax.Proofs.Program.Requests
import MonkeySyntax.Proofs.Program.Termination
import MonkeySyntax.Proofs.Program.Truthful
import MonkeySyntax.Proofs.Text.Lines
