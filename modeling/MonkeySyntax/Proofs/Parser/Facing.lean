import MonkeySyntax.Proofs.Lexer.Lexical
import MonkeySyntax.Proofs.Parser.Passage

/-!
# MonkeySyntax — in front of the tokens of a phrase

Where the tokens of a phrase are known before it is read, the places at which a rule stops are known
as well.

* **`Parser.Faces parser ts rest`** — the parser stands at the first of `ts`, behind which come the
  tokens `rest`.
* **`Parser.toLast parser ts`** — the parser at the last of `ts`, where a rule stops that reads
  them. The next token is then the first of `rest` (`Parser.Faces.kind_peek_toLast`).
-/

namespace MonkeySyntax

namespace Parser

/-- Ahead are the tokens `ts`, whose texts fit their kinds, and the tokens `rest` behind them. -/
structure Faces (parser : Parser) (ts rest : List Token) : Prop where
  ahead : parser.ahead = ts ++ rest
  lexical : ∀ token ∈ ts, token.Lexical

/-- The parser at the last of the tokens `ts`, which are ahead. -/
def toLast (parser : Parser) (ts : List Token) : Parser :=
  parser.skip (ts.length - 1)

variable {parser : Parser} {ts us rest : List Token} {token : Token}

/-! ## The last of some tokens -/

@[simp]
theorem toLast_singleton : parser.toLast [token] = parser := rfl

theorem advance_toLast (h : ts ≠ []) : (parser.toLast ts).advance = parser.skip ts.length := by
  have hpos : 0 < ts.length := List.length_pos_iff.mpr h
  rw [toLast, advance_skip, Nat.sub_add_cancel hpos]

theorem toLast_append (h : us ≠ []) :
    (parser.skip ts.length).toLast us = parser.toLast (ts ++ us) := by
  have hpos : 0 < us.length := List.length_pos_iff.mpr h
  rw [toLast, toLast, skip_skip, List.length_append]
  congr 1
  omega

theorem toLast_cons (h : ts ≠ []) : parser.advance.toLast ts = parser.toLast (token :: ts) := by
  rw [advance_eq_skip]
  show (parser.skip [token].length).toLast ts = parser.toLast ([token] ++ ts)
  exact toLast_append h

/-! ## What is faced -/

namespace Faces

theorem current (h : parser.Faces (token :: ts) rest) : parser.current = token := by
  rw [Parser.current, h.ahead]
  rfl

theorem kind_current (h : parser.Faces ts rest) :
    parser.current.kind = firstKind ts (firstKind rest .eof) := by
  rw [Parser.kind_current, h.ahead, firstKind_append]

theorem left (h : parser.Faces (ts ++ us) rest) : parser.Faces ts (us ++ rest) where
  ahead := by rw [h.ahead, List.append_assoc]
  lexical token htoken := h.lexical token (List.mem_append_left us htoken)

theorem skip (h : parser.Faces (ts ++ us) rest) : (parser.skip ts.length).Faces us rest where
  ahead := by rw [ahead_skip, h.ahead, List.append_assoc, List.drop_left]
  lexical token htoken := h.lexical token (List.mem_append_right ts htoken)

theorem advance (h : parser.Faces (token :: ts) rest) : parser.advance.Faces ts rest := by
  have hsplit : parser.Faces ([token] ++ ts) rest := h
  rw [advance_eq_skip]
  exact hsplit.skip

theorem kind_peek (h : parser.Faces (token :: ts) rest) :
    parser.peek.kind = firstKind ts (firstKind rest .eof) := by
  rw [← current_advance, h.advance.kind_current]

theorem enterBlock (h : parser.Faces ts rest) : parser.enterBlock.Faces ts rest :=
  ⟨h.ahead, h.lexical⟩

/-- At the last of the tokens, the next one is the first of the rest. -/
theorem kind_peek_toLast (h : parser.Faces ts rest) (hts : ts ≠ []) :
    (parser.toLast ts).peek.kind = firstKind rest .eof := by
  rw [← current_advance, advance_toLast hts, Parser.kind_current, ahead_skip, h.ahead,
    List.drop_left]

end Faces

end Parser

end MonkeySyntax
