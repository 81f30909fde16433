import MonkeySyntax.Proofs.Lexer.Lexemes
import MonkeySyntax.Proofs.Lexer.Lexical

/-!
# MonkeySyntax — a text with given tokens

The texts of some tokens with spaces between them are a source that has these tokens, as long as
each text fits its kind. A character that starts no token is left out: its text shows one byte of
it, and a byte alone need not be a text.
-/

namespace MonkeySyntax

/-- The texts of the tokens, each with a space behind it. -/
def spell : List Token → String
  | [] => ""
  | token :: ts => token.literal ++ " " ++ spell ts

theorem fenced_space (rest : List UInt8) : Fenced (utf8 " " ++ rest) :=
  fenced_text " " (by decide) rest

/-- A token in front of a space. -/
theorem lexemes_literal {token : Token} (hlexical : token.Lexical) (hkind : token.kind ≠ .illegal)
    (rest : List UInt8) :
    lexemes (utf8 token.literal ++ (utf8 " " ++ rest)) = token.bare :: lexemes rest := by
  have hfenced := fenced_space rest
  rw [Token.bare, ← lexemes_space rest]
  cases hlexical with
  | name hname htext =>
    obtain ⟨hnil, hletters, hkeyword⟩ := htext
    rw [lexemes_word hnil hletters hfenced, TokenKind.ofWord_eq_identifier hkeyword, hname]
  | number hnumber htext => rw [lexemes_number htext hfenced, hnumber]
  | symbol hsymbol =>
    exact lexemes_symbol hsymbol fun _ byte hbyte => (hfenced byte hbyte).2.2
  | keyword hkeyword => exact lexemes_keyword _ _ hkeyword hfenced
  | illegal hillegal => exact absurd hillegal hkind

/-- **The text that is spelled has the tokens**, at some places. -/
theorem lexemes_spell {ts : List Token} (hlexical : ∀ token ∈ ts, token.Lexical)
    (hkind : ∀ token ∈ ts, token.kind ≠ .illegal) :
    lexemes (utf8 (spell ts)) = ts.map Token.bare := by
  induction ts with
  | nil => rfl
  | cons token ts ih =>
    obtain ⟨htoken, hlexical⟩ := List.forall_mem_cons.mp hlexical
    obtain ⟨hlegal, hkind⟩ := List.forall_mem_cons.mp hkind
    rw [spell, utf8_append, utf8_append, List.append_assoc, lexemes_literal htoken hlegal,
      ih hlexical hkind, List.map_cons]

end MonkeySyntax
