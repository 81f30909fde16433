import MonkeySyntax.Proofs.Grammar.Completeness
import MonkeySyntax.Proofs.Grammar.Soundness

/-!
# MonkeySyntax — the programs of the grammar

A source whose tokens are statements of the grammar is read without a diagnostic, and what is read
are the statements of the derivation. As a source is read in one way only, its tokens are derived in
one way only, up to parentheses and terminators.

* **`readStatements_of_derives`** — statements that are derived are read, wherever they stand.
* **`parse_eq_of_derives`** — what the parser gives on a source of the grammar, and that there is no
  other tree.
-/

namespace MonkeySyntax

open Grammar MonkeySyntax.Parser

/-- A parser on a source faces the tokens of the source, whose texts fit their kinds. -/
theorem faces_ofSource (source : String) :
    (Parser.ofSource source).Faces (Parser.ofSource source).ahead [] where
  ahead := (List.append_nil _).symm
  lexical _ htoken := lexical_of_mem_scan htoken

/-- **Statements that are derived are read.** The induction is on the list of statements; each is
read in front of the first token of the others. -/
theorem readStatements_of_derives {phrase : Phrase} {ts : List Token} (h : Derives phrase ts) :
    ∀ statements, phrase = .statements .eof statements →
      ∀ {parser : Parser} {n : Nat}, parser.Faces ts [] → ts.length ≤ n →
        parser.readStatements .unbounded n = (statements, parser.skip ts.length) := by
  induction h with
  | nil =>
    rintro statements hphrase parser n hfaces -
    cases hphrase
    have hend : parser.atEnd = true := by
      rw [Parser.atEnd, hfaces.kind_current]
      rfl
    cases n with
    | zero => rfl
    | succ n =>
      rw [readStatements_succ, if_pos hend]
      rfl
  | @cons statement others ts us next hstatement hothers _ ih =>
    rintro statements hphrase parser n hfaces hn
    cases hphrase
    have hne := hstatement.statement_ne_nil
    have hpos : 0 < ts.length := List.length_pos_iff.mpr hne
    rw [List.length_append] at hn
    obtain ⟨m, rfl⟩ : ∃ m, n = m + 1 := Nat.exists_eq_succ_of_ne_zero (by omega)
    -- the parser is not at the end, so it reads the statement
    have hbegins : (firstKind ts .eof).beginsStatement = true := hstatement.begins .eof
    have hend : parser.atEnd = false := by
      rw [Parser.atEnd, hfaces.left.kind_current, firstKind_of_ne_nil hne _ .eof]
      simp only [decide_eq_false_iff_not]
      intro heof
      rw [heof] at hbegins
      exact absurd hbegins (by decide)
    have hrule : unbounded.statementRule parser = .ok statement (parser.toLast ts) := by
      refine hstatement.isRead hfaces.left ?_ (hothers.followsStatement rfl)
      rw [List.append_nil]
    have hread : parser.readStatement .unbounded = (some statement, parser.skip ts.length) := by
      rw [readStatement, hrule, ← advance_toLast hne]
    -- and then the others
    have hmore := ih others rfl hfaces.skip (show us.length ≤ m by omega)
    rw [readStatements_succ, hend, hread, hmore, skip_skip, List.length_append]
    rfl
  | _ =>
    -- the phrase is none of the others
    intro statements hphrase
    cases hphrase

/-- **A source of the grammar is read without a diagnostic.** -/
theorem parse_of_derives {source : String} {statements : List Stmt}
    (h : Derives (.statements .eof statements) (Parser.ofSource source).ahead) :
    parse source = (⟨statements⟩, []) := by
  have hread := readStatements_of_derives h statements rfl (faces_ofSource source)
    (Nat.le_refl (Parser.ofSource source).remaining)
  rw [parse, parseProgram_eq, hread]
  rfl

/-- **A source of the grammar is read as its statements, which are unique.** The tokens of the
source before the end of the input are derived as statements; then the parser finds nothing wrong
and gives the statements of the derivation, and every derivation of the tokens has these
statements. -/
theorem parse_eq_of_derives {source : String} {ts : List Token} {last : Token}
    {statements : List Stmt} (htokens : tokenize source = ts ++ [last])
    (h : Derives (.statements .eof statements) ts) :
    parse source = (⟨statements⟩, []) ∧
      ∀ others, Derives (.statements .eof others) ts → others = statements := by
  rw [tokenize_eq] at htokens
  obtain ⟨rfl, -⟩ := List.append_inj' htokens rfl
  refine ⟨parse_of_derives h, ?_⟩
  -- both derivations say what the parser gives
  intro others hothers
  have hparse := (parse_of_derives hothers).symm.trans (parse_of_derives h)
  cases hparse
  rfl

/-- An `if` without a semicolon, and another statement behind it. -/
theorem parse_eq_of_derives_after_block :
    ∃ ts last statements, tokenize "if (a) \x7b\x7d b" = ts ++ [last] ∧
      Derives (.statements .eof statements) ts ∧
      parse "if (a) \x7b\x7d b" = (⟨statements⟩, []) ∧
      ∀ others, Derives (.statements .eof others) ts → others = statements := by
  -- the tokens of the source
  obtain ⟨word, opening, a, closing, curly, uncurly, b, last, htokens, hkinds⟩ :
      ∃ word opening a closing curly uncurly b last : Token,
        tokenize "if (a) \x7b\x7d b" =
          [word, opening, a, closing, curly, uncurly, b] ++ [last] ∧
        word.kind = .ifKw ∧ opening.kind = .openParen ∧ a.kind = .identifier ∧
        closing.kind = .closeParen ∧ curly.kind = .openCurly ∧ uncurly.kind = .closeCurly ∧
        b.kind = .identifier :=
    ⟨_, _, _, _, _, _, _, _, (tokenize_eq _).trans rfl, rfl, rfl, rfl, rfl, rfl, rfl, rfl⟩
  obtain ⟨hword, hopening, ha, hclosing, hcurly, huncurly, hb⟩ := hkinds
  -- the two statements, the first of them in front of the name that starts the second
  have hblock : Derives (.block (.mk curly [])) [curly, uncurly] := .block hcurly .nil huncurly
  have hif : Derives
      (.expr .primary (.ifElse word (.identifier ⟨a, a.literal⟩) (.mk curly []) none))
      [word, opening, a, closing, curly, uncurly] :=
    .ifOnly hword hopening ((Derives.identifier ha).loosen (by decide)) hclosing hblock
  have hfirst : Derives (.statement b.kind (.expression word _))
      [word, opening, a, closing, curly, uncurly] :=
    .expression (hif.loosen (by decide)) (hb ▸ .afterBlock (by decide) (by decide))
  have hsecond : Derives (.statement .eof (.expression b _)) [b] :=
    .expression ((Derives.identifier hb).loosen (by decide)) .beforeEnd
  have hothers : Derives (.statements .eof [_]) ([b] ++ []) := .cons hsecond .nil
  have hderives : Derives (.statements .eof [_, _])
      ([word, opening, a, closing, curly, uncurly] ++ [b]) := .cons hfirst hothers
  exact ⟨_, _, _, htokens, hderives, parse_eq_of_derives htokens hderives⟩

end MonkeySyntax
