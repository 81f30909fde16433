import MonkeySyntax.Proofs.Grammar.Soundness
import MonkeySyntax.Proofs.Lexer.Lexical
import MonkeySyntax.Proofs.Parser.Unbounded
import MonkeySyntax.Proofs.Syntax.WellFormed

/-!
# MonkeySyntax — what is read is consistent

The nodes of a derivation have the values of their tokens, and the texts of tokens fit their kinds.
So every tree that a parser gives is consistent, also where the source around it is broken: a
statement is derived from its own tokens, wherever the parser was when it began.

* **`Derives.consistent`** — the tree of a derivation is consistent if its tokens are lexical.
* **`Parser.consistent_readStatements`** — so are the statements of a run, read between any number
  of statements that are skipped.
-/

namespace MonkeySyntax

/-! ## Tokens -/

theorem Token.Lexical.is {token : Token} (h : token.Lexical) {kind : TokenKind} {text : String}
    (hkind : token.kind = kind)
    (hfixed : (text, kind) ∈ TokenKind.symbols ++ TokenKind.keywords) : token.Is kind text := by
  subst hkind
  exact ⟨rfl, h.literal_eq hfixed⟩

/-- An operator of a level is one that stands between operands. -/
theorem Token.Lexical.mem_infixOperators {token : Token} (h : token.Lexical) {level : Level}
    (hkind : token.kind ∈ level.operators) : (token.literal, token.kind) ∈ infixOperators := by
  have hspelled : ∀ text, (text, token.kind) ∈ infixOperators →
      (token.literal, token.kind) ∈ infixOperators := by
    intro text hmem
    rw [h.literal_eq (List.mem_append_left _ (infixOperators_subset hmem))]
    exact hmem
  -- the kind has one spelling, so it is enough to name it
  cases level <;>
    simp only [Level.operators, List.mem_cons, List.not_mem_nil, or_false] at hkind <;>
    rcases hkind with hkind | hkind <;> rw [hkind] at hspelled ⊢
  · exact hspelled "==" (by decide)
  · exact hspelled "!=" (by decide)
  · exact hspelled "<" (by decide)
  · exact hspelled ">" (by decide)
  · exact hspelled "+" (by decide)
  · exact hspelled "-" (by decide)
  · exact hspelled "*" (by decide)
  · exact hspelled "/" (by decide)

theorem Token.Lexical.identifier {token : Token} (h : token.Lexical)
    (hkind : token.kind = .identifier) :
    NodeSpec.consistent.identifier ⟨token, token.literal⟩ :=
  ⟨hkind, rfl, h.isName hkind⟩

theorem Names.consistent {ts : List Token} {names : List Identifier} (h : Names ts names)
    (hlexical : ∀ token ∈ ts, token.Lexical) :
    ∀ name ∈ names, NodeSpec.consistent.identifier name := by
  induction h with
  | last hname =>
    intro name hmem
    rw [List.mem_singleton.mp hmem]
    exact (hlexical _ List.mem_cons_self).identifier hname
  | cons hname hcomma _ ih =>
    obtain ⟨hfirst, hrest⟩ := List.forall_mem_cons.mp hlexical
    intro name hmem
    rcases List.mem_cons.mp hmem with rfl | hmem
    · exact hfirst.identifier hname
    · exact ih (List.forall_mem_cons.mp hrest).2 name hmem

theorem Parameters.consistent {ts : List Token} {names : List Identifier}
    (h : Parameters ts names) (hlexical : ∀ token ∈ ts, token.Lexical) :
    ∀ name ∈ names, NodeSpec.consistent.identifier name := by
  rcases h with ⟨-, rfl⟩ | h
  · intro name hmem
    cases hmem
  · exact h.consistent hlexical

/-! ## Derivations -/

def Phrase.Consistent : Phrase → Prop
  | .expr _ tree => tree.Meets .consistent
  | .arguments trees => Expr.EachMeets .consistent trees
  | .block tree => tree.Meets .consistent
  | .statement _ tree => tree.Meets .consistent
  | .statements _ trees => Stmt.EachMeets .consistent trees

/-- **The tree of a derivation is consistent.** -/
theorem Derives.consistent {phrase : Phrase} {ts : List Token} (h : Derives phrase ts)
    (hlexical : ∀ token ∈ ts, token.Lexical) : phrase.Consistent := by
  -- in each case the tokens are split as the phrase is, and the induction is used on its parts
  induction h with
  | infixOp _ hkind _ _ ihleft ihright =>
    obtain ⟨hts, hus⟩ := List.forall_mem_append.mp hlexical
    obtain ⟨hoperator, hus⟩ := List.forall_mem_cons.mp hus
    exact ⟨⟨rfl, hoperator.mem_infixOperators hkind⟩, ihleft hts, ihright hus⟩
  | tighter _ _ ih => exact ih hlexical
  | @prefixOp right operator ts hkind _ ih =>
    obtain ⟨hoperator, hts⟩ := List.forall_mem_cons.mp hlexical
    have hmem : (operator.literal, operator.kind) ∈ prefixOperators := by
      rcases hkind with hkind | hkind
      · obtain ⟨hkind, hliteral⟩ := hoperator.is hkind (show ("!", _) ∈ _ by decide)
        rw [hkind, hliteral]
        decide
      · obtain ⟨hkind, hliteral⟩ := hoperator.is hkind (show ("-", _) ∈ _ by decide)
        rw [hkind, hliteral]
        decide
    exact ⟨⟨rfl, hmem⟩, ih hts⟩
  | call _ hopening _ _ ihcallee iharguments =>
    obtain ⟨hts, hus⟩ := List.forall_mem_append.mp hlexical
    obtain ⟨hparen, hus⟩ := List.forall_mem_cons.mp hus
    obtain ⟨hus, -⟩ := List.forall_mem_append.mp hus
    exact ⟨hparen.is hopening (by decide), ihcallee hts, iharguments hus⟩
  | callNothing _ hopening _ ihcallee =>
    obtain ⟨hts, hus⟩ := List.forall_mem_append.mp hlexical
    exact ⟨(hus _ List.mem_cons_self).is hopening (by decide), ihcallee hts, trivial⟩
  | identifier hname => exact (hlexical _ List.mem_cons_self).identifier hname
  | integer hnumber hrange =>
    exact ⟨hnumber, (hlexical _ List.mem_cons_self).isNumber hnumber, rfl, Int.natCast_nonneg _,
      Int.ofNat_le.mpr hrange⟩
  | trueWord hword => exact (hlexical _ List.mem_cons_self).is hword (by decide)
  | falseWord hword => exact (hlexical _ List.mem_cons_self).is hword (by decide)
  | group _ _ _ ih =>
    exact ih (List.forall_mem_append.mp (List.forall_mem_cons.mp hlexical).2).1
  | ifOnly hword _ _ _ _ ihcondition ihconsequence =>
    obtain ⟨hif, hlexical⟩ := List.forall_mem_cons.mp hlexical
    obtain ⟨-, hlexical⟩ := List.forall_mem_cons.mp hlexical
    obtain ⟨hts, hlexical⟩ := List.forall_mem_append.mp hlexical
    obtain ⟨-, hus⟩ := List.forall_mem_cons.mp hlexical
    exact ⟨hif.is hword (by decide), ihcondition hts, ihconsequence hus, trivial⟩
  | ifElse hword _ _ _ _ _ _ ihcondition ihconsequence ihalternative =>
    obtain ⟨hif, hlexical⟩ := List.forall_mem_cons.mp hlexical
    obtain ⟨-, hlexical⟩ := List.forall_mem_cons.mp hlexical
    obtain ⟨hts, hlexical⟩ := List.forall_mem_append.mp hlexical
    obtain ⟨-, hlexical⟩ := List.forall_mem_cons.mp hlexical
    obtain ⟨hus, hlexical⟩ := List.forall_mem_append.mp hlexical
    obtain ⟨-, hvs⟩ := List.forall_mem_cons.mp hlexical
    exact ⟨hif.is hword (by decide), ihcondition hts, ihconsequence hus, ihalternative hvs⟩
  | function hword _ hparameters _ _ ih =>
    obtain ⟨hfn, hlexical⟩ := List.forall_mem_cons.mp hlexical
    obtain ⟨-, hlexical⟩ := List.forall_mem_cons.mp hlexical
    obtain ⟨hts, hlexical⟩ := List.forall_mem_append.mp hlexical
    obtain ⟨-, hus⟩ := List.forall_mem_cons.mp hlexical
    exact ⟨hfn.is hword (by decide), hparameters.consistent hts, ih hus⟩
  | lastArgument _ ih => exact ⟨ih hlexical, trivial⟩
  | consArgument _ _ _ ih ihothers =>
    obtain ⟨hts, hus⟩ := List.forall_mem_append.mp hlexical
    exact ⟨ih hts, ihothers (List.forall_mem_cons.mp hus).2⟩
  | block hopening _ _ ih =>
    obtain ⟨hcurly, hts⟩ := List.forall_mem_cons.mp hlexical
    exact ⟨hcurly.is hopening (by decide), ih (List.forall_mem_append.mp hts).1⟩
  | letBinding hword hname _ _ _ ih =>
    obtain ⟨hlet, hlexical⟩ := List.forall_mem_cons.mp hlexical
    obtain ⟨htoken, hlexical⟩ := List.forall_mem_cons.mp hlexical
    obtain ⟨-, hlexical⟩ := List.forall_mem_cons.mp hlexical
    exact ⟨hlet.is hword (by decide), htoken.identifier hname,
      ih (List.forall_mem_append.mp hlexical).1⟩
  | returnNothing hword => exact (hlexical _ List.mem_cons_self).is hword (by decide)
  | returnValue hword _ _ ih =>
    obtain ⟨hreturn, hlexical⟩ := List.forall_mem_cons.mp hlexical
    exact ⟨hreturn.is hword (by decide), ih (List.forall_mem_append.mp hlexical).1⟩
  | expression _ _ ih =>
    rw [← List.cons_append] at hlexical
    exact ih (List.forall_mem_append.mp hlexical).1
  | blockOnly _ _ ih => exact ih hlexical
  | blockSemicolon _ _ ih => exact ih (List.forall_mem_append.mp hlexical).1
  | nil => trivial
  | cons _ _ ih ihothers =>
    obtain ⟨hts, hus⟩ := List.forall_mem_append.mp hlexical
    exact ⟨ih hts, ihothers hus⟩

/-! ## Runs -/

namespace Parser

theorem consistent_statementRule {parser later : Parser} {tree : Stmt}
    (hlexical : ∀ token ∈ parser.ahead, token.Lexical)
    (hrule : Grammar.unbounded.statementRule parser = .ok tree later) :
    tree.Meets .consistent := by
  -- over a grammar that covers what is left, what is read is derived
  rw [← (Grammar.agree_statementRule parser.remaining parser (Nat.le_refl _)).1] at hrule
  have hread := (Grammar.sound_upTo parser.remaining).statementRule (Nat.le_succ _) hrule
  obtain ⟨init, last, rest, hahead, -, hderives⟩ := hread.exists_split Bool.false_ne_true
  apply hderives.consistent
  intro token htoken
  apply hlexical
  rw [hahead, ← List.singleton_append, ← List.append_assoc]
  exact List.mem_append_left rest htoken

/-- **The statements of a run are consistent**, whatever is skipped between them. -/
theorem consistent_readStatements {n : Nat} {parser : Parser}
    (hlexical : ∀ token ∈ parser.ahead, token.Lexical) :
    Stmt.EachMeets .consistent (parser.readStatements .unbounded n).1 := by
  induction n generalizing parser with
  | zero => trivial
  | succ n ih =>
    rw [readStatements_succ]
    split
    · trivial
    · -- the tokens behind the statement are among those before it
      have hsuffix := parser.ahead_readStatement
      have hothers := ih fun token htoken => hlexical token (hsuffix.subset htoken)
      cases hrule : Grammar.unbounded.statementRule parser with
      | ok statement later =>
        have hread : (parser.readStatement .unbounded).1 = some statement := by
          rw [readStatement, hrule]
        rw [hread]
        exact ⟨consistent_statementRule hlexical hrule, hothers⟩
      | error diagnostic later =>
        have hread : (parser.readStatement .unbounded).1 = none := by
          rw [readStatement, hrule]
        rw [hread]
        exact hothers

end Parser

theorem consistent_program (source : String) : (parse source).1.Consistent := by
  rw [parse, Parser.parseProgram_eq]
  exact Parser.consistent_readStatements fun _ htoken => lexical_of_mem_scan htoken

end MonkeySyntax
