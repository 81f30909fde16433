import MonkeySyntax.Proofs.Grammar.Completeness
import MonkeySyntax.Proofs.Syntax.Printing

/-!
# MonkeySyntax — printed trees are of the grammar

Tokens that are, at no place, the ones printed for a well-formed tree are derived as a tree of the
same shape. An operation is printed in parentheses, so every printed expression can be called and
stands on its own on either side of an operator.

* **`Expr.derives_printed`**, **`Block.derives_printed`**, **`Stmt.derives_printed`** — the tokens
  of a tree are derived, by induction on the tree.
-/

namespace MonkeySyntax

open Retokening

/-! ## Tokens apart from their places -/

namespace Token

theorem bare_eq_spelled {token : Token} {kind : TokenKind} {text : String}
    (h : token.bare = spelled kind text) : token.Is kind text :=
  ⟨congrArg Token.kind h, congrArg Token.literal h⟩

/-- A token that reads as the symbol of an operator. -/
theorem bare_eq_ofSymbol {token : Token} {operator : String}
    {operators : List (String × TokenKind)} (hsymbols : operators ⊆ TokenKind.symbols)
    (h : operator ∈ operators.map Prod.fst) (hbare : token.bare = ofSymbol operator) :
    token.literal = operator ∧ (operator, token.kind) ∈ operators := by
  obtain ⟨⟨text, kind⟩, hmem, rfl⟩ := List.mem_map.mp h
  rw [ofSymbol_of_mem (hsymbols hmem)] at hbare
  obtain ⟨hkind, hliteral⟩ := bare_eq_spelled hbare
  exact ⟨hliteral, hkind ▸ hmem⟩

end Token

theorem exists_cons_of_map_bare {ts us : List Token} {kind : TokenKind} {text : String}
    (h : ts.map Token.bare = .spelled kind text :: us) :
    ∃ token rest, ts = token :: rest ∧ token.Is kind text ∧ rest.map Token.bare = us := by
  obtain ⟨token, rest, rfl, hbare, hrest⟩ := List.map_eq_cons_iff.mp h
  exact ⟨token, rest, rfl, Token.bare_eq_spelled hbare, hrest⟩

theorem exists_singleton_of_map_bare {ts : List Token} {kind : TokenKind} {text : String}
    (h : ts.map Token.bare = [.spelled kind text]) :
    ∃ token, ts = [token] ∧ token.Is kind text := by
  obtain ⟨token, rest, rfl, htoken, hnil⟩ := exists_cons_of_map_bare h
  rw [List.map_eq_nil_iff] at hnil
  subst hnil
  exact ⟨token, rfl, htoken⟩

theorem exists_concat_of_map_bare {ts us : List Token} {kind : TokenKind} {text : String}
    (h : ts.map Token.bare = us ++ [.spelled kind text]) :
    ∃ init token, ts = init ++ [token] ∧ init.map Token.bare = us ∧ token.Is kind text := by
  obtain ⟨init, last, rfl, hinit, hlast⟩ := List.map_eq_append_iff.mp h
  obtain ⟨token, rfl, htoken⟩ := exists_singleton_of_map_bare hlast
  exact ⟨init, token, rfl, hinit, htoken⟩

/-! ## Operators and lists -/

/-- An operator between operands belongs to a level whose right operands may be calls. -/
theorem exists_level_of_mem {entry : String × TokenKind} (h : entry ∈ infixOperators) :
    ∃ level tighter : Level, entry.2 ∈ level.operators ∧ level.tighter? = some tighter ∧
      level.rank ≤ Level.call.rank ∧ tighter.rank ≤ Level.call.rank := by
  simp only [infixOperators, List.mem_cons, List.not_mem_nil, or_false] at h
  rcases h with rfl | rfl | rfl | rfl | rfl | rfl | rfl | rfl
  · exact ⟨.additive, .multiplicative, by decide⟩
  · exact ⟨.additive, .multiplicative, by decide⟩
  · exact ⟨.multiplicative, .unary, by decide⟩
  · exact ⟨.multiplicative, .unary, by decide⟩
  · exact ⟨.relational, .additive, by decide⟩
  · exact ⟨.relational, .additive, by decide⟩
  · exact ⟨.equality, .relational, by decide⟩
  · exact ⟨.equality, .relational, by decide⟩

theorem names_of_printed {name : Identifier} {names : List Identifier} {ts : List Token}
    (h : ts.map Token.bare = commas ((name :: names).map Identifier.printed)) :
    ∃ again, Names ts again ∧
      again.map (Identifier.retoken .standard) = (name :: names).map (.retoken .standard) := by
  induction names generalizing name ts with
  | nil =>
    obtain ⟨token, rfl, hkind, hliteral⟩ := exists_singleton_of_map_bare h
    refine ⟨_, .last hkind, ?_⟩
    rw [hliteral]
    rfl
  | cons next names ih =>
    obtain ⟨token, rest, rfl, ⟨hkind, hliteral⟩, hrest⟩ := exists_cons_of_map_bare h
    obtain ⟨comma, rest, rfl, ⟨hcomma, -⟩, hrest⟩ := exists_cons_of_map_bare hrest
    obtain ⟨again, hnames, hshape⟩ := ih hrest
    refine ⟨_, .cons hkind hcomma hnames, ?_⟩
    rw [List.map_cons, hshape, hliteral]
    rfl

theorem parameters_of_printed {names : List Identifier} {ts : List Token}
    (h : ts.map Token.bare = commas (names.map Identifier.printed)) :
    ∃ again, Parameters ts again ∧
      again.map (Identifier.retoken .standard) = names.map (.retoken .standard) := by
  cases names with
  | nil => exact ⟨[], Or.inl ⟨List.map_eq_nil_iff.mp h, rfl⟩, rfl⟩
  | cons name names =>
    obtain ⟨again, hnames, hshape⟩ := names_of_printed h
    exact ⟨again, Or.inr hnames, hshape⟩

/-! ## Trees -/

mutual

/-- **The tokens of a printed expression are derived**, as one of its shape. -/
theorem Expr.derives_printed : ∀ {tree : Expr}, tree.Meets .wellFormed →
    ∀ {ts : List Token}, ts.map Token.bare = tree.printed →
      ∃ again, Derives (.expr .call again) ts ∧ again.shape = tree.shape
  | .identifier name, _, ts, hts => by
    obtain ⟨token, rfl, hkind, hliteral⟩ := exists_singleton_of_map_bare hts
    refine ⟨_, (Derives.identifier hkind).loosen (by decide), ?_⟩
    rw [hliteral]
    rfl
  | .integer number value, ⟨_, hvalue, hrange⟩, ts, hts => by
    obtain ⟨token, rfl, hkind, hliteral⟩ := exists_singleton_of_map_bare hts
    -- the value is the one of the text, and that is what the token is derived with
    rw [hvalue, ← hliteral] at hrange
    refine ⟨_, (Derives.integer hkind (Int.ofNat_le.mp hrange)).loosen (by decide), ?_⟩
    rw [hliteral, ← hvalue]
    show Expr.integer (.spelled .integer token.literal) value = _
    rw [hliteral]
    rfl
  | .boolean _ value, _, ts, hts => by
    obtain ⟨token, rfl, hkind, -⟩ := exists_singleton_of_map_bare hts
    cases value with
    | false => exact ⟨_, (Derives.falseWord hkind).loosen (by decide), rfl⟩
    | true => exact ⟨_, (Derives.trueWord hkind).loosen (by decide), rfl⟩
  | .prefixOp _ operator right, ⟨h, hright⟩, ts, hts => by
    obtain ⟨opening, ts, rfl, ⟨hopening, -⟩, hts⟩ := exists_cons_of_map_bare hts
    obtain ⟨token, ts, rfl, htoken, hts⟩ := List.map_eq_cons_iff.mp hts
    obtain ⟨ts, closing, rfl, hts, ⟨hclosing, -⟩⟩ := exists_concat_of_map_bare hts
    obtain ⟨again, hagain, hshape⟩ := Expr.derives_printed hright hts
    obtain ⟨hliteral, hmem⟩ := Token.bare_eq_ofSymbol prefixOperators_subset h htoken
    have hkind : token.kind = .bang ∨ token.kind = .dash := by
      simp only [prefixOperators, List.mem_cons, Prod.mk.injEq, List.not_mem_nil, or_false] at hmem
      exact hmem.imp And.right And.right
    have hoperation : Derives (.expr .unary (.prefixOp token token.literal again)) (token :: ts) :=
      .prefixOp hkind (hagain.loosen (by decide))
    have hgroup := Derives.group hopening (hoperation.loosen (by decide)) hclosing
    refine ⟨_, hgroup.loosen (by decide), ?_⟩
    rw [hliteral]
    exact congrArg (Expr.prefixOp (.ofSymbol operator) operator) hshape
  | .infixOp _ left operator right, ⟨h, hleft, hright⟩, ts, hts => by
    obtain ⟨opening, ts, rfl, ⟨hopening, -⟩, hts⟩ := exists_cons_of_map_bare hts
    obtain ⟨ts, us, rfl, hfront, hus⟩ := List.map_eq_append_iff.mp hts
    obtain ⟨token, us, rfl, htoken, hus⟩ := List.map_eq_cons_iff.mp hus
    obtain ⟨us, closing, rfl, hus, ⟨hclosing, -⟩⟩ := exists_concat_of_map_bare hus
    obtain ⟨again, hagain, hshape⟩ := Expr.derives_printed hleft hfront
    obtain ⟨again', hagain', hshape'⟩ := Expr.derives_printed hright hus
    obtain ⟨hliteral, hmem⟩ := Token.bare_eq_ofSymbol infixOperators_subset h htoken
    -- both operands are calls or tighter, so they fit on either side of any operator
    obtain ⟨level, tighter, hkind, htighter, hlevel, hle⟩ := exists_level_of_mem hmem
    have hoperation := Derives.infixOp htighter hkind (hagain.loosen hlevel) (hagain'.loosen hle)
    have hequality : Level.equality.rank ≤ level.rank := by
      cases level <;> decide
    have hgroup := Derives.group hopening (hoperation.loosen hequality) hclosing
    rw [List.append_assoc, List.cons_append] at hgroup
    refine ⟨_, hgroup.loosen (by decide), ?_⟩
    rw [hliteral]
    show Expr.infixOp _ again.shape operator again'.shape = _
    rw [hshape, hshape']
    rfl
  | .ifElse _ condition consequence none, ⟨_, hcondition, hconsequence, _⟩, ts, hts => by
    obtain ⟨word, ts, rfl, ⟨hword, -⟩, hts⟩ := exists_cons_of_map_bare hts
    obtain ⟨opening, ts, rfl, ⟨hopening, -⟩, hts⟩ := exists_cons_of_map_bare hts
    obtain ⟨ts, us, rfl, hfront, hus⟩ := List.map_eq_append_iff.mp hts
    obtain ⟨closing, us, rfl, ⟨hclosing, -⟩, hus⟩ := exists_cons_of_map_bare hus
    rw [Block.printedElse, List.append_nil] at hus
    obtain ⟨again, hagain, hshape⟩ := Expr.derives_printed hcondition hfront
    obtain ⟨block, hblock, hshape'⟩ := Block.derives_printed hconsequence hus
    have hif := Derives.ifOnly hword hopening (hagain.loosen (by decide)) hclosing hblock
    refine ⟨_, hif.loosen (by decide), ?_⟩
    show Expr.ifElse _ again.shape block.shape none = _
    rw [hshape, hshape']
    rfl
  | .ifElse _ condition consequence (some alternative),
      ⟨_, hcondition, hconsequence, halternative⟩, ts, hts => by
    obtain ⟨word, ts, rfl, ⟨hword, -⟩, hts⟩ := exists_cons_of_map_bare hts
    obtain ⟨opening, ts, rfl, ⟨hopening, -⟩, hts⟩ := exists_cons_of_map_bare hts
    obtain ⟨ts, us, rfl, hfront, hus⟩ := List.map_eq_append_iff.mp hts
    obtain ⟨closing, us, rfl, ⟨hclosing, -⟩, hus⟩ := exists_cons_of_map_bare hus
    obtain ⟨us, vs, rfl, hmiddle, hvs⟩ := List.map_eq_append_iff.mp hus
    obtain ⟨otherwise, vs, rfl, ⟨hotherwise, -⟩, hvs⟩ := exists_cons_of_map_bare hvs
    obtain ⟨again, hagain, hshape⟩ := Expr.derives_printed hcondition hfront
    obtain ⟨block, hblock, hshape'⟩ := Block.derives_printed hconsequence hmiddle
    obtain ⟨block', hblock', hshape''⟩ := Block.derives_printed halternative hvs
    have hif := Derives.ifElse hword hopening (hagain.loosen (by decide)) hclosing hblock
      hotherwise hblock'
    refine ⟨_, hif.loosen (by decide), ?_⟩
    show Expr.ifElse _ again.shape block.shape (some block'.shape) = _
    rw [hshape, hshape', hshape'']
    rfl
  | .function _ parameters body, ⟨_, _, hbody⟩, ts, hts => by
    obtain ⟨word, ts, rfl, ⟨hword, -⟩, hts⟩ := exists_cons_of_map_bare hts
    obtain ⟨opening, ts, rfl, ⟨hopening, -⟩, hts⟩ := exists_cons_of_map_bare hts
    obtain ⟨ts, us, rfl, hfront, hus⟩ := List.map_eq_append_iff.mp hts
    obtain ⟨closing, us, rfl, ⟨hclosing, -⟩, hus⟩ := exists_cons_of_map_bare hus
    obtain ⟨again, hagain, hshape⟩ := parameters_of_printed hfront
    obtain ⟨block, hblock, hshape'⟩ := Block.derives_printed hbody hus
    have hfunction := Derives.function hword hopening hagain hclosing hblock
    refine ⟨_, hfunction.loosen (by decide), ?_⟩
    show Expr.function _ (again.map (Identifier.retoken .standard)) block.shape = _
    rw [hshape, hshape']
    rfl
  | .call _ callee arguments, ⟨_, hcallee, harguments⟩, ts, hts => by
    obtain ⟨ts, us, rfl, hfront, hus⟩ := List.map_eq_append_iff.mp hts
    obtain ⟨opening, us, rfl, ⟨hopening, -⟩, hus⟩ := exists_cons_of_map_bare hus
    obtain ⟨us, closing, rfl, hus, ⟨hclosing, -⟩⟩ := exists_concat_of_map_bare hus
    obtain ⟨again, hagain, hshape⟩ := Expr.derives_printed hcallee hfront
    cases arguments with
    | nil =>
      rw [Expr.printedEach, commas, List.map_eq_nil_iff] at hus
      subst hus
      refine ⟨_, .callNothing hagain hopening hclosing, ?_⟩
      exact congrArg (Expr.call (.spelled .openParen "(") · []) hshape
    | cons first others =>
      obtain ⟨trees, htrees, hshape'⟩ :=
        Expr.derives_printedEach (List.cons_ne_nil first others) harguments hus
      refine ⟨_, .call hagain hopening htrees hclosing, ?_⟩
      show Expr.call _ again.shape (Expr.retokenEach .standard trees) = _
      rw [hshape, hshape']
      rfl

theorem Expr.derives_printedEach : ∀ {trees : List Expr}, trees ≠ [] →
    Expr.EachMeets .wellFormed trees →
    ∀ {ts : List Token}, ts.map Token.bare = commas (Expr.printedEach trees) →
      ∃ again, Derives (.arguments again) ts ∧
        Expr.retokenEach .standard again = Expr.retokenEach .standard trees
  | [], hne, _, _, _ => absurd rfl hne
  | [argument], _, ⟨h, _⟩, ts, hts => by
    obtain ⟨again, hagain, hshape⟩ := Expr.derives_printed h hts
    exact ⟨[again], .lastArgument (hagain.loosen (by decide)), congrArg (fun e => [e]) hshape⟩
  | argument :: next :: others, _, ⟨h, hothers⟩, ts, hts => by
    obtain ⟨ts, us, rfl, hfront, hus⟩ := List.map_eq_append_iff.mp hts
    obtain ⟨comma, us, rfl, ⟨hcomma, -⟩, hus⟩ := exists_cons_of_map_bare hus
    obtain ⟨again, hagain, hshape⟩ := Expr.derives_printed h hfront
    obtain ⟨trees, htrees, hshape'⟩ :=
      Expr.derives_printedEach (List.cons_ne_nil next others) hothers hus
    refine ⟨again :: trees, .consArgument (hagain.loosen (by decide)) hcomma htrees, ?_⟩
    show again.shape :: Expr.retokenEach .standard trees = _
    rw [hshape, hshape']
    rfl

theorem Block.derives_printed : ∀ {tree : Block}, tree.Meets .wellFormed →
    ∀ {ts : List Token}, ts.map Token.bare = tree.printed →
      ∃ again, Derives (.block again) ts ∧ again.shape = tree.shape
  | .mk _ statements, ⟨_, hstatements⟩, ts, hts => by
    obtain ⟨opening, ts, rfl, ⟨hopening, -⟩, hts⟩ := exists_cons_of_map_bare hts
    obtain ⟨ts, closing, rfl, hts, ⟨hclosing, -⟩⟩ := exists_concat_of_map_bare hts
    have hfollows : TokenKind.closeCurly.followsStatement = true := rfl
    obtain ⟨trees, htrees, hshape⟩ := Stmt.derives_printedEach hfollows hstatements hts
    exact ⟨_, .block hopening htrees hclosing,
      congrArg (Block.mk (.spelled .openCurly "\x7b")) hshape⟩

/-- The tokens of a printed statement are derived, whatever comes behind it. -/
theorem Stmt.derives_printed : ∀ {tree : Stmt} {next : TokenKind}, next.followsStatement = true →
    tree.Meets .wellFormed → ∀ {ts : List Token}, ts.map Token.bare = tree.printed →
      ∃ again, Derives (.statement next again) ts ∧ again.shape = tree.shape
  | .letBinding _ name value, _, _, ⟨_, _, hvalue⟩, ts, hts => by
    obtain ⟨word, ts, rfl, ⟨hword, -⟩, hts⟩ := exists_cons_of_map_bare hts
    obtain ⟨token, ts, rfl, ⟨hname, hliteral⟩, hts⟩ := exists_cons_of_map_bare hts
    obtain ⟨assign, ts, rfl, ⟨hassign, -⟩, hts⟩ := exists_cons_of_map_bare hts
    obtain ⟨ts, semicolon, rfl, hts, ⟨hsemicolon, -⟩⟩ := exists_concat_of_map_bare hts
    obtain ⟨again, hagain, hshape⟩ := Expr.derives_printed hvalue hts
    refine ⟨_, .letBinding hword hname hassign (hagain.loosen (by decide)) (.semicolon hsemicolon),
      ?_⟩
    rw [hliteral]
    exact congrArg (Stmt.letBinding (.spelled .letKw "let") (name.retoken .standard)) hshape
  | .returnValue _ none, _, _, _, ts, hts => by
    obtain ⟨word, ts, rfl, ⟨hword, -⟩, hts⟩ := exists_cons_of_map_bare hts
    obtain ⟨semicolon, rfl, hsemicolon, -⟩ := exists_singleton_of_map_bare hts
    exact ⟨_, .returnNothing hword (.semicolon hsemicolon), rfl⟩
  | .returnValue _ (some value), _, _, ⟨_, hvalue⟩, ts, hts => by
    obtain ⟨word, ts, rfl, ⟨hword, -⟩, hts⟩ := exists_cons_of_map_bare hts
    obtain ⟨ts, semicolon, rfl, hts, ⟨hsemicolon, -⟩⟩ := exists_concat_of_map_bare hts
    obtain ⟨again, hagain, hshape⟩ := Expr.derives_printed hvalue hts
    refine ⟨_, .returnValue hword (hagain.loosen (by decide)) (.semicolon hsemicolon), ?_⟩
    exact congrArg (fun value => Stmt.returnValue (.spelled .returnKw "return") (some value)) hshape
  | .expression _ value, _, _, hvalue, ts, hts => by
    obtain ⟨ts, semicolon, rfl, hts, ⟨hsemicolon, -⟩⟩ := exists_concat_of_map_bare hts
    obtain ⟨again, hagain, hshape⟩ := Expr.derives_printed hvalue hts
    have hagain' : Derives (.expr .equality again) ts := hagain.loosen (by decide)
    obtain ⟨first, rest, rfl, -⟩ := hagain'.exists_first Bool.false_ne_true
    refine ⟨_, .expression hagain' (.semicolon hsemicolon), ?_⟩
    exact congrArg (Stmt.expression default) hshape
  | .block body, next, hnext, h, ts, hts => by
    obtain ⟨again, hagain, hshape⟩ := Block.derives_printed h hts
    -- a block takes a semicolon behind it, but none is printed there
    have hsemicolon : next ≠ .semicolon := by
      rintro rfl
      exact absurd hnext (by decide)
    exact ⟨_, .blockOnly hagain hsemicolon, congrArg Stmt.block hshape⟩

theorem Stmt.derives_printedEach : ∀ {trees : List Stmt} {next : TokenKind},
    next.followsStatement = true → Stmt.EachMeets .wellFormed trees →
    ∀ {ts : List Token}, ts.map Token.bare = Stmt.printedEach trees →
      ∃ again, Derives (.statements next again) ts ∧
        Stmt.retokenEach .standard again = Stmt.retokenEach .standard trees
  | [], _, _, _, _, hts => ⟨[], List.map_eq_nil_iff.mp hts ▸ .nil, rfl⟩
  | statement :: others, _, hnext, ⟨h, hothers⟩, ts, hts => by
    obtain ⟨ts, us, rfl, hfront, hus⟩ := List.map_eq_append_iff.mp hts
    -- the others first, since the statement is derived in front of them
    obtain ⟨trees, htrees, hshape'⟩ := Stmt.derives_printedEach hnext hothers hus
    obtain ⟨again, hagain, hshape⟩ := Stmt.derives_printed (htrees.followsStatement hnext) h hfront
    refine ⟨again :: trees, .cons hagain htrees, ?_⟩
    show again.shape :: Stmt.retokenEach .standard trees = _
    rw [hshape, hshape']
    rfl

end

end MonkeySyntax
