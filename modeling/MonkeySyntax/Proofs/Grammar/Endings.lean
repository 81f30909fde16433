import MonkeySyntax.Proofs.Grammar.Soundness

/-!
# MonkeySyntax — how expressions end

A statement may go without its semicolon behind an expression that ends with a block. Whether it
does is asked of the tree (`Expr.endsWithBlock`), and the tree has no parentheses. So a group around
such an expression passes for a block, although the last token is its parenthesis.

* **`Expr.EndsInGroup tree ts`** — the tokens of the tree end with such a group.
* **`Expr.Ending tree ts`** — the three ways in which an expression can end. A derived one ends in
  one of them (`Derives.ending`).
* **`endsWithBlock_iff_closeCurly`** — what is asked of the tree is whether the last token is the
  bracket of a block, unless there is such a group; and what that means for statements.
-/

namespace MonkeySyntax

/-! ## Ends -/

/-- What an expression ends with: itself, and what the right operand of its operator ends with. -/
inductive Expr.Ends : (tree part : Expr) → Prop where
  | refl (tree : Expr) : Ends tree tree
  | prefixOp {token : Token} {operator : String} {right part : Expr} (h : Ends right part) :
      Ends (.prefixOp token operator right) part
  | infixOp {token : Token} {left : Expr} {operator : String} {right part : Expr}
      (h : Ends right part) : Ends (.infixOp token left operator right) part

theorem Expr.Ends.endsWithBlock_eq {tree part : Expr} (h : tree.Ends part) :
    tree.endsWithBlock = part.endsWithBlock := by
  induction h with
  | refl => rfl
  | prefixOp _ ih | infixOp _ ih => exact ih

/-- The tokens end with a group, the tree with the expression inside of it, and this one with a
block. -/
def Expr.EndsInGroup (tree : Expr) (ts : List Token) : Prop :=
  ∃ opening inside closing part,
    opening :: (inside ++ [closing]) <:+ ts ∧ opening.kind = .openParen ∧
      closing.kind = .closeParen ∧ Derives (.expr .equality part) inside ∧ tree.Ends part ∧
      part.endsWithBlock = true

/-- How the tokens of an expression end. -/
inductive Expr.Ending (tree : Expr) (ts : List Token) : Prop where
  | block {last : Token} (hlast : [last] <:+ ts) (hkind : last.kind = .closeCurly)
      (htree : tree.endsWithBlock = true)
  | group (h : tree.EndsInGroup ts)
  | other {last : Token} (hlast : [last] <:+ ts) (hkind : last.kind ≠ .closeCurly)
      (htree : tree.endsWithBlock = false)

namespace Expr

variable {tree right : Expr} {ts us : List Token}

theorem EndsInGroup.mono (h : tree.EndsInGroup us) (hsuffix : us <:+ ts) : tree.EndsInGroup ts := by
  obtain ⟨opening, inside, closing, part, hgroup, hrest⟩ := h
  exact ⟨opening, inside, closing, part, hgroup.trans hsuffix, hrest⟩

theorem EndsInGroup.endsWithBlock (h : tree.EndsInGroup ts) : tree.endsWithBlock = true := by
  obtain ⟨_, _, _, part, -, -, -, -, hends, hblock⟩ := h
  exact hends.endsWithBlock_eq.trans hblock

/-- An expression ends like its right operand. -/
theorem Ending.of_right (h : right.Ending us) (hsuffix : us <:+ ts)
    (hends : ∀ part, right.Ends part → tree.Ends part) : tree.Ending ts := by
  have hblock := (hends right (.refl right)).endsWithBlock_eq
  cases h with
  | block hlast hkind htree => exact .block (hlast.trans hsuffix) hkind (hblock.trans htree)
  | other hlast hkind htree => exact .other (hlast.trans hsuffix) hkind (hblock.trans htree)
  | group hgroup =>
    obtain ⟨opening, inside, closing, part, htokens, hopening, hclosing, hinside, hpart, hblock⟩ :=
      hgroup
    exact .group ⟨opening, inside, closing, part, htokens.trans hsuffix, hopening, hclosing, hinside,
      hends part hpart, hblock⟩

end Expr

/-! ## The endings of derived expressions -/

theorem suffix_append_cons (ts : List Token) (token : Token) (us : List Token) :
    us <:+ ts ++ token :: us :=
  (List.suffix_cons token us).trans (List.suffix_append ts _)

/-- The last token of a block is its bracket. -/
theorem Derives.last_block {body : Block} {ts : List Token} (h : Derives (.block body) ts) :
    ∃ last, [last] <:+ ts ∧ last.kind = .closeCurly := by
  cases h with
  | @block _ opening closing ts _ _ hclosing =>
    exact ⟨closing, (List.suffix_append ts [closing]).trans (List.suffix_cons _ _), hclosing⟩

/-- A phrase that is an expression ends as expressions do. -/
def Phrase.HasEnding : Phrase → List Token → Prop
  | .expr _ tree, ts => tree.Ending ts
  | _, _ => True

/-- **A derived expression ends with a block, with a group around one that does, or with another
token.** The induction follows the right operands; an expression in parentheses is a group. -/
theorem Derives.hasEnding {phrase : Phrase} {ts : List Token} (h : Derives phrase ts) :
    phrase.HasEnding ts := by
  induction h with
  | @infixOp _ _ _ _ operator ts us _ _ _ _ _ ih =>
    exact ih.of_right (suffix_append_cons ts operator us) fun _ => .infixOp
  | tighter _ _ ih => exact ih
  | prefixOp _ _ ih => exact ih.of_right (List.suffix_cons _ _) fun _ => .prefixOp
  | @call _ _ opening closing ts us _ _ _ hclosing =>
    have hlast : [closing] <:+ ts ++ opening :: (us ++ [closing]) :=
      (List.suffix_append us [closing]).trans (suffix_append_cons ts opening _)
    exact .other hlast (by simp [hclosing]) rfl
  | @callNothing _ opening closing ts _ _ hclosing =>
    exact .other (suffix_append_cons ts opening [closing]) (by simp [hclosing]) rfl
  | identifier hkind | integer hkind | trueWord hkind | falseWord hkind =>
    exact .other (List.suffix_refl _) (by simp [hkind]) rfl
  | @group inner opening closing ts hopening hinner hclosing =>
    cases hblock : inner.endsWithBlock with
    | true =>
      exact .group ⟨opening, ts, closing, inner, List.suffix_refl _, hopening, hclosing, hinner,
        .refl inner, hblock⟩
    | false =>
      have hlast : [closing] <:+ opening :: (ts ++ [closing]) :=
        (List.suffix_append ts [closing]).trans (List.suffix_cons opening _)
      exact .other hlast (by simp [hclosing]) hblock
  | @ifOnly _ _ word opening closing ts us _ _ _ _ hconsequence =>
    obtain ⟨last, hlast, hkind⟩ := hconsequence.last_block
    exact .block (hlast.trans (suffix_append_cons (word :: opening :: ts) closing us)) hkind rfl
  | @ifElse _ _ _ word opening closing otherwise ts us vs _ _ _ _ _ _ halternative =>
    obtain ⟨last, hlast, hkind⟩ := halternative.last_block
    have hblock := hlast.trans (suffix_append_cons us otherwise vs)
    exact .block (hblock.trans (suffix_append_cons (word :: opening :: ts) closing _)) hkind rfl
  | @function _ _ word opening closing ts us _ _ _ _ hbody =>
    obtain ⟨last, hlast, hkind⟩ := hbody.last_block
    exact .block (hlast.trans (suffix_append_cons (word :: opening :: ts) closing us)) hkind rfl
  | _ => trivial

theorem Derives.ending {level : Level} {tree : Expr} {ts : List Token}
    (h : Derives (.expr level tree) ts) : tree.Ending ts :=
  h.hasEnding

theorem eq_of_last {first second : Token} {ts : List Token} (h : [first] <:+ ts)
    (h' : [second] <:+ ts) : first = second := by
  obtain ⟨front, rfl⟩ := h
  obtain ⟨front', hfront⟩ := h'
  exact (List.singleton_inj.mp (List.append_inj' hfront rfl).2).symm

/-- **The last token of a derived expression is the bracket of a block exactly if its tree ends with
a block**, unless it ends in a group. -/
theorem Derives.endsWithBlock_iff {level : Level} {tree : Expr} {ts : List Token} {last : Token}
    (h : Derives (.expr level tree) ts) (hlast : [last] <:+ ts) :
    (tree.endsWithBlock = true ↔ last.kind = .closeCurly) ↔ ¬ tree.EndsInGroup ts := by
  constructor
  · -- a group ends with its parenthesis
    rintro hiff hgroup
    have hkind := hiff.mp hgroup.endsWithBlock
    obtain ⟨opening, inside, closing, part, htokens, -, hclosing, -⟩ := hgroup
    have hend : [closing] <:+ opening :: (inside ++ [closing]) :=
      (List.suffix_append inside [closing]).trans (List.suffix_cons opening _)
    rw [eq_of_last hlast (hend.trans htokens), hclosing] at hkind
    exact absurd hkind (by decide)
  · intro hgroup
    cases h.ending with
    | block hend hkind htree => simp [eq_of_last hlast hend, hkind, htree]
    | group h => exact absurd h hgroup
    | other hend hkind htree => simp [eq_of_last hlast hend, hkind, htree]

/-! ## Statements -/

/-- The expression with which a statement ends, if there is one. -/
def Stmt.value? : Stmt → Option Expr
  | .letBinding _ _ value => some value
  | .returnValue _ value? => value?
  | .expression _ value => some value
  | .block _ => none

/-- What stands at the end of a statement that ends with this value and whatever ends it. -/
theorem Terminator.ending {value : Expr} {vs us ts : List Token} {next : TokenKind} {last : Token}
    (h : Terminator value.endsWithBlock us next) (hvalue : value.Ending vs)
    (htokens : vs ++ us <:+ ts) (hlast : [last] <:+ ts) (hkind : last.kind ≠ .semicolon) :
    next = .closeCurly ∨ next = .eof ∨ last.kind = .closeCurly ∨ value.EndsInGroup ts := by
  generalize hoptional : value.endsWithBlock = optional at h
  cases h with
  | semicolon hsemicolon =>
    have hend := (List.suffix_append vs _).trans htokens
    exact absurd (eq_of_last hlast hend ▸ hsemicolon) hkind
  | beforeBracket => exact Or.inl rfl
  | beforeEnd => exact Or.inr (Or.inl rfl)
  | afterBlock =>
    rw [List.append_nil] at htokens
    cases hvalue with
    | block hend hclosing =>
      exact Or.inr (Or.inr (Or.inl (eq_of_last hlast (hend.trans htokens) ▸ hclosing)))
    | group hgroup => exact Or.inr (Or.inr (Or.inr (hgroup.mono htokens)))
    | other _ _ htree => exact absurd (htree.symm.trans hoptional) Bool.false_ne_true

/-- **A derived statement that does not end with a semicolon** stands in front of a closing bracket
or the end of the input, or ends with a closing bracket, or in a group. -/
theorem Derives.statement_ending {tree : Stmt} {ts : List Token} {next : TokenKind} {last : Token}
    (h : Derives (.statement next tree) ts) (hlast : [last] <:+ ts)
    (hkind : last.kind ≠ .semicolon) :
    next = .closeCurly ∨ next = .eof ∨ last.kind = .closeCurly ∨
      ∃ value, tree.value? = some value ∧ value.EndsInGroup ts := by
  -- a statement with a value ends as that and its terminator do
  have hends : ∀ {value : Expr} {vs us : List Token}, tree.value? = some value →
      Derives (.expr .equality value) vs → Terminator value.endsWithBlock us next →
      vs ++ us <:+ ts → next = .closeCurly ∨ next = .eof ∨ last.kind = .closeCurly ∨
        ∃ value, tree.value? = some value ∧ value.EndsInGroup ts := by
    intro value vs us htree hvalue hend htokens
    have hending := hend.ending hvalue.ending htokens hlast hkind
    exact hending.imp_right fun h => h.imp_right fun h => h.imp_right fun h => ⟨value, htree, h⟩
  cases h with
  | letBinding _ _ _ hvalue hend =>
    exact hends rfl hvalue hend (suffix_append_cons [_, _] _ _)
  | returnNothing _ hend =>
    cases hend with
    | semicolon hsemicolon =>
      exact absurd (eq_of_last hlast (List.suffix_cons _ _) ▸ hsemicolon) hkind
    | beforeBracket => exact Or.inl rfl
    | beforeEnd => exact Or.inr (Or.inl rfl)
  | returnValue _ hvalue hend => exact hends rfl hvalue hend (List.suffix_cons _ _)
  | expression hvalue hend => exact hends rfl hvalue hend (List.suffix_refl _)
  | blockOnly hbody =>
    obtain ⟨bracket, hbracket, hclosing⟩ := hbody.last_block
    exact Or.inr (Or.inr (Or.inl (eq_of_last hlast hbracket ▸ hclosing)))
  | @blockSemicolon _ semicolon ts _ _ hsemicolon =>
    exact absurd (eq_of_last hlast (List.suffix_append ts [semicolon]) ▸ hsemicolon) hkind

/-- **What is asked of the tree is whether the last token is the bracket of a block**, for every
expression that is read but one that ends in a group. So a statement that is read without a
semicolon stands in front of a closing bracket or the end of the input, or ends with a closing
bracket, or in such a group. -/
theorem endsWithBlock_iff_closeCurly (power : Power) (parser : Parser) :
    (∀ {tree : Expr} {later : Parser}, Parser.parseExpr power parser = .ok tree later →
      ∃ init last rest, parser.ahead = init ++ last :: rest ∧
        later = { parser with ahead := last :: rest } ∧
        ((tree.endsWithBlock = true ↔ last.kind = .closeCurly) ↔
          ¬ tree.EndsInGroup (init ++ [last]))) ∧
    ∀ {tree : Stmt} {later : Parser}, Parser.parseStatement parser = .ok tree later →
      ∃ init last rest, parser.ahead = init ++ last :: rest ∧
        later = { parser with ahead := last :: rest } ∧
        (last.kind ≠ .semicolon →
          later.peek.kind = .closeCurly ∨ later.peek.kind = .eof ∨ last.kind = .closeCurly ∨
            ∃ value, tree.value? = some value ∧ value.EndsInGroup (init ++ [last])) := by
  constructor
  · intro tree later h
    have hread := ((Grammar.sound_upTo _).exprRule (Nat.le_succ parser.remaining) h).1
    obtain ⟨init, last, rest, hahead, hlater, hderives⟩ :=
      hread.exists_split Parser.not_begins_expr
    exact ⟨init, last, rest, hahead, hlater, hderives.endsWithBlock_iff (List.suffix_append _ _)⟩
  · intro tree later h
    have hread := (Grammar.sound_upTo _).statementRule (Nat.le_succ parser.remaining) h
    obtain ⟨init, last, rest, hahead, hlater, hderives⟩ := hread.exists_split Bool.false_ne_true
    exact ⟨init, last, rest, hahead, hlater,
      hderives.statement_ending (List.suffix_append _ _)⟩

/-- A negated function, which ends with the bracket of its block and in no group, and a statement of
it in front of a name. -/
theorem endsWithBlock_iff_closeCurly_of_function :
    (∃ tree later init last rest,
      Parser.parseExpr .lowest (Parser.ofSource "-fn() { }") = .ok tree later ∧
        (Parser.ofSource "-fn() { }").ahead = init ++ last :: rest ∧
        (tree.endsWithBlock = true ∧ last.kind = .closeCurly) ∧
        ¬ tree.EndsInGroup (init ++ [last])) ∧
      ∃ tree later init last rest,
        Parser.parseStatement (Parser.ofSource "-fn() { } x") = .ok tree later ∧
          (Parser.ofSource "-fn() { } x").ahead = init ++ last :: rest ∧
          last.kind ≠ .semicolon ∧ (later.peek.kind = .closeCurly ∨ later.peek.kind = .eof ∨
            last.kind = .closeCurly ∨
              ∃ value, tree.value? = some value ∧ value.EndsInGroup (init ++ [last])) := by
  constructor
  · have hparse : ∃ tree later,
        Parser.parseExpr .lowest (Parser.ofSource "-fn() { }") = .ok tree later ∧
          tree.endsWithBlock = true ∧ later.current.kind = .closeCurly := ⟨_, _, rfl, rfl, rfl⟩
    obtain ⟨tree, later, hparse, htree, hkind⟩ := hparse
    obtain ⟨init, last, rest, hahead, hlater, hiff⟩ :=
      (endsWithBlock_iff_closeCurly .lowest _).1 hparse
    rw [hlater] at hkind
    exact ⟨tree, later, init, last, rest, hparse, hahead, ⟨htree, hkind⟩,
      hiff.mp (iff_of_true htree hkind)⟩
  · have hparse : ∃ tree later,
        Parser.parseStatement (Parser.ofSource "-fn() { } x") = .ok tree later ∧
          later.current.kind = .closeCurly := ⟨_, _, rfl, rfl⟩
    obtain ⟨tree, later, hparse, hkind⟩ := hparse
    obtain ⟨init, last, rest, hahead, hlater, hending⟩ :=
      (endsWithBlock_iff_closeCurly .lowest _).2 hparse
    rw [hlater] at hkind
    have hlast : last.kind ≠ .semicolon := by
      intro hsemicolon
      exact absurd (hsemicolon.symm.trans hkind) (by decide)
    exact ⟨tree, later, init, last, rest, hparse, hahead, hlast, hending hlast⟩

/-- A function in parentheses passes for a block: its tree ends with one, and its last token is a
parenthesis. So a statement of it may stand in front of a name without a semicolon. -/
theorem not_endsWithBlock_iff_closeCurly :
    (∃ tree later, Parser.parseExpr .lowest (Parser.ofSource "(fn() { })") = .ok tree later ∧
      tree.endsWithBlock = true ∧ later.current.kind = .closeParen) ∧
    ∃ tree later, Parser.parseStatement (Parser.ofSource "(fn() { }) x") = .ok tree later ∧
      later.current.kind = .closeParen ∧ later.peek.kind = .identifier :=
  ⟨⟨_, _, rfl, rfl, rfl⟩, _, _, rfl, rfl, rfl⟩

end MonkeySyntax
