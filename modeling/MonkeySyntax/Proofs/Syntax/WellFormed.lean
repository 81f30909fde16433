import MonkeySyntax.Proofs.Syntax.Shape
import MonkeySyntax.Proofs.Text.Ascii
import MonkeySyntax.Text.Decimal

/-!
# MonkeySyntax — well-formed trees

What can be asked of a tree is asked of each of its nodes, by a `NodeSpec`.

* **`NodeSpec.wellFormed`** — what is printed for the node can be read again. Tokens matter only
  where their text is printed, as they are made up in a tree that is made by hand.
* **`NodeSpec.consistent`** — the value of the node is the one that is read from its token. This is
  what a parser gives; it is more than well-formed (`NodeSpec.consistent_implies`).
-/

namespace MonkeySyntax

/-- What is asked of the nodes of a tree, kind by kind. -/
structure NodeSpec where
  identifier : Identifier → Prop
  integer : Token → Int → Prop
  boolean : Token → Bool → Prop
  prefixOp : Token → String → Prop
  infixOp : Token → String → Prop
  ifElse : Token → Prop
  function : Token → Prop
  call : Token → Prop
  block : Token → Prop
  letBinding : Token → Prop
  returnValue : Token → Prop

mutual

/-- Every node of the expression is as asked. -/
def Expr.Meets (spec : NodeSpec) : Expr → Prop
  | .identifier name => spec.identifier name
  | .integer token value => spec.integer token value
  | .boolean token value => spec.boolean token value
  | .prefixOp token operator right => spec.prefixOp token operator ∧ right.Meets spec
  | .infixOp token left operator right =>
    spec.infixOp token operator ∧ left.Meets spec ∧ right.Meets spec
  | .ifElse token condition consequence alternative =>
    spec.ifElse token ∧ condition.Meets spec ∧ consequence.Meets spec ∧
      Block.ElseMeets spec alternative
  | .function token parameters body =>
    spec.function token ∧ (∀ parameter ∈ parameters, spec.identifier parameter) ∧ body.Meets spec
  | .call token callee arguments =>
    spec.call token ∧ callee.Meets spec ∧ Expr.EachMeets spec arguments

def Expr.EachMeets (spec : NodeSpec) : List Expr → Prop
  | [] => True
  | expression :: rest => expression.Meets spec ∧ Expr.EachMeets spec rest

def Block.Meets (spec : NodeSpec) : Block → Prop
  | .mk token statements => spec.block token ∧ Stmt.EachMeets spec statements

def Block.ElseMeets (spec : NodeSpec) : Option Block → Prop
  | none => True
  | some alternative => alternative.Meets spec

/-- Every node of the statement is as asked. Nothing is asked of the first token of a statement that
is an expression. -/
def Stmt.Meets (spec : NodeSpec) : Stmt → Prop
  | .letBinding token name value =>
    spec.letBinding token ∧ spec.identifier name ∧ value.Meets spec
  | .returnValue token none => spec.returnValue token
  | .returnValue token (some value) => spec.returnValue token ∧ value.Meets spec
  | .expression _ value => value.Meets spec
  | .block body => body.Meets spec

def Stmt.EachMeets (spec : NodeSpec) : List Stmt → Prop
  | [] => True
  | statement :: rest => statement.Meets spec ∧ Stmt.EachMeets spec rest

end

/-! ## The two specifications -/

def prefixOperators : List (String × TokenKind) :=
  [("!", .bang), ("-", .dash)]

def infixOperators : List (String × TokenKind) :=
  [("+", .plus), ("-", .dash), ("*", .star), ("/", .slash), ("<", .less), (">", .greater),
    ("==", .equal), ("!=", .notEqual)]

/-- What is printed for the node can be read again. -/
def NodeSpec.wellFormed : NodeSpec where
  identifier name := IsName name.value
  integer token value :=
    IsNumber token.literal ∧ value = decimalValue token.literal.toList ∧ value ≤ largestInteger
  boolean token value := token.literal = boolWord value
  prefixOp _ operator := operator ∈ prefixOperators.map Prod.fst
  infixOp _ operator := operator ∈ infixOperators.map Prod.fst
  ifElse _ := True
  function token := token.literal = "fn"
  call _ := True
  block _ := True
  letBinding token := token.literal = "let"
  returnValue token := token.literal = "return"

/-- The token has this kind and this text. -/
def Token.Is (token : Token) (kind : TokenKind) (text : String) : Prop :=
  token.kind = kind ∧ token.literal = text

/-- The value of the node is the one that is read from its token. -/
def NodeSpec.consistent : NodeSpec where
  identifier name :=
    name.token.kind = .identifier ∧ name.value = name.token.literal ∧ IsName name.value
  integer token value :=
    token.kind = .integer ∧ IsNumber token.literal ∧ value = decimalValue token.literal.toList ∧
      0 ≤ value ∧ value ≤ largestInteger
  boolean token value := token.Is (.ofBool value) (boolWord value)
  prefixOp token operator :=
    operator = token.literal ∧ (operator, token.kind) ∈ prefixOperators
  infixOp token operator :=
    operator = token.literal ∧ (operator, token.kind) ∈ infixOperators
  ifElse token := token.Is .ifKw "if"
  function token := token.Is .fnKw "fn"
  call token := token.Is .openParen "("
  block token := token.Is .openCurly "\x7b"
  letBinding token := token.Is .letKw "let"
  returnValue token := token.Is .returnKw "return"

/-! ## What is read is well formed -/

/-- Whatever is asked by the first is asked by the second at most. -/
structure NodeSpec.Implies (spec weaker : NodeSpec) : Prop where
  identifier {name : Identifier} : spec.identifier name → weaker.identifier name
  integer {token : Token} {value : Int} : spec.integer token value → weaker.integer token value
  boolean {token : Token} {value : Bool} : spec.boolean token value → weaker.boolean token value
  prefixOp {token : Token} {operator : String} :
    spec.prefixOp token operator → weaker.prefixOp token operator
  infixOp {token : Token} {operator : String} :
    spec.infixOp token operator → weaker.infixOp token operator
  ifElse {token : Token} : spec.ifElse token → weaker.ifElse token
  function {token : Token} : spec.function token → weaker.function token
  call {token : Token} : spec.call token → weaker.call token
  block {token : Token} : spec.block token → weaker.block token
  letBinding {token : Token} : spec.letBinding token → weaker.letBinding token
  returnValue {token : Token} : spec.returnValue token → weaker.returnValue token

mutual

theorem Expr.Meets.mono {spec weaker : NodeSpec} (himplies : spec.Implies weaker) :
    ∀ {tree : Expr}, tree.Meets spec → tree.Meets weaker
  | .identifier _, h => himplies.identifier h
  | .integer _ _, h => himplies.integer h
  | .boolean _ _, h => himplies.boolean h
  | .prefixOp _ _ _, ⟨h, hright⟩ => ⟨himplies.prefixOp h, hright.mono himplies⟩
  | .infixOp _ _ _ _, ⟨h, hleft, hright⟩ =>
    ⟨himplies.infixOp h, hleft.mono himplies, hright.mono himplies⟩
  | .ifElse _ _ _ _, ⟨h, hcondition, hconsequence, halternative⟩ =>
    ⟨himplies.ifElse h, hcondition.mono himplies, hconsequence.mono himplies,
      Block.ElseMeets.mono himplies halternative⟩
  | .function _ _ _, ⟨h, hparameters, hbody⟩ =>
    ⟨himplies.function h, fun name hname => himplies.identifier (hparameters name hname),
      hbody.mono himplies⟩
  | .call _ _ _, ⟨h, hcallee, harguments⟩ =>
    ⟨himplies.call h, hcallee.mono himplies, Expr.EachMeets.mono himplies harguments⟩

theorem Expr.EachMeets.mono {spec weaker : NodeSpec} (himplies : spec.Implies weaker) :
    ∀ {trees : List Expr}, Expr.EachMeets spec trees → Expr.EachMeets weaker trees
  | [], _ => trivial
  | _ :: _, ⟨h, hrest⟩ => ⟨h.mono himplies, Expr.EachMeets.mono himplies hrest⟩

theorem Block.Meets.mono {spec weaker : NodeSpec} (himplies : spec.Implies weaker) :
    ∀ {tree : Block}, tree.Meets spec → tree.Meets weaker
  | .mk _ _, ⟨h, hstatements⟩ => ⟨himplies.block h, Stmt.EachMeets.mono himplies hstatements⟩

theorem Block.ElseMeets.mono {spec weaker : NodeSpec} (himplies : spec.Implies weaker) :
    ∀ {tree : Option Block}, Block.ElseMeets spec tree → Block.ElseMeets weaker tree
  | none, _ => trivial
  | some _, h => Block.Meets.mono himplies h

theorem Stmt.Meets.mono {spec weaker : NodeSpec} (himplies : spec.Implies weaker) :
    ∀ {tree : Stmt}, tree.Meets spec → tree.Meets weaker
  | .letBinding _ _ _, ⟨h, hname, hvalue⟩ =>
    ⟨himplies.letBinding h, himplies.identifier hname, hvalue.mono himplies⟩
  | .returnValue _ none, h => himplies.returnValue h
  | .returnValue _ (some _), ⟨h, hvalue⟩ => ⟨himplies.returnValue h, hvalue.mono himplies⟩
  | .expression _ _, h => Expr.Meets.mono himplies h
  | .block _, h => Block.Meets.mono himplies h

theorem Stmt.EachMeets.mono {spec weaker : NodeSpec} (himplies : spec.Implies weaker) :
    ∀ {trees : List Stmt}, Stmt.EachMeets spec trees → Stmt.EachMeets weaker trees
  | [], _ => trivial
  | _ :: _, ⟨h, hrest⟩ => ⟨h.mono himplies, Stmt.EachMeets.mono himplies hrest⟩

end

/-- **What could have been read can be printed and read again.** -/
theorem NodeSpec.consistent_implies : NodeSpec.consistent.Implies NodeSpec.wellFormed where
  identifier h := h.2.2
  integer h := ⟨h.2.1, h.2.2.1, h.2.2.2.2⟩
  boolean h := h.2
  prefixOp h := List.mem_map_of_mem h.2
  infixOp h := List.mem_map_of_mem h.2
  ifElse _ := trivial
  function h := h.2
  call _ := trivial
  block _ := trivial
  letBinding h := h.2
  returnValue h := h.2

/-! ## The tokens of what is read

The tokens of a tree that could have been read are those of its shape, but for their places. -/

theorem Token.Is.bare {token : Token} {kind : TokenKind} {text : String}
    (h : token.Is kind text) : token.bare = .spelled kind text := by
  rw [Token.bare, h.1, h.2]

/-- An operator, before an operand or between two, is the symbol with its text. -/
theorem bare_of_operator {token : Token} {operator : String}
    {operators : List (String × TokenKind)} (hsymbols : operators ⊆ TokenKind.symbols)
    (h : operator = token.literal ∧ (operator, token.kind) ∈ operators) :
    token.bare = .ofSymbol operator := by
  rw [Token.ofSymbol_of_mem (hsymbols h.2), h.1]
  rfl

theorem prefixOperators_subset : prefixOperators ⊆ TokenKind.symbols := by
  decide

theorem infixOperators_subset : infixOperators ⊆ TokenKind.symbols := by
  decide

theorem Identifier.unplaced {name : Identifier} (h : NodeSpec.consistent.identifier name) :
    name.retoken .unplaced = name.retoken .standard := by
  obtain ⟨hkind, hvalue, -⟩ := h
  -- the token of the name is the one that its value is read from
  have hbare : name.token.bare = .spelled .identifier name.value := by
    rw [Token.bare, hkind, hvalue]
  rw [Identifier.retoken, Identifier.retoken]
  exact congrArg (Identifier.mk · name.value) hbare

open Retokening in
mutual

theorem Expr.unplaced :
    ∀ {tree : Expr}, tree.Meets .consistent → tree.retoken .unplaced = tree.retoken .standard
  | .identifier name, h => by
    rw [Expr.retoken, Expr.retoken, Identifier.unplaced h]
  | .integer token _, ⟨hkind, _⟩ => by
    have hbare : token.bare = .spelled .integer token.literal := by rw [Token.bare, hkind]
    rw [Expr.retoken, Expr.retoken, node_unplaced, node_standard, hbare]
  | .boolean token value, h => by
    have hbare : token.bare = .spelled (.ofBool value) (boolWord value) := h.bare
    rw [Expr.retoken, Expr.retoken, node_unplaced, node_standard, hbare]
  | .prefixOp _ _ _, ⟨h, hright⟩ => by
    rw [Expr.retoken, Expr.retoken, node_unplaced, node_standard,
      bare_of_operator prefixOperators_subset h, Expr.unplaced hright]
  | .infixOp _ _ _ _, ⟨h, hleft, hright⟩ => by
    rw [Expr.retoken, Expr.retoken, node_unplaced, node_standard,
      bare_of_operator infixOperators_subset h, Expr.unplaced hleft, Expr.unplaced hright]
  | .ifElse _ _ _ _, ⟨h, hcondition, hconsequence, halternative⟩ => by
    rw [Expr.retoken, Expr.retoken, node_unplaced, node_standard, h.bare,
      Expr.unplaced hcondition, Block.unplaced hconsequence, Block.unplacedElse halternative]
  | .function _ _ _, ⟨h, hparameters, hbody⟩ => by
    rw [Expr.retoken, Expr.retoken, node_unplaced, node_standard, h.bare, Block.unplaced hbody,
      List.map_congr_left fun name hname => Identifier.unplaced (hparameters name hname)]
  | .call _ _ _, ⟨h, hcallee, harguments⟩ => by
    rw [Expr.retoken, Expr.retoken, node_unplaced, node_standard, h.bare,
      Expr.unplaced hcallee, Expr.unplacedEach harguments]

theorem Expr.unplacedEach : ∀ {trees : List Expr}, Expr.EachMeets .consistent trees →
    Expr.retokenEach .unplaced trees = Expr.retokenEach .standard trees
  | [], _ => rfl
  | _ :: _, ⟨h, hrest⟩ => by
    rw [Expr.retokenEach, Expr.retokenEach, Expr.unplaced h, Expr.unplacedEach hrest]

theorem Block.unplaced :
    ∀ {tree : Block}, tree.Meets .consistent → tree.retoken .unplaced = tree.retoken .standard
  | .mk _ _, ⟨h, hstatements⟩ => by
    rw [Block.retoken, Block.retoken, node_unplaced, node_standard, h.bare,
      Stmt.unplacedEach hstatements]

theorem Block.unplacedElse : ∀ {tree : Option Block}, Block.ElseMeets .consistent tree →
    Block.retokenElse .unplaced tree = Block.retokenElse .standard tree
  | none, _ => rfl
  | some _, h => congrArg some (Block.unplaced h)

theorem Stmt.unplaced :
    ∀ {tree : Stmt}, tree.Meets .consistent → tree.retoken .unplaced = tree.retoken .standard
  | .letBinding _ _ _, ⟨h, hname, hvalue⟩ => by
    rw [Stmt.retoken, Stmt.retoken, node_unplaced, node_standard, h.bare,
      Identifier.unplaced hname, Expr.unplaced hvalue]
  | .returnValue _ none, h => by
    rw [Stmt.retoken, Stmt.retoken, node_unplaced, node_standard, Token.Is.bare h]
  | .returnValue _ (some _), ⟨h, hvalue⟩ => by
    rw [Stmt.retoken, Stmt.retoken, node_unplaced, node_standard, h.bare, Expr.unplaced hvalue]
  | .expression _ _, h => by
    rw [Stmt.retoken, Stmt.retoken, first_unplaced, Expr.unplaced h]
  | .block _, h => congrArg Stmt.block (Block.unplaced h)

theorem Stmt.unplacedEach : ∀ {trees : List Stmt}, Stmt.EachMeets .consistent trees →
    Stmt.retokenEach .unplaced trees = Stmt.retokenEach .standard trees
  | [], _ => rfl
  | _ :: _, ⟨h, hrest⟩ => by
    rw [Stmt.retokenEach, Stmt.retokenEach, Stmt.unplaced h, Stmt.unplacedEach hrest]

end

/-! ## Printing with other tokens

What is printed for a well-formed tree depends on its shape alone: a token whose text is printed has
the text that its node fixes. So it is printed alike with all tokens that keep these texts. -/

/-- A token with the text of the one that its node is read from keeps it. -/
def Retokening.KeepsText (tokens : Retokening) : Prop :=
  ∀ token standard : Token, token.literal = standard.literal →
    (tokens.node token standard).literal = token.literal

theorem Retokening.keepsText_standard : Retokening.standard.KeepsText :=
  fun _ _ h => h.symm

variable {tokens : Retokening}

theorem map_value_retoken (tokens : Retokening) (names : List Identifier) :
    (names.map (Identifier.retoken tokens)).map Identifier.value = names.map Identifier.value := by
  rw [List.map_map]
  rfl

mutual

theorem Expr.render_retoken (htokens : tokens.KeepsText) :
    ∀ {tree : Expr}, tree.Meets .wellFormed → (tree.retoken tokens).render = tree.render
  | .identifier _, _ => rfl
  | .integer token _, _ => htokens token _ rfl
  | .boolean token value, h => htokens token (.spelled _ (boolWord value)) h
  | .prefixOp _ _ _, ⟨_, hright⟩ => by
    rw [Expr.retoken, Expr.render, Expr.render, Expr.render_retoken htokens hright]
  | .infixOp _ _ _ _, ⟨_, hleft, hright⟩ => by
    rw [Expr.retoken, Expr.render, Expr.render, Expr.render_retoken htokens hleft,
      Expr.render_retoken htokens hright]
  | .ifElse _ _ _ _, ⟨_, hcondition, hconsequence, halternative⟩ => by
    rw [Expr.retoken, Expr.render, Expr.render, Expr.render_retoken htokens hcondition,
      Block.render_retoken htokens hconsequence, Block.renderElse_retoken htokens halternative]
  | .function token _ _, ⟨h, _, hbody⟩ => by
    rw [Expr.retoken, Expr.render, Expr.render, htokens token (.spelled _ "fn") h,
      map_value_retoken, Block.render_retoken htokens hbody]
  | .call _ _ _, ⟨_, hcallee, harguments⟩ => by
    rw [Expr.retoken, Expr.render, Expr.render, Expr.render_retoken htokens hcallee,
      Expr.renderEach_retoken htokens harguments]

theorem Expr.renderEach_retoken (htokens : tokens.KeepsText) :
    ∀ {trees : List Expr}, Expr.EachMeets .wellFormed trees →
      Expr.renderEach (Expr.retokenEach tokens trees) = Expr.renderEach trees
  | [], _ => rfl
  | _ :: _, ⟨h, hrest⟩ => by
    rw [Expr.retokenEach, Expr.renderEach, Expr.renderEach, Expr.render_retoken htokens h,
      Expr.renderEach_retoken htokens hrest]

theorem Block.render_retoken (htokens : tokens.KeepsText) :
    ∀ {tree : Block}, tree.Meets .wellFormed → (tree.retoken tokens).render = tree.render
  | .mk _ _, ⟨_, hstatements⟩ => by
    rw [Block.retoken, Block.render, Block.render, Stmt.renderBody_retoken htokens hstatements]

theorem Block.renderElse_retoken (htokens : tokens.KeepsText) :
    ∀ {tree : Option Block}, Block.ElseMeets .wellFormed tree →
      Block.renderElse (Block.retokenElse tokens tree) = Block.renderElse tree
  | none, _ => rfl
  | some _, h => by
    rw [Block.retokenElse, Block.renderElse, Block.renderElse, Block.render_retoken htokens h]

theorem Stmt.render_retoken (htokens : tokens.KeepsText) :
    ∀ {tree : Stmt}, tree.Meets .wellFormed → (tree.retoken tokens).render = tree.render
  | .letBinding token _ _, ⟨h, _, hvalue⟩ => by
    rw [Stmt.retoken, Stmt.render, Stmt.render, htokens token (.spelled _ "let") h,
      Expr.render_retoken htokens hvalue]
    rfl
  | .returnValue token none, h => by
    rw [Stmt.retoken, Stmt.render, Stmt.render, htokens token (.spelled _ "return") h]
  | .returnValue token (some _), ⟨h, hvalue⟩ => by
    rw [Stmt.retoken, Stmt.render, Stmt.render, htokens token (.spelled _ "return") h,
      Expr.render_retoken htokens hvalue]
  | .expression _ _, h => by
    rw [Stmt.retoken, Stmt.render, Stmt.render, Expr.render_retoken htokens h]
  | .block _, h => by
    rw [Stmt.retoken, Stmt.render, Stmt.render, Block.render_retoken htokens h]

theorem Stmt.renderBody_retoken (htokens : tokens.KeepsText) :
    ∀ {trees : List Stmt}, Stmt.EachMeets .wellFormed trees →
      Stmt.renderBody (Stmt.retokenEach tokens trees) = Stmt.renderBody trees
  | [], _ => rfl
  | _ :: _, ⟨h, hrest⟩ => by
    rw [Stmt.retokenEach, Stmt.renderBody, Stmt.renderBody, Stmt.render_retoken htokens h,
      Stmt.renderBody_retoken htokens hrest]

end

theorem Stmt.map_render_retoken (htokens : tokens.KeepsText) :
    ∀ {trees : List Stmt}, Stmt.EachMeets .wellFormed trees →
      (Stmt.retokenEach tokens trees).map Stmt.render = trees.map Stmt.render
  | [], _ => rfl
  | _ :: _, ⟨h, hrest⟩ => by
    rw [Stmt.retokenEach, List.map_cons, List.map_cons, Stmt.render_retoken htokens h,
      Stmt.map_render_retoken htokens hrest]

namespace Program

/-- The program can be printed and read again. -/
def WellFormed (program : Program) : Prop :=
  Stmt.EachMeets .wellFormed program.statements

/-- The program could have been read. -/
def Consistent (program : Program) : Prop :=
  Stmt.EachMeets .consistent program.statements

variable {program other : Program}

theorem Consistent.wellFormed (h : program.Consistent) : program.WellFormed :=
  h.mono NodeSpec.consistent_implies

/-- A program that could have been read is its shape, but for the places of its tokens. -/
theorem Consistent.bare_eq (h : program.Consistent) : program.bare = program.shape :=
  congrArg Program.mk (Stmt.unplacedEach h)

theorem WellFormed.render_retoken {tokens : Retokening} (h : program.WellFormed)
    (htokens : tokens.KeepsText) :
    render ⟨Stmt.retokenEach tokens program.statements⟩ = program.render := by
  rw [render, render, Stmt.map_render_retoken htokens h]

/-- **Programs of one shape are printed alike.** -/
theorem WellFormed.render_eq (h : program.WellFormed) (hother : other.WellFormed)
    (hshape : program.shape = other.shape) : program.render = other.render := by
  -- each is printed as its shape
  rw [← h.render_retoken Retokening.keepsText_standard,
    ← hother.render_retoken Retokening.keepsText_standard]
  exact congrArg render hshape

end Program

end MonkeySyntax
