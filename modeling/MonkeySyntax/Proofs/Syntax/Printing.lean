import MonkeySyntax.Proofs.Syntax.WellFormed

/-!
# MonkeySyntax — the tokens of a printed tree

What is printed for a well-formed tree is cut into the tokens that the layout is made of: no two of
them run together, and each has the kind that is meant.

* **`Expr.printed`** — the tokens of the printed expression, in order.
* **`Expr.lexemes_render`** — they are the tokens of its text, in front of any text that does not go
  on with the last of them. Statements and blocks end with a symbol, so anything may follow them.
* **`Program.lexemes_render`** — the tokens of a printed program.
-/

namespace MonkeySyntax

/-! ## Printed tokens -/

def commas : (phrases : List (List Token)) → List Token
  | [] => []
  | [phrase] => phrase
  | phrase :: next :: rest => phrase ++ .spelled .comma "," :: commas (next :: rest)

def Identifier.printed (name : Identifier) : List Token :=
  [.spelled .identifier name.value]

mutual

/-- The tokens of the printed expression. -/
def Expr.printed : Expr → List Token
  | .identifier name => name.printed
  | .integer token _ => [.spelled .integer token.literal]
  | .boolean _ value => [.spelled (.ofBool value) (boolWord value)]
  | .prefixOp _ operator right =>
    .spelled .openParen "(" :: .ofSymbol operator :: (right.printed ++ [.spelled .closeParen ")"])
  | .infixOp _ left operator right =>
    .spelled .openParen "(" :: (left.printed ++ .ofSymbol operator ::
      (right.printed ++ [.spelled .closeParen ")"]))
  | .ifElse _ condition consequence alternative =>
    .spelled .ifKw "if" :: .spelled .openParen "(" :: (condition.printed ++
      .spelled .closeParen ")" :: (consequence.printed ++ Block.printedElse alternative))
  | .function _ parameters body =>
    .spelled .fnKw "fn" :: .spelled .openParen "(" :: (commas (parameters.map Identifier.printed) ++
      .spelled .closeParen ")" :: body.printed)
  | .call _ callee arguments =>
    callee.printed ++ .spelled .openParen "(" :: (commas (Expr.printedEach arguments) ++
      [.spelled .closeParen ")"])

def Expr.printedEach : List Expr → List (List Token)
  | [] => []
  | expression :: rest => expression.printed :: Expr.printedEach rest

def Block.printed : Block → List Token
  | .mk _ statements =>
    .spelled .openCurly "\x7b" :: (Stmt.printedEach statements ++ [.spelled .closeCurly "\x7d"])

def Block.printedElse : Option Block → List Token
  | none => []
  | some alternative => .spelled .elseKw "else" :: alternative.printed

def Stmt.printed : Stmt → List Token
  | .letBinding _ name value =>
    .spelled .letKw "let" :: .spelled .identifier name.value :: .spelled .assign "=" ::
      (value.printed ++ [.spelled .semicolon ";"])
  | .returnValue _ none => [.spelled .returnKw "return", .spelled .semicolon ";"]
  | .returnValue _ (some value) =>
    .spelled .returnKw "return" :: (value.printed ++ [.spelled .semicolon ";"])
  | .expression _ value => value.printed ++ [.spelled .semicolon ";"]
  | .block body => body.printed

def Stmt.printedEach : List Stmt → List Token
  | [] => []
  | statement :: rest => statement.printed ++ Stmt.printedEach rest

end

/-! ## What an expression begins with

An operator before an operand would run together with an equals sign. -/

/-- A text of letters, or one of digits, does not begin with an equals sign. -/
theorem unequal_of_forall {text : String} {p : UInt8 → Bool} (hnil : text.toList ≠ [])
    (htext : ∀ byte ∈ utf8 text, p byte = true) (hequal : p 0x3d = false) (rest : List UInt8) :
    Unequal (utf8 text ++ rest) := by
  intro byte hbyte
  cases hbytes : utf8 text with
  | nil => exact absurd hbytes (utf8_ne_nil hnil)
  | cons first bytes =>
    rw [hbytes] at hbyte htext
    cases hbyte
    have hfirst : p byte = true := htext byte List.mem_cons_self
    rintro rfl
    exact absurd hfirst (by simp [hequal])

theorem unequal_text (text : String)
    (h : (utf8 text).head?.any (fun byte => byte != 0x3d) = true) (rest : List UInt8) :
    Unequal (utf8 text ++ rest) := by
  intro byte hbyte
  cases htext : utf8 text with
  | nil => simp [htext] at h
  | cons first bytes =>
    rw [htext] at h hbyte
    cases hbyte
    simpa using h

/-- No expression begins with an equals sign. A call begins with its callee. -/
theorem Expr.unequal_render : ∀ {tree : Expr}, tree.Meets .wellFormed → ∀ rest,
    Unequal (utf8 tree.render ++ rest)
  | .identifier _, ⟨hnil, hletters, _⟩, rest =>
    unequal_of_forall hnil (letters_utf8 hletters).2 rfl rest
  | .integer _ _, ⟨hnumber, _⟩, rest => unequal_of_forall hnumber.1 hnumber.utf8.2 rfl rest
  | .boolean token value, h, rest => by
    have hliteral : token.literal = boolWord value := h
    rw [Expr.render, hliteral]
    cases value
    · exact unequal_text "false" (by decide) rest
    · exact unequal_text "true" (by decide) rest
  | .prefixOp _ _ _, _, _ | .infixOp _ _ _ _, _, _ => by
    rw [Expr.render]
    simp only [utf8_append, List.append_assoc]
    exact unequal_text "(" (by decide) _
  | .ifElse _ _ _ _, _, _ => by
    rw [Expr.render]
    simp only [utf8_append, List.append_assoc]
    exact unequal_text "if (" (by decide) _
  | .function token _ _, ⟨h, _⟩, _ => by
    have hliteral : token.literal = "fn" := h
    rw [Expr.render, hliteral]
    simp only [utf8_append, List.append_assoc]
    exact unequal_text "fn" (by decide) _
  | .call _ _ _, ⟨_, hcallee, _⟩, _ => by
    rw [Expr.render]
    simp only [utf8_append, List.append_assoc]
    exact Expr.unequal_render hcallee _

/-! ## Layout

The texts between the parts of a tree. -/

theorem lexemes_commaSpace (rest : List UInt8) :
    lexemes (utf8 ", " ++ rest) = .spelled .comma "," :: lexemes rest := by
  show lexemes (utf8 ("," ++ " ") ++ rest) = _
  rw [utf8_append, List.append_assoc, lexemes_plain "," .comma (by decide), lexemes_space]

theorem lexemes_ifParen (rest : List UInt8) :
    lexemes (utf8 "if (" ++ rest) =
      .spelled .ifKw "if" :: .spelled .openParen "(" :: lexemes rest := by
  show lexemes (utf8 ("if" ++ " " ++ "(") ++ rest) = _
  simp only [utf8_append, List.append_assoc]
  rw [lexemes_keyword "if" .ifKw (by decide) (fenced_text " " (by decide) _), lexemes_space,
    lexemes_plain "(" .openParen (by decide)]

theorem lexemes_parenSpace (rest : List UInt8) :
    lexemes (utf8 ") " ++ rest) = .spelled .closeParen ")" :: lexemes rest := by
  show lexemes (utf8 (")" ++ " ") ++ rest) = _
  rw [utf8_append, List.append_assoc, lexemes_plain ")" .closeParen (by decide), lexemes_space]

theorem lexemes_else (rest : List UInt8) :
    lexemes (utf8 " else " ++ rest) = .spelled .elseKw "else" :: lexemes rest := by
  show lexemes (utf8 (" " ++ "else" ++ " ") ++ rest) = _
  simp only [utf8_append, List.append_assoc]
  rw [lexemes_space, lexemes_keyword "else" .elseKw (by decide) (fenced_text " " (by decide) _),
    lexemes_space]

theorem lexemes_assign (rest : List UInt8) :
    lexemes (utf8 " = " ++ rest) = .spelled .assign "=" :: lexemes rest := by
  show lexemes (utf8 (" " ++ "=" ++ " ") ++ rest) = _
  simp only [utf8_append, List.append_assoc]
  rw [lexemes_space, lexemes_symbol (show ("=", TokenKind.assign) ∈ TokenKind.symbols by decide)
    fun _ => unequal_text " " (by decide) _, lexemes_space]

theorem lexemes_closeCurly (rest : List UInt8) :
    lexemes (utf8 " \x7d" ++ rest) = .spelled .closeCurly "\x7d" :: lexemes rest := by
  show lexemes (utf8 (" " ++ "\x7d") ++ rest) = _
  rw [utf8_append, List.append_assoc, lexemes_space, lexemes_plain "\x7d" .closeCurly (by decide)]

/-- An operator, in front of anything but an equals sign. -/
theorem lexemes_operator {operator : String} {operators : List (String × TokenKind)}
    (hsymbols : operators ⊆ TokenKind.symbols) (h : operator ∈ operators.map Prod.fst)
    {rest : List UInt8} (hrest : Unequal rest) :
    lexemes (utf8 operator ++ rest) = .ofSymbol operator :: lexemes rest := by
  obtain ⟨⟨text, kind⟩, hmem, rfl⟩ := List.mem_map.mp h
  rw [lexemes_symbol (hsymbols hmem) fun _ => hrest, Token.ofSymbol_of_mem (hsymbols hmem)]

/-- Phrases with commas between them, each in front of a comma or of what follows the last. -/
theorem lexemes_commas {α : Type} {text : α → String} {printed : α → List Token} {items : List α}
    (h : ∀ item ∈ items, ∀ {rest : List UInt8}, Fenced rest →
      lexemes (utf8 (text item) ++ rest) = printed item ++ lexemes rest)
    {rest : List UInt8} (hrest : Fenced rest) :
    lexemes (utf8 (", ".intercalate (items.map text)) ++ rest) =
      commas (items.map printed) ++ lexemes rest := by
  induction items with
  | nil =>
    rw [List.map_nil, String.intercalate_nil]
    rfl
  | cons item items ih =>
    obtain ⟨hitem, hitems⟩ := List.forall_mem_cons.mp h
    cases items with
    | nil =>
      rw [List.map_singleton, String.intercalate_singleton]
      exact hitem hrest
    | cons next items =>
      -- the first phrase ends before a comma, and the others as before
      have hmore := ih hitems
      rw [List.map_cons] at hmore
      rw [List.map_cons, List.map_cons, String.intercalate_cons_cons, utf8_append, utf8_append,
        List.append_assoc, List.append_assoc, hitem (fenced_text ", " (by decide) _),
        lexemes_commaSpace]
      simp only [hmore, List.map_cons, commas, List.append_assoc, List.cons_append]

theorem Identifier.lexemes_value {name : Identifier} (h : IsName name.value) {rest : List UInt8}
    (hrest : Fenced rest) :
    lexemes (utf8 name.value ++ rest) = name.printed ++ lexemes rest := by
  rw [lexemes_word h.1 h.2.1 hrest, TokenKind.ofWord_eq_identifier h.2.2]
  rfl

theorem Expr.printedEach_eq_map (trees : List Expr) :
    Expr.printedEach trees = trees.map Expr.printed := by
  induction trees with
  | nil => rfl
  | cons tree rest ih => rw [Expr.printedEach, ih, List.map_cons]

/-! ## Printed trees -/

mutual

/-- **The tokens of a printed expression**, in front of a fence. -/
theorem Expr.lexemes_render : ∀ {tree : Expr}, tree.Meets .wellFormed →
    ∀ {rest : List UInt8}, Fenced rest →
      lexemes (utf8 tree.render ++ rest) = tree.printed ++ lexemes rest
  | .identifier _, h, _, hrest => Identifier.lexemes_value h hrest
  | .integer _ _, ⟨hnumber, _⟩, _, hrest => lexemes_number hnumber hrest
  | .boolean token value, h, _, hrest => by
    have hliteral : token.literal = boolWord value := h
    rw [Expr.render, Expr.printed, hliteral]
    cases value
    · exact lexemes_keyword "false" .falseKw (by decide) hrest
    · exact lexemes_keyword "true" .trueKw (by decide) hrest
  | .prefixOp _ operator right, ⟨h, hright⟩, rest, _ => by
    have hclose : Fenced (utf8 ")" ++ rest) := fenced_text ")" (by decide) rest
    simp only [Expr.render, Expr.printed, utf8_append, List.append_assoc]
    rw [lexemes_plain "(" .openParen (by decide),
      lexemes_operator prefixOperators_subset h (Expr.unequal_render hright _),
      Expr.lexemes_render hright hclose, lexemes_plain ")" .closeParen (by decide)]
    simp
  | .infixOp _ left operator right, ⟨h, hleft, hright⟩, rest, _ => by
    have hclose : Fenced (utf8 ")" ++ rest) := fenced_text ")" (by decide) rest
    simp only [Expr.render, Expr.printed, utf8_append, List.append_assoc]
    rw [lexemes_plain "(" .openParen (by decide),
      Expr.lexemes_render hleft (fenced_text " " (by decide) _), lexemes_space,
      lexemes_operator infixOperators_subset h (unequal_text " " (by decide) _), lexemes_space,
      Expr.lexemes_render hright hclose, lexemes_plain ")" .closeParen (by decide)]
    simp
  | .ifElse _ condition consequence alternative, ⟨_, hcondition, hconsequence, halternative⟩,
      rest, hrest => by
    simp only [Expr.render, Expr.printed, utf8_append, List.append_assoc]
    rw [lexemes_ifParen, Expr.lexemes_render hcondition (fenced_text ") " (by decide) _),
      lexemes_parenSpace, Block.lexemes_render hconsequence,
      Block.lexemes_renderElse halternative]
    simp
  | .function token parameters body, ⟨h, hparameters, hbody⟩, rest, _ => by
    have hliteral : token.literal = "fn" := h
    simp only [Expr.render, Expr.printed, utf8_append, List.append_assoc, hliteral]
    rw [lexemes_keyword "fn" .fnKw (by decide) (fenced_text "(" (by decide) _),
      lexemes_plain "(" .openParen (by decide),
      lexemes_commas (fun name hname => Identifier.lexemes_value (hparameters name hname))
        (fenced_text ") " (by decide) _),
      lexemes_parenSpace, Block.lexemes_render hbody]
    simp
  | .call _ callee arguments, ⟨_, hcallee, harguments⟩, rest, _ => by
    have hclose : Fenced (utf8 ")" ++ rest) := fenced_text ")" (by decide) rest
    simp only [Expr.render, Expr.printed, utf8_append, List.append_assoc,
      Expr.renderEach_eq_map, Expr.printedEach_eq_map]
    rw [Expr.lexemes_render hcallee (fenced_text "(" (by decide) _),
      lexemes_plain "(" .openParen (by decide),
      lexemes_commas (Expr.lexemes_renderEach harguments) hclose,
      lexemes_plain ")" .closeParen (by decide)]
    simp

theorem Expr.lexemes_renderEach : ∀ {trees : List Expr}, Expr.EachMeets .wellFormed trees →
    ∀ tree ∈ trees, ∀ {rest : List UInt8}, Fenced rest →
      lexemes (utf8 tree.render ++ rest) = tree.printed ++ lexemes rest
  | [], _, _, hmem => nomatch hmem
  | first :: others, ⟨hfirst, hothers⟩, tree, hmem => by
    rcases List.mem_cons.mp hmem with heq | hmem
    · rw [heq]
      exact Expr.lexemes_render hfirst
    · exact Expr.lexemes_renderEach hothers tree hmem

theorem Block.lexemes_render : ∀ {tree : Block}, tree.Meets .wellFormed →
    ∀ {rest : List UInt8}, lexemes (utf8 tree.render ++ rest) = tree.printed ++ lexemes rest
  | .mk _ statements, ⟨_, hstatements⟩, rest => by
    simp only [Block.render, Block.printed, utf8_append, List.append_assoc]
    rw [lexemes_plain "\x7b" .openCurly (by decide), Stmt.lexemes_renderBody hstatements,
      lexemes_closeCurly]
    simp

theorem Block.lexemes_renderElse : ∀ {tree : Option Block}, Block.ElseMeets .wellFormed tree →
    ∀ {rest : List UInt8},
      lexemes (utf8 (Block.renderElse tree) ++ rest) = Block.printedElse tree ++ lexemes rest
  | none, _, _ => rfl
  | some alternative, h, rest => by
    simp only [Block.renderElse, Block.printedElse, utf8_append, List.append_assoc]
    rw [lexemes_else, Block.lexemes_render h]
    simp

theorem Stmt.lexemes_render : ∀ {tree : Stmt}, tree.Meets .wellFormed →
    ∀ {rest : List UInt8}, lexemes (utf8 tree.render ++ rest) = tree.printed ++ lexemes rest
  | .letBinding token name value, ⟨h, hname, hvalue⟩, rest => by
    have hliteral : token.literal = "let" := h
    simp only [Stmt.render, Stmt.printed, utf8_append, List.append_assoc, hliteral]
    rw [lexemes_keyword "let" .letKw (by decide) (fenced_text " " (by decide) _), lexemes_space,
      Identifier.lexemes_value hname (fenced_text " = " (by decide) _), lexemes_assign,
      Expr.lexemes_render hvalue (fenced_text ";" (by decide) _),
      lexemes_plain ";" .semicolon (by decide)]
    simp [Identifier.printed]
  | .returnValue token none, h, rest => by
    have hliteral : token.literal = "return" := h
    simp only [Stmt.render, Stmt.printed, utf8_append, List.append_assoc, hliteral]
    rw [lexemes_keyword "return" .returnKw (by decide) (fenced_text ";" (by decide) _),
      lexemes_plain ";" .semicolon (by decide)]
    simp
  | .returnValue token (some value), ⟨h, hvalue⟩, rest => by
    have hliteral : token.literal = "return" := h
    simp only [Stmt.render, Stmt.printed, utf8_append, List.append_assoc, hliteral]
    rw [lexemes_keyword "return" .returnKw (by decide) (fenced_text " " (by decide) _),
      lexemes_space, Expr.lexemes_render hvalue (fenced_text ";" (by decide) _),
      lexemes_plain ";" .semicolon (by decide)]
    simp
  | .expression _ value, h, rest => by
    simp only [Stmt.render, Stmt.printed, utf8_append, List.append_assoc]
    rw [Expr.lexemes_render h (fenced_text ";" (by decide) _),
      lexemes_plain ";" .semicolon (by decide)]
    simp
  | .block body, h, rest => Block.lexemes_render h

theorem Stmt.lexemes_renderBody : ∀ {trees : List Stmt}, Stmt.EachMeets .wellFormed trees →
    ∀ {rest : List UInt8},
      lexemes (utf8 (Stmt.renderBody trees) ++ rest) = Stmt.printedEach trees ++ lexemes rest
  | [], _, _ => rfl
  | statement :: others, ⟨h, hothers⟩, rest => by
    simp only [Stmt.renderBody, Stmt.printedEach, utf8_append, List.append_assoc]
    rw [lexemes_space, Stmt.lexemes_render h, Stmt.lexemes_renderBody hothers]

end

/-- The tokens of statements on lines of their own. -/
theorem Stmt.lexemes_lines {statements : List Stmt} (h : Stmt.EachMeets .wellFormed statements) :
    lexemes (utf8 ("\n".intercalate (statements.map Stmt.render))) =
      Stmt.printedEach statements := by
  induction statements with
  | nil =>
    rw [List.map_nil, String.intercalate_nil]
    rfl
  | cons statement others ih =>
    obtain ⟨hstatement, hothers⟩ := h
    rw [Stmt.printedEach, ← ih hothers]
    -- only where another statement follows there is a newline
    cases others with
    | nil =>
      have hlast : lexemes (utf8 statement.render ++ []) = statement.printed ++ lexemes [] :=
        Stmt.lexemes_render hstatement
      rw [List.append_nil] at hlast
      rw [List.map_singleton, String.intercalate_singleton, hlast, List.map_nil,
        String.intercalate_nil]
      rfl
    | cons next others =>
      rw [List.map_cons, List.map_cons, String.intercalate_cons_cons, utf8_append, utf8_append,
        List.append_assoc, Stmt.lexemes_render hstatement, lexemes_newline]

/-- **The tokens of a printed program.** -/
theorem Program.lexemes_render {program : Program} (h : program.WellFormed) :
    lexemes (utf8 program.render) = Stmt.printedEach program.statements :=
  Stmt.lexemes_lines h

end MonkeySyntax
