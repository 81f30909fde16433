import MonkeySyntax.Syntax.Tree
import MonkeySyntax.Text.Decimal

/-!
# MonkeySyntax — the grammar as a relation

Which lists of tokens are which phrases, without a parser. The expressions are layered: a level for
each pair of operators, all of them grouping to the left, and above these the levels of operators
before an operand, of calls and of operands that nothing can be added to.

```text
Stmt  ::= let IDENT = E T  |  return T  |  return E T  |  E T  |  Block [;]
Block ::= { Stmt* }
E     ::= E (== | !=) E₁ | E₁        E₁ ::= E₁ (< | >) E₂ | E₂
E₂    ::= E₂ (+ | -) E₃ | E₃         E₃ ::= E₃ (* | /) U | U
U     ::= (! | -) U | C              C  ::= C ( [E {, E}] ) | P
P     ::= IDENT | INT | true | false | ( E )
        | if ( E ) Block [else Block] | fn ( [IDENT {, IDENT}] ) Block
```

`T` is a semicolon, or nothing where the next token or the end of the value allows that
(`Terminator`). So a statement is derived in front of the kind of its next token.

* **`Derives phrase ts`** — the tokens `ts` are the phrase, and the tree in the phrase is the
  derivation without its parentheses and terminators. Every node has the token of its place.
* **`Derives.begins`** — what a phrase can begin with.
* **`Derives.loosen`** — a phrase of a level is one of every looser level.
-/

namespace MonkeySyntax

/-! ## Phrases -/

/-- The layers of the expressions, the loosest first. -/
inductive Level where
  | equality
  | relational
  | additive
  | multiplicative
  | unary
  | call
  | primary
  deriving DecidableEq, Repr

namespace Level

/-- The operators between operands that a level adds. -/
def operators : Level → List TokenKind
  | .equality => [.equal, .notEqual]
  | .relational => [.less, .greater]
  | .additive => [.plus, .dash]
  | .multiplicative => [.star, .slash]
  | .unary | .call | .primary => []

/-- The next tighter level. -/
def tighter? : Level → Option Level
  | .equality => some .relational
  | .relational => some .additive
  | .additive => some .multiplicative
  | .multiplicative => some .unary
  | .unary => some .call
  | .call => some .primary
  | .primary => none

end Level

/-- What is derived, with its tree. -/
inductive Phrase where
  | expr (level : Level) (tree : Expr)
  /-- One or more arguments with commas between them. -/
  | arguments (trees : List Expr)
  | block (tree : Block)
  /-- A statement in front of a token of the kind `next`. -/
  | statement (next : TokenKind) (tree : Stmt)
  /-- Any number of statements in front of a token of the kind `next`. -/
  | statements (next : TokenKind) (trees : List Stmt)

/-- The kind of the first token, in front of one of the kind `after`. -/
def firstKind (ts : List Token) (after : TokenKind) : TokenKind :=
  match ts with
  | [] => after
  | token :: _ => token.kind

/-- What may end a statement in front of a token of the kind `next`: a semicolon; nothing before a
closing bracket or the end of the input; and nothing where it is `optional`, unless the next token
could go on with the expression. -/
inductive Terminator : (optional : Bool) → List Token → (next : TokenKind) → Prop where
  | semicolon {optional : Bool} {token : Token} {next : TokenKind}
      (h : token.kind = .semicolon) : Terminator optional [token] next
  | beforeBracket {optional : Bool} : Terminator optional [] .closeCurly
  | beforeEnd {optional : Bool} : Terminator optional [] .eof
  | afterBlock {next : TokenKind} (hdash : next ≠ .dash) (hparen : next ≠ .openParen) :
      Terminator true [] next

/-- One or more names with commas between them. -/
inductive Names : List Token → List Identifier → Prop where
  | last {name : Token} (hname : name.kind = .identifier) : Names [name] [⟨name, name.literal⟩]
  | cons {name comma : Token} {ts : List Token} {names : List Identifier}
      (hname : name.kind = .identifier) (hcomma : comma.kind = .comma) (hmore : Names ts names) :
      Names (name :: comma :: ts) (⟨name, name.literal⟩ :: names)

/-- The parameters of a function, possibly none. -/
def Parameters (ts : List Token) (names : List Identifier) : Prop :=
  (ts = [] ∧ names = []) ∨ Names ts names

inductive Derives : Phrase → List Token → Prop where
  /-- Operators of a level stand between an operand of the level and one of the next tighter. -/
  | infixOp {level tighter : Level} {left right : Expr} {operator : Token} {ts us : List Token}
      (hlevel : level.tighter? = some tighter) (hkind : operator.kind ∈ level.operators)
      (hleft : Derives (.expr level left) ts) (hright : Derives (.expr tighter right) us) :
      Derives (.expr level (.infixOp operator left operator.literal right)) (ts ++ operator :: us)
  | tighter {level tighter : Level} {tree : Expr} {ts : List Token}
      (hlevel : level.tighter? = some tighter) (htree : Derives (.expr tighter tree) ts) :
      Derives (.expr level tree) ts
  | prefixOp {right : Expr} {operator : Token} {ts : List Token}
      (hkind : operator.kind = .bang ∨ operator.kind = .dash)
      (hright : Derives (.expr .unary right) ts) :
      Derives (.expr .unary (.prefixOp operator operator.literal right)) (operator :: ts)
  | call {callee : Expr} {arguments : List Expr} {opening closing : Token} {ts us : List Token}
      (hcallee : Derives (.expr .call callee) ts) (hopening : opening.kind = .openParen)
      (harguments : Derives (.arguments arguments) us) (hclosing : closing.kind = .closeParen) :
      Derives (.expr .call (.call opening callee arguments)) (ts ++ opening :: (us ++ [closing]))
  | callNothing {callee : Expr} {opening closing : Token} {ts : List Token}
      (hcallee : Derives (.expr .call callee) ts) (hopening : opening.kind = .openParen)
      (hclosing : closing.kind = .closeParen) :
      Derives (.expr .call (.call opening callee [])) (ts ++ [opening, closing])
  | identifier {name : Token} (hname : name.kind = .identifier) :
      Derives (.expr .primary (.identifier ⟨name, name.literal⟩)) [name]
  | integer {number : Token} (hnumber : number.kind = .integer)
      (hrange : decimalValue number.literal.toList ≤ largestInteger) :
      Derives (.expr .primary (.integer number (decimalValue number.literal.toList))) [number]
  | trueWord {word : Token} (hword : word.kind = .trueKw) :
      Derives (.expr .primary (.boolean word true)) [word]
  | falseWord {word : Token} (hword : word.kind = .falseKw) :
      Derives (.expr .primary (.boolean word false)) [word]
  | group {inner : Expr} {opening closing : Token} {ts : List Token}
      (hopening : opening.kind = .openParen) (hinner : Derives (.expr .equality inner) ts)
      (hclosing : closing.kind = .closeParen) :
      Derives (.expr .primary inner) (opening :: (ts ++ [closing]))
  | ifOnly {condition : Expr} {consequence : Block} {word opening closing : Token}
      {ts us : List Token} (hword : word.kind = .ifKw) (hopening : opening.kind = .openParen)
      (hcondition : Derives (.expr .equality condition) ts) (hclosing : closing.kind = .closeParen)
      (hconsequence : Derives (.block consequence) us) :
      Derives (.expr .primary (.ifElse word condition consequence none))
        (word :: opening :: (ts ++ closing :: us))
  | ifElse {condition : Expr} {consequence alternative : Block}
      {word opening closing otherwise : Token} {ts us vs : List Token}
      (hword : word.kind = .ifKw) (hopening : opening.kind = .openParen)
      (hcondition : Derives (.expr .equality condition) ts) (hclosing : closing.kind = .closeParen)
      (hconsequence : Derives (.block consequence) us) (hotherwise : otherwise.kind = .elseKw)
      (halternative : Derives (.block alternative) vs) :
      Derives (.expr .primary (.ifElse word condition consequence (some alternative)))
        (word :: opening :: (ts ++ closing :: (us ++ otherwise :: vs)))
  | function {parameters : List Identifier} {body : Block} {word opening closing : Token}
      {ts us : List Token} (hword : word.kind = .fnKw) (hopening : opening.kind = .openParen)
      (hparameters : Parameters ts parameters) (hclosing : closing.kind = .closeParen)
      (hbody : Derives (.block body) us) :
      Derives (.expr .primary (.function word parameters body))
        (word :: opening :: (ts ++ closing :: us))
  | lastArgument {argument : Expr} {ts : List Token}
      (hargument : Derives (.expr .equality argument) ts) : Derives (.arguments [argument]) ts
  | consArgument {argument : Expr} {others : List Expr} {comma : Token} {ts us : List Token}
      (hargument : Derives (.expr .equality argument) ts) (hcomma : comma.kind = .comma)
      (hothers : Derives (.arguments others) us) :
      Derives (.arguments (argument :: others)) (ts ++ comma :: us)
  | block {statements : List Stmt} {opening closing : Token} {ts : List Token}
      (hopening : opening.kind = .openCurly)
      (hstatements : Derives (.statements .closeCurly statements) ts)
      (hclosing : closing.kind = .closeCurly) :
      Derives (.block (.mk opening statements)) (opening :: (ts ++ [closing]))
  | letBinding {value : Expr} {word name assign : Token} {ts us : List Token} {next : TokenKind}
      (hword : word.kind = .letKw) (hname : name.kind = .identifier)
      (hassign : assign.kind = .assign) (hvalue : Derives (.expr .equality value) ts)
      (hend : Terminator value.endsWithBlock us next) :
      Derives (.statement next (.letBinding word ⟨name, name.literal⟩ value))
        (word :: name :: assign :: (ts ++ us))
  | returnNothing {word : Token} {us : List Token} {next : TokenKind}
      (hword : word.kind = .returnKw) (hend : Terminator false us next) :
      Derives (.statement next (.returnValue word none)) (word :: us)
  | returnValue {value : Expr} {word : Token} {ts us : List Token} {next : TokenKind}
      (hword : word.kind = .returnKw) (hvalue : Derives (.expr .equality value) ts)
      (hend : Terminator value.endsWithBlock us next) :
      Derives (.statement next (.returnValue word (some value))) (word :: (ts ++ us))
  /-- The token of the statement is the first one of its expression. -/
  | expression {value : Expr} {first : Token} {ts us : List Token} {next : TokenKind}
      (hvalue : Derives (.expr .equality value) (first :: ts))
      (hend : Terminator value.endsWithBlock us next) :
      Derives (.statement next (.expression first value)) (first :: (ts ++ us))
  | blockOnly {body : Block} {ts : List Token} {next : TokenKind}
      (hbody : Derives (.block body) ts) (hnext : next ≠ .semicolon) :
      Derives (.statement next (.block body)) ts
  | blockSemicolon {body : Block} {semicolon : Token} {ts : List Token} {next : TokenKind}
      (hbody : Derives (.block body) ts) (hsemicolon : semicolon.kind = .semicolon) :
      Derives (.statement next (.block body)) (ts ++ [semicolon])
  | nil {next : TokenKind} : Derives (.statements next []) []
  | cons {statement : Stmt} {others : List Stmt} {ts us : List Token} {next : TokenKind}
      (hstatement : Derives (.statement (firstKind us next) statement) ts)
      (hothers : Derives (.statements next others) us) :
      Derives (.statements next (statement :: others)) (ts ++ us)

/-! ## First tokens

Every phrase but a list of statements has a first token, and its kind tells which phrases it can
begin. This is what lets a parser choose a rule by one token. -/

@[simp]
theorem firstKind_nil (after : TokenKind) : firstKind [] after = after := rfl

@[simp]
theorem firstKind_cons (token : Token) (ts : List Token) (after : TokenKind) :
    firstKind (token :: ts) after = token.kind := rfl

theorem firstKind_append (ts us : List Token) (after : TokenKind) :
    firstKind (ts ++ us) after = firstKind ts (firstKind us after) := by
  cases ts <;> rfl

/-- What comes behind matters only where there is no first token. -/
theorem firstKind_of_ne_nil {ts : List Token} (h : ts ≠ []) (after other : TokenKind) :
    firstKind ts after = firstKind ts other := by
  cases ts with
  | nil => exact absurd rfl h
  | cons => rfl

def TokenKind.beginsExpr : TokenKind → Bool
  | .identifier | .integer | .trueKw | .falseKw | .bang | .dash | .openParen | .ifKw | .fnKw => true
  | _ => false

def TokenKind.beginsStatement (kind : TokenKind) : Bool :=
  kind.beginsExpr || kind = .letKw || kind = .returnKw || kind = .openCurly

/-- What a phrase can begin with. Of a list of statements, which may be empty, nothing is said. -/
def Phrase.Begins : Phrase → TokenKind → Prop
  | .expr _ _, kind => kind.beginsExpr = true
  | .arguments _, kind => kind.beginsExpr = true
  | .block _, kind => kind = .openCurly
  | .statement _ _, kind => kind.beginsStatement = true
  | .statements _ _, _ => True

/-- **What a phrase begins with.** The kind `after` of what follows is arbitrary, so there is a
first token. -/
theorem Derives.begins {phrase : Phrase} {ts : List Token} (h : Derives phrase ts) :
    ∀ after, phrase.Begins (firstKind ts after) := by
  induction h with
  | infixOp _ _ _ _ ih | call _ _ _ _ ih | callNothing _ _ _ ih | consArgument _ _ _ ih =>
    -- what stands to the left begins the whole
    intro after
    rw [firstKind_append]
    exact ih _
  | tighter _ _ ih | lastArgument _ ih => exact ih
  | prefixOp hkind =>
    intro after
    rcases hkind with hkind | hkind <;> simp [Phrase.Begins, TokenKind.beginsExpr, hkind]
  | identifier h | integer h | trueWord h | falseWord h | group h | ifOnly h | ifElse h
  | function h => simp [Phrase.Begins, TokenKind.beginsExpr, h]
  | block h => simp [Phrase.Begins, h]
  | letBinding h | returnNothing h | returnValue h =>
    simp [Phrase.Begins, TokenKind.beginsStatement, h]
  | expression _ _ ih =>
    intro after
    have hfirst := ih after
    simp only [Phrase.Begins, firstKind_cons] at hfirst ⊢
    simp [TokenKind.beginsStatement, hfirst]
  | blockOnly _ _ ih =>
    intro after
    simp only [Phrase.Begins] at ih ⊢
    rw [ih after]
    rfl
  | blockSemicolon _ _ ih =>
    intro after
    simp only [Phrase.Begins] at ih ⊢
    rw [firstKind_append, ih]
    rfl
  | nil | cons => exact fun _ => trivial

/-- A phrase that cannot begin with the end of the input has a first token. -/
theorem Derives.exists_first {phrase : Phrase} {ts : List Token} (h : Derives phrase ts)
    (hend : ¬ phrase.Begins .eof) :
    ∃ first rest, ts = first :: rest ∧ phrase.Begins first.kind := by
  cases ts with
  | nil => exact absurd (h.begins .eof) hend
  | cons first rest => exact ⟨first, rest, rfl, h.begins .eof⟩

theorem Derives.ne_nil {phrase : Phrase} {ts : List Token} (h : Derives phrase ts)
    (hend : ¬ phrase.Begins .eof) : ts ≠ [] := by
  rintro rfl
  exact hend (h.begins .eof)

/-! ## Levels -/

namespace Level

def rank : Level → Nat
  | .equality => 1
  | .relational => 2
  | .additive => 3
  | .multiplicative => 4
  | .unary => 5
  | .call => 6
  | .primary => 7

theorem rank_of_tighter? {level tighter : Level} (h : level.tighter? = some tighter) :
    tighter.rank = level.rank + 1 := by
  cases level <;> cases h <;> rfl

/-- Below a tighter level there is a next one. -/
theorem exists_tighter {loose level : Level} (h : loose.rank < level.rank) :
    ∃ tighter, loose.tighter? = some tighter := by
  cases loose with
  | primary => cases level <;> exact absurd h (by decide)
  | _ => exact ⟨_, rfl⟩

theorem eq_of_rank_eq {level other : Level} (h : level.rank = other.rank) : level = other := by
  cases level <;> cases other <;> first | rfl | exact absurd h (by decide)

end Level

/-- **A phrase of a level is one of every looser level.** -/
theorem Derives.loosen {loose level : Level} {tree : Expr} {ts : List Token}
    (h : Derives (.expr level tree) ts) (hle : loose.rank ≤ level.rank) :
    Derives (.expr loose tree) ts := by
  -- by induction on how many levels lie between
  obtain ⟨n, hn⟩ : ∃ n, level.rank = loose.rank + n := Nat.exists_eq_add_of_le hle
  induction n generalizing loose with
  | zero => exact Level.eq_of_rank_eq hn ▸ h
  | succ n ih =>
    have hlt : loose.rank < level.rank := by omega
    obtain ⟨tighter, htighter⟩ := Level.exists_tighter hlt
    have hrank := Level.rank_of_tighter? htighter
    exact .tighter htighter (ih (by omega) (by omega))

/-! ## Tokens that stand in a phrase -/

/-- None of the tokens is a character that starts no token, and none is a number past the range. -/
def Readable (ts : List Token) : Prop :=
  ∀ token ∈ ts, token.kind ≠ .illegal ∧
    (token.kind = .integer → decimalValue token.literal.toList ≤ largestInteger)

@[simp]
theorem readable_nil : Readable [] :=
  List.forall_mem_nil _

@[simp]
theorem readable_cons {token : Token} {ts : List Token} :
    Readable (token :: ts) ↔ (token.kind ≠ .illegal ∧
      (token.kind = .integer → decimalValue token.literal.toList ≤ largestInteger)) ∧
        Readable ts :=
  List.forall_mem_cons

@[simp]
theorem readable_append {ts us : List Token} : Readable (ts ++ us) ↔ Readable ts ∧ Readable us :=
  List.forall_mem_append

theorem Level.ne_of_mem_operators {level : Level} {kind : TokenKind} (h : kind ∈ level.operators) :
    kind ≠ .illegal ∧ kind ≠ .integer := by
  constructor <;> rintro rfl <;> cases level <;> exact absurd h (by decide)

theorem Names.readable {ts : List Token} {names : List Identifier} (h : Names ts names) :
    Readable ts := by
  induction h with
  | last hname => simp [hname]
  | cons hname hcomma _ ih => simp [hname, hcomma, ih]

theorem Parameters.readable {ts : List Token} {names : List Identifier} (h : Parameters ts names) :
    Readable ts := by
  rcases h with ⟨rfl, -⟩ | hnames
  · exact readable_nil
  · exact hnames.readable

theorem Terminator.readable {optional : Bool} {us : List Token} {next : TokenKind}
    (h : Terminator optional us next) : Readable us := by
  cases h with
  | semicolon hkind => simp [hkind]
  | beforeBracket | beforeEnd | afterBlock => exact readable_nil

/-- **No phrase has a character in it that starts no token, or a number past the range.** -/
theorem Derives.readable {phrase : Phrase} {ts : List Token} (h : Derives phrase ts) :
    Readable ts := by
  induction h with
  | infixOp _ hkind _ _ ihleft ihright => simp [Level.ne_of_mem_operators hkind, ihleft, ihright]
  | tighter _ _ ih | lastArgument _ ih | blockOnly _ _ ih => exact ih
  | prefixOp hkind _ ih => rcases hkind with hkind | hkind <;> simp [hkind, ih]
  | call _ hopening _ hclosing ihcallee iharguments =>
    simp [hopening, hclosing, ihcallee, iharguments]
  | callNothing _ hopening hclosing ih => simp [hopening, hclosing, ih]
  | identifier hkind | trueWord hkind | falseWord hkind => simp [hkind]
  | integer hkind hrange => simp [hkind, hrange]
  | group hopening _ hclosing ih => simp [hopening, hclosing, ih]
  | ifOnly hword hopening _ hclosing _ ihcondition ihconsequence =>
    simp [hword, hopening, hclosing, ihcondition, ihconsequence]
  | ifElse hword hopening _ hclosing _ hotherwise _ ihcondition ihconsequence ihalternative =>
    simp [hword, hopening, hclosing, hotherwise, ihcondition, ihconsequence, ihalternative]
  | function hword hopening hparameters hclosing _ ih =>
    simp [hword, hopening, hclosing, hparameters.readable, ih]
  | consArgument _ hcomma _ ih ihothers => simp [hcomma, ih, ihothers]
  | block hopening _ hclosing ih => simp [hopening, hclosing, ih]
  | letBinding hword hname hassign _ hend ih => simp [hword, hname, hassign, hend.readable, ih]
  | returnNothing hword hend => simp [hword, hend.readable]
  | returnValue hword _ hend ih => simp [hword, hend.readable, ih]
  | expression _ hend ih =>
    rw [← List.cons_append]
    exact readable_append.mpr ⟨ih, hend.readable⟩
  | blockSemicolon _ hsemicolon ih => simp [hsemicolon, ih]
  | nil => exact readable_nil
  | cons _ _ ih ihothers => exact readable_append.mpr ⟨ih, ihothers⟩

end MonkeySyntax
