import MonkeySyntax.Proofs.Grammar.Derivation

/-!
# MonkeySyntax — curly brackets

How many blocks are open at a place in a list of tokens is told by the curly brackets before it. A
closing bracket outside of all blocks closes nothing, so the count never goes below zero.

* **`braceDepth depth ts`** — the blocks that are open behind the tokens `ts`, where `depth` are
  open before them.
* **`Derives.encloses`** — a phrase closes the blocks that it opens, and no others, and its
  semicolons stand inside of these, all but the one that ends a statement.
* **`Derives.eq_nil_of_semicolon`** — so a semicolon outside of all blocks ends the statement.
-/

namespace MonkeySyntax

/-! ## Counting -/

/-- The blocks that are open behind a token of this kind, where `depth` are open before it. -/
def TokenKind.nest (kind : TokenKind) (depth : Nat) : Nat :=
  match kind with
  | .openCurly => depth + 1
  | .closeCurly => depth - 1
  | _ => depth

/-- The blocks that are open behind the tokens, where `depth` are open before them. -/
def braceDepth (depth : Nat) (ts : List Token) : Nat :=
  ts.foldl (fun depth token => token.kind.nest depth) depth

/-- Neither a bracket of a block nor the end of a statement. -/
def TokenKind.isPlain : TokenKind → Bool
  | .openCurly | .closeCurly | .semicolon => false
  | _ => true

@[simp]
theorem braceDepth_nil (depth : Nat) : braceDepth depth [] = depth := rfl

@[simp]
theorem braceDepth_cons (depth : Nat) (token : Token) (ts : List Token) :
    braceDepth depth (token :: ts) = braceDepth (token.kind.nest depth) ts := rfl

@[simp]
theorem braceDepth_append (depth : Nat) (ts us : List Token) :
    braceDepth depth (ts ++ us) = braceDepth (braceDepth depth ts) us :=
  List.foldl_append

theorem TokenKind.nest_of_isPlain {kind : TokenKind} (h : kind.isPlain = true) (depth : Nat) :
    kind.nest depth = depth := by
  cases kind <;> first | rfl | exact absurd h (by decide)

theorem TokenKind.nest_le {kind : TokenKind} (h : kind ≠ .openCurly) (depth : Nat) :
    kind.nest depth ≤ depth := by
  cases kind with
  | openCurly => exact absurd rfl h
  | closeCurly => exact Nat.sub_le depth 1
  | _ => exact Nat.le_refl depth

theorem TokenKind.nest_mono (kind : TokenKind) {depth other : Nat} (h : depth ≤ other) :
    kind.nest depth ≤ kind.nest other := by
  cases kind with
  | openCurly => exact Nat.add_le_add_right h 1
  | closeCurly => exact Nat.sub_le_sub_right h 1
  | _ => exact h

theorem braceDepth_mono {depth other : Nat} (h : depth ≤ other) (ts : List Token) :
    braceDepth depth ts ≤ braceDepth other ts := by
  induction ts generalizing depth other with
  | nil => exact h
  | cons token ts ih => exact ih (token.kind.nest_mono h)

/-- Behind tokens in front, no fewer blocks are open than without them. -/
theorem braceDepth_zero_le (depth : Nat) (ts us : List Token) :
    braceDepth 0 us ≤ braceDepth depth (ts ++ us) := by
  rw [braceDepth_append]
  exact braceDepth_mono (Nat.zero_le _) us

/-! ## Semicolons -/

/-- Where `depth` blocks are open before the tokens, one is open at each semicolon. -/
def SemicolonsInside : (depth : Nat) → List Token → Prop
  | _, [] => True
  | depth, token :: ts =>
    (token.kind = .semicolon → 0 < depth) ∧ SemicolonsInside (token.kind.nest depth) ts

theorem semicolonsInside_append {depth : Nat} {ts us : List Token} :
    SemicolonsInside depth (ts ++ us) ↔
      SemicolonsInside depth ts ∧ SemicolonsInside (braceDepth depth ts) us := by
  induction ts generalizing depth with
  | nil => simp [SemicolonsInside]
  | cons token ts ih =>
    simp only [List.cons_append, SemicolonsInside, ih, braceDepth_cons, and_assoc]

/-- The tokens open and close their own blocks, and have semicolons in these alone. -/
structure Enclosed (ts : List Token) : Prop where
  braceDepth_eq : ∀ depth, braceDepth depth ts = depth
  semicolonsInside : ∀ depth, SemicolonsInside depth ts

namespace Enclosed

variable {ts us : List Token} {token : Token}

theorem nil : Enclosed [] :=
  ⟨fun _ => rfl, fun _ => trivial⟩

theorem append (h : Enclosed ts) (h' : Enclosed us) : Enclosed (ts ++ us) where
  braceDepth_eq depth := by rw [braceDepth_append, h.braceDepth_eq, h'.braceDepth_eq]
  semicolonsInside depth := by
    rw [semicolonsInside_append, h.braceDepth_eq]
    exact ⟨h.semicolonsInside depth, h'.semicolonsInside depth⟩

theorem right (h : Enclosed ts) (h' : Enclosed (ts ++ us)) : Enclosed us where
  braceDepth_eq depth := by
    have hdepth := h'.braceDepth_eq depth
    rwa [braceDepth_append, h.braceDepth_eq] at hdepth
  semicolonsInside depth := by
    have hinside := (semicolonsInside_append.mp (h'.semicolonsInside depth)).2
    rwa [h.braceDepth_eq] at hinside

theorem cons (htoken : token.kind.isPlain = true) (h : Enclosed ts) : Enclosed (token :: ts) where
  braceDepth_eq depth := by
    rw [braceDepth_cons, TokenKind.nest_of_isPlain htoken, h.braceDepth_eq]
  semicolonsInside depth := by
    rw [SemicolonsInside, TokenKind.nest_of_isPlain htoken]
    refine ⟨fun hkind => ?_, h.semicolonsInside depth⟩
    rw [hkind] at htoken
    exact absurd htoken (by decide)

theorem singleton (htoken : token.kind.isPlain = true) : Enclosed [token] :=
  .cons htoken .nil

theorem block {opening closing : Token} (hopening : opening.kind = .openCurly)
    (hclosing : closing.kind = .closeCurly) (hdepth : ∀ depth, braceDepth depth ts = depth)
    (hinside : ∀ depth, SemicolonsInside (depth + 1) ts) :
    Enclosed (opening :: (ts ++ [closing])) where
  braceDepth_eq depth := by
    simp [hopening, hclosing, hdepth, TokenKind.nest]
  semicolonsInside depth := by
    refine ⟨fun hkind => absurd (hopening.symm.trans hkind) (by decide), ?_⟩
    rw [hopening, semicolonsInside_append]
    refine ⟨hinside depth, fun hkind => ?_, trivial⟩
    exact absurd (hclosing.symm.trans hkind) (by decide)

/-- The last token neither opens a block nor ends a statement. -/
theorem kind_last {init : List Token} (h : Enclosed (init ++ [token])) :
    token.kind ≠ .openCurly ∧ token.kind ≠ .semicolon := by
  have hdepth := h.braceDepth_eq 0
  rw [braceDepth_append] at hdepth
  constructor
  · intro hkind
    simp [hkind, TokenKind.nest] at hdepth
  · intro hkind
    have hinside := (semicolonsInside_append.mp (h.semicolonsInside 0)).2
    have hpos := hinside.1 hkind
    simp only [braceDepth_cons, hkind, TokenKind.nest, braceDepth_nil] at hdepth
    exact absurd hpos (by rw [hdepth]; exact Nat.lt_irrefl 0)

end Enclosed

/-! ## Derivations -/

/-- What the phrase opens and closes, and where its semicolons stand. -/
def Phrase.Encloses : Phrase → List Token → Prop
  | .expr _ _, ts | .arguments _, ts | .block _, ts => Enclosed ts
  | .statement _ _, ts => ∃ front us, ts = front ++ us ∧ Enclosed front ∧
      (us = [] ∨ ∃ semicolon : Token, semicolon.kind = .semicolon ∧ us = [semicolon])
  | .statements _ _, ts =>
    (∀ depth, braceDepth depth ts = depth) ∧ ∀ depth, SemicolonsInside (depth + 1) ts

theorem Terminator.cases_eq {optional : Bool} {us : List Token} {next : TokenKind}
    (h : Terminator optional us next) :
    us = [] ∨ ∃ semicolon : Token, semicolon.kind = .semicolon ∧ us = [semicolon] := by
  cases h with
  | semicolon hkind => exact Or.inr ⟨_, hkind, rfl⟩
  | beforeBracket | beforeEnd | afterBlock => exact Or.inl rfl

theorem Level.isPlain_of_mem {level : Level} {kind : TokenKind} (h : kind ∈ level.operators) :
    kind.isPlain = true := by
  cases level <;> simp only [operators, List.mem_cons, List.not_mem_nil, or_false] at h <;>
    rcases h with rfl | rfl <;> rfl

theorem Names.enclosed {ts : List Token} {names : List Identifier} (h : Names ts names) :
    Enclosed ts := by
  induction h with
  | last hname => exact .singleton (by rw [hname]; rfl)
  | cons hname hcomma _ ih => exact .cons (by rw [hname]; rfl) (.cons (by rw [hcomma]; rfl) ih)

theorem Parameters.enclosed {ts : List Token} {names : List Identifier} (h : Parameters ts names) :
    Enclosed ts := by
  rcases h with ⟨rfl, -⟩ | hnames
  · exact .nil
  · exact hnames.enclosed

/-- The tokens of a statement close the blocks that they open, and its semicolons stand inside
another block. -/
theorem Phrase.Encloses.of_statement {next : TokenKind} {tree : Stmt} {ts : List Token}
    (h : (Phrase.statement next tree).Encloses ts) :
    (∀ depth, braceDepth depth ts = depth) ∧ ∀ depth, SemicolonsInside (depth + 1) ts := by
  obtain ⟨front, us, rfl, hfront, rfl | ⟨semicolon, hkind, rfl⟩⟩ := h
  · rw [List.append_nil]
    exact ⟨hfront.braceDepth_eq, fun depth => hfront.semicolonsInside (depth + 1)⟩
  · constructor
    · intro depth
      simp [hfront.braceDepth_eq, hkind, TokenKind.nest]
    · intro depth
      rw [semicolonsInside_append, hfront.braceDepth_eq]
      exact ⟨hfront.semicolonsInside _, fun _ => Nat.zero_lt_succ depth, trivial⟩

/-- **A phrase closes the blocks that it opens, and its semicolons are inside of them.** -/
theorem Derives.encloses {phrase : Phrase} {ts : List Token} (h : Derives phrase ts) :
    phrase.Encloses ts := by
  induction h with
  | infixOp _ hkind _ _ ihleft ihright =>
    exact Enclosed.append ihleft (.cons (Level.isPlain_of_mem hkind) ihright)
  | tighter _ _ ih | lastArgument _ ih => exact ih
  | prefixOp hkind _ ih => exact Enclosed.cons (by rcases hkind with h | h <;> rw [h] <;> rfl) ih
  | call _ hopening _ hclosing ihcallee iharguments =>
    have hend : Enclosed _ := .singleton (by rw [hclosing]; rfl)
    exact Enclosed.append ihcallee (.cons (by rw [hopening]; rfl) (iharguments.append hend))
  | callNothing _ hopening hclosing ih =>
    have hend : Enclosed _ := .singleton (by rw [hclosing]; rfl)
    exact Enclosed.append ih (.cons (by rw [hopening]; rfl) hend)
  | identifier hname => exact Enclosed.singleton (by rw [hname]; rfl)
  | integer hnumber => exact Enclosed.singleton (by rw [hnumber]; rfl)
  | trueWord hword | falseWord hword => exact Enclosed.singleton (by rw [hword]; rfl)
  | group hopening _ hclosing ih =>
    have hend : Enclosed _ := .singleton (by rw [hclosing]; rfl)
    exact Enclosed.cons (by rw [hopening]; rfl) (ih.append hend)
  | ifOnly hword hopening _ hclosing _ ihcondition ihconsequence =>
    have hblock := Enclosed.cons (by rw [hclosing]; rfl) ihconsequence
    exact Enclosed.cons (by rw [hword]; rfl)
      (.cons (by rw [hopening]; rfl) (ihcondition.append hblock))
  | ifElse hword hopening _ hclosing _ hotherwise _ ihcondition ihconsequence ihalternative =>
    have helse := Enclosed.cons (by rw [hotherwise]; rfl) ihalternative
    have hblock := Enclosed.cons (by rw [hclosing]; rfl) (ihconsequence.append helse)
    exact Enclosed.cons (by rw [hword]; rfl)
      (.cons (by rw [hopening]; rfl) (ihcondition.append hblock))
  | function hword hopening hparameters hclosing _ ih =>
    have hblock := Enclosed.cons (by rw [hclosing]; rfl) ih
    exact Enclosed.cons (by rw [hword]; rfl)
      (.cons (by rw [hopening]; rfl) (hparameters.enclosed.append hblock))
  | consArgument _ hcomma _ ih ihothers =>
    exact Enclosed.append ih (.cons (by rw [hcomma]; rfl) ihothers)
  | block hopening _ hclosing ih => exact Enclosed.block hopening hclosing ih.1 ih.2
  | letBinding hword hname hassign _ hend ih =>
    have hvalue := Enclosed.cons (by rw [hassign]; rfl) ih
    exact ⟨_ :: _ :: _ :: _, _, rfl, .cons (by rw [hword]; rfl) (.cons (by rw [hname]; rfl) hvalue),
      hend.cases_eq⟩
  | returnNothing hword hend =>
    exact ⟨[_], _, rfl, .singleton (by rw [hword]; rfl), hend.cases_eq⟩
  | returnValue hword _ hend ih =>
    exact ⟨_ :: _, _, rfl, .cons (by rw [hword]; rfl) ih, hend.cases_eq⟩
  | expression _ hend ih => exact ⟨_ :: _, _, rfl, ih, hend.cases_eq⟩
  | blockOnly _ _ ih => exact ⟨_, [], (List.append_nil _).symm, ih, Or.inl rfl⟩
  | blockSemicolon _ hsemicolon ih => exact ⟨_, _, rfl, ih, Or.inr ⟨_, hsemicolon, rfl⟩⟩
  | nil => exact ⟨fun _ => rfl, fun _ => trivial⟩
  | cons _ _ ih ihothers =>
    obtain ⟨hdepth, hinside⟩ := ih.of_statement
    constructor
    · intro depth
      rw [braceDepth_append, hdepth, ihothers.1]
    · intro depth
      rw [semicolonsInside_append, hdepth]
      exact ⟨hinside depth, ihothers.2 depth⟩

/-- **A semicolon outside of all blocks ends the statement.** -/
theorem Derives.eq_nil_of_semicolon {next : TokenKind} {tree : Stmt} {ts us : List Token}
    {semicolon : Token} (h : Derives (.statement next tree) (ts ++ semicolon :: us))
    (hkind : semicolon.kind = .semicolon) (hdepth : braceDepth 0 ts = 0) : us = [] := by
  obtain ⟨front, last, hsplit, hfront, hlast⟩ := h.encloses
  have hlength : last.length ≤ 1 := by
    rcases hlast with rfl | ⟨_, -, rfl⟩
    · exact Nat.zero_le 1
    · exact Nat.le_refl 1
  rcases List.append_eq_append_iff.mp hsplit with ⟨vs, rfl, hvs⟩ | ⟨vs, rfl, rfl⟩
  · cases vs with
    | nil =>
      rw [List.nil_append] at hvs
      rw [← hvs] at hlength
      exact List.length_eq_zero_iff.mp (Nat.le_zero.mp (Nat.le_of_succ_le_succ hlength))
    | cons token vs =>
      -- it would stand in front of the end, where it has to be inside a block
      obtain ⟨rfl, -⟩ := List.cons.inj hvs
      have hinside := (semicolonsInside_append.mp (hfront.semicolonsInside 0)).2.1 hkind
      exact absurd hinside (by rw [hdepth]; exact Nat.lt_irrefl 0)
  · rw [List.length_append, List.length_cons] at hlength
    exact List.length_eq_zero_iff.mp (by omega)

end MonkeySyntax
