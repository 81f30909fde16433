import MonkeySyntax.Proofs.Parser.Window

/-!
# MonkeySyntax — the count of open blocks

A block is counted when it is entered and counted off when it is left, and a failure leaves the
count as it is. So after a success the count is what it was before, and after a failure it is higher
by the blocks that were entered and not left: those are the ones around the place of the failure.

To say this, the blocks are watched while a rule runs.

* **`Watched`** — a reader with a list of the blocks entered and left so far. Watching changes
  nothing (`inStep_watched`).
* **`Watched.unclosed`** — the blocks of such a list that were entered and not left.
* **`Watched.Leads`** — what happened to the blocks between two places, and **`Rule.Balanced`**, what
  happens to them under a rule. Every rule is balanced (`Grammar.RuleName.balanced`).
* **`openBlocks_balanced`** — what this says of the count of a window.
-/

namespace MonkeySyntax

/-! ## Watching blocks -/

inductive BlockStep where
  | enter
  | leave
  deriving DecidableEq, Repr

/-- A reader whose blocks are watched. -/
structure Watched (σ : Type) where
  reader : σ
  /-- The blocks that were entered and left, the last one first, each with the reader before it. -/
  steps : List (BlockStep × σ)

namespace Watched

variable {σ : Type}

instance [Reader σ] : Reader (Watched σ) where
  current watched := Reader.current watched.reader
  peek watched := Reader.peek watched.reader
  advance watched := ⟨Reader.advance watched.reader, watched.steps⟩
  enterBlock watched :=
    ⟨Reader.enterBlock watched.reader, (.enter, watched.reader) :: watched.steps⟩
  leaveBlock watched :=
    ⟨Reader.leaveBlock watched.reader, (.leave, watched.reader) :: watched.steps⟩
  remaining watched := Reader.remaining watched.reader

/-- The blocks that were entered and not left, the innermost first, each with the reader at it. -/
def unclosed : List (BlockStep × σ) → List σ
  | [] => []
  | (.enter, reader) :: steps => reader :: unclosed steps
  | (.leave, _) :: steps => (unclosed steps).tail

/-- **Watching changes nothing.** -/
theorem inStep_watched [Reader σ] :
    Reader.InStep fun (watched : Watched σ) reader => watched.reader = reader where
  current h := congrArg Reader.current h
  peek h := congrArg Reader.peek h
  advance h := congrArg Reader.advance h
  enterBlock h := congrArg Reader.enterBlock h
  leaveBlock h := congrArg Reader.leaveBlock h

end Watched

/-- The blocks open before a reader are counted by `count`. -/
structure Reader.Counts {σ : Type} [Reader σ] (count : σ → Nat) : Prop where
  advance (state : σ) : count (Reader.advance state) = count state
  enterBlock (state : σ) : count (Reader.enterBlock state) = count state + 1
  leaveBlock (state : σ) : count (Reader.leaveBlock state) = count state - 1

theorem Window.counts_openBlocks : Reader.Counts Window.openBlocks where
  advance window := by
    show window.advance.openBlocks = window.openBlocks
    rw [Window.advance]
  enterBlock _ := rfl
  leaveBlock _ := rfl

/-! ## From one place to another -/

namespace Watched

variable {σ : Type} {count : σ → Nat} {before mid later : Watched σ} {opened inner : List σ}

/-- On the way from `before` to `later` the blocks `opened` were entered and not left, the innermost
first, and no block was left that had been entered before. -/
structure Leads (count : σ → Nat) (before : Watched σ) (opened : List σ) (later : Watched σ) :
    Prop where
  steps : ∃ steps, later.steps = steps ++ before.steps ∧
    ∀ reader, (.leave, reader) ∈ steps → count before.reader < count reader
  unclosed : unclosed later.steps = opened ++ Watched.unclosed before.steps
  count : count later.reader = count before.reader + opened.length

namespace Leads

theorem refl (before : Watched σ) : before.Leads count [] before where
  steps := ⟨[], rfl, fun _ h => absurd h List.not_mem_nil⟩
  unclosed := rfl
  count := rfl

theorem trans (h : before.Leads count opened mid) (h' : mid.Leads count inner later) :
    before.Leads count (inner ++ opened) later where
  steps := by
    obtain ⟨steps, heq, hleave⟩ := h.steps
    obtain ⟨steps', heq', hleave'⟩ := h'.steps
    refine ⟨steps' ++ steps, by rw [heq', heq, List.append_assoc], fun reader hreader => ?_⟩
    rcases List.mem_append.mp hreader with hreader | hreader
    · -- the count has not sunk up to the middle, and it is higher there before a block is left
      have hmid := h.count
      have hlt := hleave' reader hreader
      omega
    · exact hleave reader hreader
  unclosed := by rw [h'.unclosed, h.unclosed, List.append_assoc]
  count := by
    rw [h'.count, h.count, List.length_append]
    omega

variable [Reader σ] (hcount : Reader.Counts count)
include hcount

theorem advance (before : Watched σ) : before.Leads count [] (Reader.advance before) where
  steps := ⟨[], rfl, fun _ h => absurd h List.not_mem_nil⟩
  unclosed := rfl
  count := hcount.advance before.reader

theorem enterBlock (before : Watched σ) :
    before.Leads count [before.reader] (Reader.enterBlock before) where
  steps := ⟨[(.enter, before.reader)], rfl, by simp⟩
  unclosed := rfl
  count := hcount.enterBlock before.reader

/-- A block is left that was entered on the way. -/
theorem leaveBlock {block : σ} (h : before.Leads count (block :: opened) later) :
    before.Leads count opened (Reader.leaveBlock later) where
  steps := by
    obtain ⟨steps, heq, hleave⟩ := h.steps
    have hopen : count before.reader < count later.reader := by
      have hlater := h.count
      rw [List.length_cons] at hlater
      omega
    refine ⟨(.leave, later.reader) :: steps, congrArg (_ :: ·) heq, fun reader hreader => ?_⟩
    rcases List.mem_cons.mp hreader with hlast | hearlier
    · cases hlast
      exact hopen
    · exact hleave reader hearlier
  unclosed := congrArg List.tail h.unclosed
  count := by
    have hlater := h.count
    rw [List.length_cons] at hlater
    show count (Reader.leaveBlock later.reader) = _
    rw [hcount.leaveBlock]
    omega

end Leads

/-- From `before` on a rule ends, with the blocks `opened` left open after a success, and with these
and others inside of them after a failure. -/
inductive Ends (count : σ → Nat) (before : Watched σ) (opened : List σ) {α : Type} :
    EStateM.Result Diagnostic (Watched σ) α → Prop where
  | ok (value : α) {later : Watched σ} (h : before.Leads count opened later) :
      Ends count before opened (.ok value later)
  | error (diagnostic : Diagnostic) {later : Watched σ} (inner : List σ)
      (h : before.Leads count (inner ++ opened) later) :
      Ends count before opened (.error diagnostic later)

/-- A rule that goes on from a place ends for what is before that place, too. -/
theorem Leads.ends {α : Type} {result : EStateM.Result Diagnostic (Watched σ) α}
    (h : before.Leads count opened mid) (hends : mid.Ends count [] result) :
    before.Ends count opened result := by
  cases hends with
  | ok value hlater => exact .ok value (h.trans hlater)
  | error diagnostic inner hlater =>
    have hall := h.trans hlater
    rw [List.append_nil] at hall
    exact .error diagnostic inner hall

end Watched

/-! ## Rules -/

namespace Rule

variable {σ α β : Type} {count : σ → Nat}

/-- A success leaves all blocks that were entered, a failure may leave some of them open. -/
def Balanced (count : σ → Nat) (rule : RuleOn (Watched σ) α) : Prop :=
  ∀ before : Watched σ, before.Ends count [] (rule before)

namespace Balanced

theorem pure (value : α) : Balanced count (pure value) :=
  fun before => .ok value (.refl before)

theorem current [Reader σ] : Balanced count current :=
  fun before => .ok _ (.refl before)

theorem peekKind [Reader σ] : Balanced count peekKind :=
  fun before => .ok _ (.refl before)

theorem failHere [Reader σ] (cause : SyntaxError) : Balanced (α := α) count (failHere cause) :=
  fun before => .error _ [] (.refl before)

theorem failNext [Reader σ] (kind : TokenKind) : Balanced (α := α) count (failNext kind) :=
  fun before => .error _ [] (.refl before)

theorem bind {rule : RuleOn (Watched σ) α} {next : α → RuleOn (Watched σ) β}
    (h : Balanced count rule) (hnext : ∀ value, Balanced count (next value)) :
    Balanced count (rule >>= next) := by
  intro before
  have hrule := h before
  rw [bind_apply]
  generalize rule before = result at hrule ⊢
  cases hrule with
  | @ok value mid hmid => exact hmid.ends (hnext value mid)
  | error diagnostic inner hlater => exact .error diagnostic inner hlater

variable [Reader σ] (hcount : Reader.Counts count)
include hcount

theorem advance : Balanced count advance :=
  fun before => .ok () (.advance hcount before)

/-- A block is entered before its statements and left behind them, unless they fail. -/
theorem blockOf {statements : RuleOn (Watched σ) (List Stmt)} (h : Balanced count statements) :
    Balanced count (Grammar.blockOf statements) := by
  intro before
  have henter : before.Leads count [before.reader] (Reader.advance (Reader.enterBlock before)) :=
    (Watched.Leads.enterBlock hcount before).trans (.advance hcount _)
  have hbody := henter.ends (h (Reader.advance (Reader.enterBlock before)))
  show before.Ends count []
    ((statements >>= fun trees => leaveBlock >>= fun _ =>
      Pure.pure (Block.mk (Reader.current before) trees)) (Reader.advance (Reader.enterBlock before)))
  rw [bind_apply]
  generalize statements (Reader.advance (Reader.enterBlock before)) = result at hbody ⊢
  cases hbody with
  | ok trees hmid => exact .ok _ (hmid.leaveBlock hcount)
  | error diagnostic inner hlater =>
    exact .error diagnostic (inner ++ [before.reader]) (by rwa [List.append_nil])

end Balanced

/-- **To be balanced** is kept where rules are put together. -/
theorem compositional_balanced [Reader σ] (hcount : Reader.Counts count) :
    Compositional fun _ _ rule (_ : RuleOn (Watched σ) _) => Balanced count rule where
  mono h _ := h
  pure := .pure
  bind := .bind
  current := .current
  peekKind := .peekKind
  failHere := .failHere
  failNext := .failNext
  advance h := .bind (.advance hcount) fun _ => h
  block := .blockOf hcount

end Rule

/-- **Every rule is balanced.** -/
theorem Grammar.RuleName.balanced {σ α : Type} [Reader σ] {count : σ → Nat}
    (hcount : Reader.Counts count) (name : RuleName α) (n : Nat) :
    Rule.Balanced count (name.rule (.upTo n)) :=
  have hC := Rule.compositional_balanced hcount
  name.related (related_upTo hC n) hC

/-! ## Windows -/

namespace Window

variable {α : Type} {window later : Window}

/-- A phrase is read alike on a window that is watched, and there it is balanced. -/
theorem exists_watched (name : Grammar.RuleName α) (n : Nat) (window : Window) :
    ∃ result : EStateM.Result Diagnostic (Watched Window) α,
      name.rule (.upTo n) (⟨window, []⟩ : Watched Window) = result ∧
      Rule.SameOutcome (fun watched window => watched.reader = window) result
        (name.rule (.upTo n) window) ∧
      Watched.Ends openBlocks ⟨window, []⟩ [] result :=
  have hR := Watched.inStep_watched
  ⟨_, rfl, name.inStep (Grammar.inStep_upTo hR n) hR ⟨window, []⟩ window rfl,
    name.balanced counts_openBlocks n ⟨window, []⟩⟩

theorem openBlocks_of_ok (name : Grammar.RuleName α) {n : Nat} {value : α}
    (h : name.rule (.upTo n) window = .ok value later) : later.openBlocks = window.openBlocks := by
  obtain ⟨result, -, hsame, hends⟩ := exists_watched name n window
  rw [h] at hsame
  cases hsame with
  | ok _ hlater =>
    cases hends with
    | ok _ hleads =>
      rw [← hlater]
      exact hleads.count

/-! ## Programs -/

/-- The windows at which the loop over a program begins a turn or ends, where the first one is a new
window on `lexer`. -/
inductive AtTurn (lexer : Lexer) : Window → Prop where
  | start : AtTurn lexer (ofLexer lexer)
  | next {window : Window} (h : AtTurn lexer window) (hend : window.atEnd = false) :
      AtTurn lexer (window.readStatement (.upTo (ofLexer lexer).remaining)).2

theorem openBlocks_advance (window : Window) : window.advance.openBlocks = window.openBlocks :=
  counts_openBlocks.advance window

theorem openBlocks_skipUpTo (n depth : Nat) (window : Window) :
    (window.skipUpTo n depth).openBlocks = window.openBlocks := by
  fun_induction skipUpTo n depth window <;>
    first
    | rfl
    | exact openBlocks_advance _
    | next ih => exact ih.trans (openBlocks_advance _)

/-- A statement that is read closes its blocks, and one that is not is skipped with them. -/
theorem openBlocks_readStatement (h : window.openBlocks = 0) (n : Nat) :
    (window.readStatement (.upTo n)).2.openBlocks = 0 := by
  unfold readStatement
  cases hrule : (Grammar.upTo n).statementRule window with
  | ok statement later =>
    show later.advance.openBlocks = 0
    rw [openBlocks_advance, openBlocks_of_ok .statement hrule, h]
  | error diagnostic later =>
    show (later.record diagnostic).skipBroken.advance.openBlocks = 0
    rw [openBlocks_advance, skipBroken, openBlocks_skipUpTo]

theorem AtTurn.openBlocks {lexer : Lexer} (h : AtTurn lexer window) : window.openBlocks = 0 := by
  induction h with
  | start => rw [ofLexer_eq]
  | next _ _ ih => exact openBlocks_readStatement ih _

/-- The loop goes from turn to turn. -/
theorem AtTurn.readStatements {lexer : Lexer} (h : AtTurn lexer window) (n : Nat) :
    AtTurn lexer (window.readStatements (.upTo (ofLexer lexer).remaining) n).2 := by
  induction n generalizing window with
  | zero => exact h
  | succ n ih =>
    rw [Window.readStatements]
    cases hend : window.atEnd with
    | true => exact h
    | false => exact ih (h.next hend)

end Window

end MonkeySyntax
