import MonkeySyntax.Parser.Recovery
import MonkeySyntax.Proofs.Grammar.Braces
import MonkeySyntax.Proofs.Parser.Unbounded

/-!
# MonkeySyntax — the end of a broken statement

What is skipped of a broken statement is told by the places of its brackets and semicolons.

* **`isStop depth ts j`** — the broken statement can end at the token `j` of `ts`.
* **`SkipsFrom depth ts k rest`** — `rest` is what is left where one skips to the first such token
  from the token `k` on. There is exactly one such rest (`SkipsFrom.unique`), and
  `skipStatement` leaves it (`skipsFrom_iff`).
* **`skipStatement_append`** — it does not go past a semicolon outside of all blocks.
* **`skipStatement_succ_eq_iff`** — inside of one block more it skips more, unless it comes to the
  end in both cases; so it matters whether a bracket is counted (`skipStatement_cons_eq_iff`).
-/

namespace MonkeySyntax

open MonkeySyntax.Parser

/-! ## Where a broken statement can end -/

/-- A broken statement can end at the token `j` of `ts`, before which `depth` blocks are open: at
the end of the input, at a semicolon outside of all blocks, or at the bracket that closes the last
open block. -/
def isStop (depth : Nat) (ts : List Token) (j : Nat) : Bool :=
  match firstKind (ts.drop j) .eof with
  | .eof => true
  | .semicolon => braceDepth depth (ts.take j) = 0
  | .closeCurly => braceDepth depth (ts.take j) = 1
  | _ => false

/-- The token `j`, or the semicolon behind it if the token `j` closes a block. -/
def pastBracket (ts : List Token) (j : Nat) : Nat :=
  if firstKind (ts.drop j) .eof = .closeCurly ∧ firstKind (ts.drop (j + 1)) .eof = .semicolon then
    j + 1
  else
    j

/-- From the token `k` on, the first token at which a broken statement can end is that at which
`rest` begins, or the one before a semicolon there. -/
def SkipsFrom (depth : Nat) (ts : List Token) (k : Nat) (rest : List Token) : Prop :=
  ∃ j, k ≤ j ∧ isStop depth ts j = true ∧ (∀ i, k ≤ i → i < j → isStop depth ts i = false) ∧
    rest = ts.drop (pastBracket ts j)

theorem pastBracket_cons (token : Token) (ts : List Token) (j : Nat) :
    pastBracket (token :: ts) (j + 1) = pastBracket ts j + 1 := by
  unfold pastBracket
  rw [List.drop_succ_cons, List.drop_succ_cons]
  split <;> rfl

/-- Tokens in front move the places at which a broken statement can end. -/
theorem isStop_drop (depth : Nat) (ts : List Token) (k j : Nat) :
    isStop (braceDepth depth (ts.take k)) (ts.drop k) j = isStop depth ts (k + j) := by
  unfold isStop
  rw [List.drop_drop, List.take_add, braceDepth_append]

theorem pastBracket_drop (ts : List Token) (k j : Nat) :
    k + pastBracket (ts.drop k) j = pastBracket ts (k + j) := by
  unfold pastBracket
  rw [List.drop_drop, List.drop_drop, Nat.add_assoc]
  split <;> rfl

namespace SkipsFrom

variable {depth k : Nat} {ts rest other : List Token} {token : Token}

theorem unique (h : SkipsFrom depth ts k rest) (h' : SkipsFrom depth ts k other) :
    rest = other := by
  obtain ⟨j, hk, hstop, hleast, rfl⟩ := h
  obtain ⟨i, hk', hstop', hleast', rfl⟩ := h'
  rcases Nat.lt_trichotomy i j with hlt | rfl | hlt
  · exact absurd hstop' (by rw [hleast i hk' hlt]; exact Bool.false_ne_true)
  · rfl
  · exact absurd hstop (by rw [hleast' j hk hlt]; exact Bool.false_ne_true)

/-- Where the statement can end at the first token, nothing is skipped in front of it. -/
theorem of_isStop (hstop : isStop depth ts 0 = true) :
    SkipsFrom depth ts 0 (ts.drop (pastBracket ts 0)) :=
  ⟨0, Nat.le_refl 0, hstop, fun _ _ hi => absurd hi (Nat.not_lt_zero _), rfl⟩

theorem cons (hstop : isStop depth (token :: ts) 0 = false)
    (h : SkipsFrom (token.kind.nest depth) ts 0 rest) : SkipsFrom depth (token :: ts) 0 rest := by
  obtain ⟨j, -, hj, hleast, rfl⟩ := h
  refine ⟨j + 1, Nat.zero_le _, hj, ?_, ?_⟩
  · rintro (_ | i) - hi
    · exact hstop
    · exact hleast i (Nat.zero_le i) (Nat.lt_of_succ_lt_succ hi)
  · rw [pastBracket_cons, List.drop_succ_cons]

theorem of_drop (h : SkipsFrom (braceDepth depth (ts.take k)) (ts.drop k) 0 rest) :
    SkipsFrom depth ts k rest := by
  obtain ⟨j, -, hj, hleast, rfl⟩ := h
  rw [isStop_drop] at hj
  refine ⟨k + j, Nat.le_add_right k j, hj, ?_, ?_⟩
  · intro i hki hij
    obtain ⟨m, rfl⟩ := Nat.exists_eq_add_of_le hki
    rw [← isStop_drop]
    exact hleast m (Nat.zero_le m) (Nat.lt_of_add_lt_add_left hij)
  · rw [List.drop_drop, pastBracket_drop]

end SkipsFrom

/-! ## What is skipped -/

theorem skipStatement_of_isPlain {depth : Nat} {token : Token} {rest : List Token}
    (hplain : token.kind.isPlain = true) (hend : token.kind ≠ .eof) :
    skipStatement depth (token :: rest) = skipStatement depth rest := by
  rw [skipStatement]
  generalize token.kind = kind at hplain hend
  cases kind <;> first | rfl | exact absurd rfl hend | exact absurd hplain (by decide)

/-- What is left of a broken statement begins with its end. -/
theorem kind_head_skipStatement (depth : Nat) (ts : List Token) :
    ∀ token ∈ (skipStatement depth ts).head?,
      token.kind ∈ [TokenKind.eof, .semicolon, .closeCurly] := by
  fun_induction skipStatement depth ts with
  | case1 => simp
  | case2 depth token rest hkind | case3 token rest hkind | case7 token rest hkind =>
    simp [hkind]
  | case6 token rest hkind hsemicolon =>
    intro first hfirst
    rw [Option.mem_def.mp hfirst] at hsemicolon
    obtain hsemicolon : first.kind = .semicolon := Option.some.inj hsemicolon
    simp [hsemicolon]
  | case4 _ _ _ _ _ ih | case5 _ _ _ _ ih | case8 _ _ _ _ _ ih => exact ih
  | case9 _ _ _ _ _ _ _ ih => exact ih

theorem head_semicolon_iff {ts : List Token} :
    ts.head?.map Token.kind = some .semicolon ↔ firstKind ts .eof = .semicolon := by
  cases ts <;> simp

/-- **What is skipped of a broken statement** goes up to the first token at which it can end. -/
theorem skipsFrom_zero (depth : Nat) (ts : List Token) :
    SkipsFrom depth ts 0 (skipStatement depth ts) := by
  -- where the first token is an end, it is the first one
  have hhere : ∀ {depth : Nat} {ts rest : List Token}, isStop depth ts 0 = true →
      rest = ts.drop (pastBracket ts 0) → SkipsFrom depth ts 0 rest := fun hstop hrest =>
    hrest ▸ .of_isStop hstop
  fun_induction skipStatement depth ts with
  | case1 => exact hhere rfl rfl
  | case2 depth token rest hkind | case3 token rest hkind =>
    exact hhere (by simp [isStop, hkind]) (by simp [pastBracket, hkind])
  | case4 depth token rest hkind hdepth ih =>
    refine .cons (by simp [isStop, hkind, hdepth]) ?_
    rwa [hkind]
  | case5 depth token rest hkind ih =>
    refine .cons (by simp [isStop, hkind]) ?_
    rwa [hkind]
  | case6 token rest hkind hsemicolon =>
    rw [head_semicolon_iff] at hsemicolon
    exact hhere (by simp [isStop, hkind]) (by simp [pastBracket, hkind, hsemicolon])
  | case7 token rest hkind hsemicolon =>
    rw [head_semicolon_iff] at hsemicolon
    exact hhere (by simp [isStop, hkind]) (by simp [pastBracket, hkind, hsemicolon])
  | case8 depth token rest hkind hdepth ih =>
    refine .cons (by simp [isStop, hkind, hdepth]) ?_
    rwa [hkind]
  | case9 depth token rest hend hsemicolon hopen hclose ih =>
    have hplain : token.kind.isPlain = true := by
      generalize token.kind = kind at hsemicolon hopen hclose
      cases kind <;> first | rfl | contradiction
    refine .cons ?_ (by rwa [TokenKind.nest_of_isPlain hplain])
    unfold isStop
    rw [List.drop_zero, firstKind_cons]
    split <;> first | rfl | contradiction

theorem skipsFrom_iff {depth k : Nat} {ts rest : List Token} :
    SkipsFrom depth ts k rest ↔
      rest = skipStatement (braceDepth depth (ts.take k)) (ts.drop k) := by
  have hskips := (skipsFrom_zero (braceDepth depth (ts.take k)) (ts.drop k)).of_drop
  constructor
  · exact fun h => h.unique hskips
  · rintro rfl
    exact hskips

/-- **Nothing is skipped past a semicolon outside of all blocks**, and what comes behind it makes no
difference. -/
theorem skipStatement_append {depth : Nat} {ts : List Token} {semicolon : Token}
    (us : List Token) (hkind : semicolon.kind = .semicolon) (hdepth : braceDepth depth ts = 0) :
    skipStatement depth (ts ++ semicolon :: us) = skipStatement depth (ts ++ [semicolon]) ++ us ∧
      skipStatement depth (ts ++ [semicolon]) ≠ [] := by
  induction ts generalizing depth with
  | nil =>
    obtain rfl : depth = 0 := hdepth
    simp [skipStatement, hkind]
  | cons token ts ih =>
    rw [braceDepth_cons] at hdepth
    -- what is looked at behind a closing bracket is in front of the semicolon, or it
    have hhead : (ts ++ semicolon :: us).head? = (ts ++ [semicolon]).head? := by
      cases ts <;> rfl
    rw [List.cons_append, List.cons_append, skipStatement, skipStatement, hhead]
    cases htoken : token.kind with
    | eof => exact ⟨by simp, List.cons_ne_nil _ _⟩
    | semicolon =>
      rw [htoken] at hdepth
      dsimp only
      split
      · exact ⟨by simp, List.cons_ne_nil _ _⟩
      · exact ih hdepth
    | closeCurly =>
      rw [htoken] at hdepth
      dsimp only
      split
      · split
        · exact ⟨by simp, by simp⟩
        · exact ⟨by simp, List.cons_ne_nil _ _⟩
      · exact ih hdepth
    | _ =>
      rw [htoken] at hdepth
      exact ih hdepth

/-! ## One block more -/

/-- A bracket that closes the last open block is the end, but not where one block more is open. -/
theorem skipStatement_one_lt {token : Token} (rest : List Token)
    (hkind : token.kind = .closeCurly) :
    (skipStatement 2 (token :: rest)).length < (skipStatement 1 (token :: rest)).length := by
  have hdeep : skipStatement 2 (token :: rest) = skipStatement 1 rest := by
    rw [skipStatement, hkind]
    rfl
  have hhere : skipStatement 1 (token :: rest) =
      if rest.head?.map Token.kind = some .semicolon then rest else token :: rest := by
    rw [skipStatement, hkind]
    rfl
  rw [hdeep, hhere]
  split
  · next hsemicolon =>
    -- nor is the semicolon behind it
    cases rest with
    | nil => cases hsemicolon
    | cons semicolon rest =>
      have hkind : semicolon.kind = .semicolon := Option.some.inj hsemicolon
      have hskip : skipStatement 1 (semicolon :: rest) = skipStatement 1 rest := by
        rw [skipStatement, hkind]
        rfl
      rw [hskip]
      exact Nat.lt_succ_of_le (skipStatement_suffix 1 rest).length_le
  · exact Nat.lt_succ_of_le (skipStatement_suffix 1 rest).length_le

/-- Inside of one block more, more is skipped, unless both come to the end. -/
theorem skipStatement_succ {depth : Nat} {ts : List Token} (hpos : 0 < depth)
    (hend : ∀ token ∈ ts, token.kind ≠ .eof) :
    (skipStatement (depth + 1) ts = [] ∧ skipStatement depth ts = []) ∨
      (skipStatement (depth + 1) ts).length < (skipStatement depth ts).length := by
  induction ts generalizing depth with
  | nil => exact Or.inl ⟨rfl, rfl⟩
  | cons token ts ih =>
    obtain ⟨htoken, hts⟩ := List.forall_mem_cons.mp hend
    cases hkind : token.kind with
    | eof => exact absurd hkind htoken
    | semicolon =>
      simp only [skipStatement, hkind, Nat.succ_ne_zero, Nat.pos_iff_ne_zero.mp hpos, if_false]
      exact ih hpos hts
    | openCurly =>
      simp only [skipStatement, hkind]
      exact ih (Nat.succ_pos depth) hts
    | closeCurly =>
      by_cases hone : depth = 1
      · -- the bracket is the end in the outer count, and is skipped in the other
        subst hone
        exact Or.inr (skipStatement_one_lt _ hkind)
      · obtain ⟨outer, rfl⟩ : ∃ outer, depth = outer + 1 :=
          Nat.exists_eq_succ_of_ne_zero (Nat.pos_iff_ne_zero.mp hpos)
        have houter : 0 < outer := Nat.pos_of_ne_zero fun hzero => hone (congrArg (· + 1) hzero)
        simp only [skipStatement, hkind, hone, Nat.add_sub_cancel, if_false]
        rw [if_neg (by omega)]
        exact ih houter hts
    | _ =>
      simp only [skipStatement, hkind]
      exact ih hpos hts

theorem skipStatement_succ_eq_iff {depth : Nat} {ts : List Token} (hpos : 0 < depth)
    (hend : ∀ token ∈ ts, token.kind ≠ .eof) :
    skipStatement depth ts = skipStatement (depth + 1) ts ↔ skipStatement depth ts = [] := by
  rcases skipStatement_succ hpos hend with ⟨hdeep, hnil⟩ | hlt
  · rw [hdeep, hnil]
  · constructor
    · intro heq
      exact absurd (congrArg List.length heq) (Nat.ne_of_gt hlt)
    · intro hnil
      rw [hnil] at hlt
      exact absurd hlt (Nat.not_lt_zero _)

/-- A token that neither opens a block nor ends a statement may be left out in front, unless it
closes a block. A bracket that does makes a difference, unless more than one block is open and the
input ends before they are closed. -/
theorem skipStatement_cons_eq_iff {depth : Nat} {token : Token} {rest : List Token}
    (hkind : token.kind ≠ .openCurly ∧ token.kind ≠ .semicolon)
    (hend : ∀ other ∈ token :: rest, other.kind ≠ .eof) :
    skipStatement depth (token :: rest) = skipStatement depth rest ↔
      ¬ (token.kind = .closeCurly ∧ 0 < depth) ∨
        1 < depth ∧ skipStatement depth (token :: rest) = [] := by
  obtain ⟨htoken, hrest⟩ := List.forall_mem_cons.mp hend
  by_cases hclose : token.kind = .closeCurly
  · match depth with
    | 0 =>
      have hskip : skipStatement 0 (token :: rest) = skipStatement 0 rest := by
        rw [skipStatement, hclose]
        rfl
      simp [hskip]
    | 1 =>
      -- the bracket is an end, and what is left there is longer than what is left behind it
      have hlt := skipStatement_one_lt rest hclose
      have hdeep : skipStatement 2 (token :: rest) = skipStatement 1 rest := by
        rw [skipStatement, hclose]
        rfl
      rw [hdeep] at hlt
      have hne : skipStatement 1 (token :: rest) ≠ skipStatement 1 rest := fun heq =>
        absurd (congrArg List.length heq) (Nat.ne_of_gt hlt)
      simp [hne, hclose]
    | depth + 2 =>
      have hskip : skipStatement (depth + 2) (token :: rest) = skipStatement (depth + 1) rest := by
        rw [skipStatement, hclose]
        exact if_neg (by omega)
      rw [hskip, skipStatement_succ_eq_iff (Nat.succ_pos depth) hrest]
      simp [hclose]
  · have hplain : token.kind.isPlain = true := by
      obtain ⟨hopen, hsemicolon⟩ := hkind
      generalize token.kind = kind at hopen hsemicolon hclose
      cases kind <;> first | rfl | contradiction
    simp [skipStatement_of_isPlain hplain htoken, hclose]

end MonkeySyntax
