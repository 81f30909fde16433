import MonkeySyntax.Proofs.Lexer.Offsets
import MonkeySyntax.Proofs.Program.Transport

/-!
# MonkeySyntax — one program behind another

A semicolon outside of all blocks closes whatever stands in front of it. No rule looks behind the
semicolon that ends its statement, a statement does not fail behind one, and what is skipped of a
broken statement ends at one at the latest. So where a source ends with such a semicolon, the turns
on it stay what they are with another source behind it, and the turns on that one come after them.

* **`Derives.isRead_semicolon`** — a statement with its semicolon is read in front of any token.
* **`Parser.Extends us parser other`** — `other` has the tokens `us` behind those of `parser`, which
  end with a closing semicolon. `Extends.turn` is one turn, `Extends.turns` all turns.
* **`parse_append`** — two sources one behind the other.
-/

namespace MonkeySyntax

open Grammar MonkeySyntax.Parser

/-! ## Up to a semicolon -/

section Semicolon

variable {next : TokenKind} {tree : Stmt} {ts inner front vs rest : List Token} {semicolon : Token}
  {parser : Parser}

/-- The last token of a statement that ends with a semicolon does not belong to its value. -/
theorem Stmt.IsReadUpTo.to_semicolon {optional : Bool} (h : tree.IsReadUpTo optional front)
    (hinner : Enclosed inner) (hne : inner ≠ []) (hsuffix : inner <:+ front)
    (hend : Terminator optional vs next) (hsplit : ts ++ [semicolon] = front ++ vs)
    (hkind : semicolon.kind = .semicolon) (hfaces : parser.Faces (front ++ vs) rest) :
    unbounded.statementRule parser = .ok tree (parser.toLast (front ++ vs)) := by
  rcases hend.cases_eq with rfl | ⟨_, hlast, rfl⟩
  · rw [List.append_nil] at hsplit
    rw [← hsplit, List.suffix_concat_iff] at hsuffix
    obtain rfl | ⟨init, rfl, -⟩ := hsuffix
    · exact absurd rfl hne
    · exact absurd hkind hinner.kind_last.2
  · exact h hfaces (.semicolon hlast) nofun

/-- **A statement with its semicolon is read**, whatever comes behind it. -/
theorem Derives.isRead_semicolon (h : Derives (.statement next tree) (ts ++ [semicolon]))
    (hkind : semicolon.kind = .semicolon) (hfaces : parser.Faces (ts ++ [semicolon]) rest) :
    unbounded.statementRule parser = .ok tree (parser.toLast (ts ++ [semicolon])) := by
  generalize hsplit : ts ++ [semicolon] = us at h hfaces
  cases h with
  | letBinding hword hname hassign hvalue hend =>
    have hread := Phrase.IsRead.letBinding hword hname hassign hvalue.expr_ne_nil hvalue.isRead
    exact hread.to_semicolon hvalue.encloses hvalue.expr_ne_nil
      (List.suffix_append [_, _, _] _) hend hsplit hkind hfaces
  | returnNothing hword hend =>
    have hplain : Enclosed [_] := .singleton (by rw [hword]; rfl)
    exact (Phrase.IsRead.returnNothing hword).to_semicolon hplain (List.cons_ne_nil _ _)
      (List.suffix_refl _) hend hsplit hkind hfaces
  | returnValue hword hvalue hend =>
    have hread :=
      Phrase.IsRead.returnValue hword hvalue.expr_ne_nil (hvalue.begins .eof) hvalue.isRead
    exact hread.to_semicolon hvalue.encloses hvalue.expr_ne_nil (List.suffix_cons _ _) hend hsplit
      hkind hfaces
  | expression hvalue hend =>
    have hread := Phrase.IsRead.expression (hvalue.begins .eof) hvalue.isRead
    exact hread.to_semicolon hvalue.encloses hvalue.expr_ne_nil (List.suffix_refl _) hend hsplit
      hkind hfaces
  | blockOnly hbody =>
    rw [← hsplit] at hbody
    exact absurd hkind hbody.encloses.kind_last.2
  | blockSemicolon hbody hsemicolon =>
    exact Phrase.IsRead.blockSemicolon hbody.block_ne_nil (hbody.begins .eof) hbody.isRead
      hsemicolon hfaces

end Semicolon

/-! ## Tokens behind a closing semicolon -/

/-- The tokens, if there are any, end with a semicolon outside of all blocks. -/
def Closed (ts : List Token) : Prop :=
  ts = [] ∨ ∃ front semicolon, ts = front ++ [semicolon] ∧ semicolon.kind = .semicolon ∧
    braceDepth 0 front = 0

theorem Closed.of_suffix {ts us : List Token} (h : Closed ts) (hsuffix : us <:+ ts) :
    Closed us := by
  rcases h with rfl | ⟨front, semicolon, rfl, hkind, hdepth⟩
  · exact Or.inl (List.eq_nil_of_suffix_nil hsuffix)
  · rcases List.suffix_concat_iff.mp hsuffix with rfl | ⟨init, rfl, before, rfl⟩
    · exact Or.inl rfl
    · have hle := braceDepth_zero_le 0 before init
      rw [hdepth] at hle
      exact Or.inr ⟨init, semicolon, rfl, hkind, Nat.le_zero.mp hle⟩

namespace Parser

/-- `other` has the tokens of `parser`, which are closed, and `us` behind them. In neither of them a
block is open. -/
structure Extends (us : List Token) (parser other : Parser) : Prop where
  ahead : other.ahead = parser.ahead ++ us
  closed : Closed parser.ahead
  openBlocks : parser.openBlocks = 0
  openBlocks_other : other.openBlocks = 0
  lexical : ∀ token ∈ parser.ahead, token.Lexical

namespace Extends

variable {us : List Token} {parser other later mid : Parser} {tree : Stmt} {diagnostic : Diagnostic}

/-- They are alike as long as tokens of `parser` are left. -/
theorem like (h : Extends us parser other) {n : Nat} (hn : n < parser.ahead.length) :
    parser.Like (fun position => position) n other := by
  refine ⟨fun i hi => ?_, h.openBlocks_other.trans h.openBlocks.symm⟩
  have hlt : i < parser.ahead.length := Nat.lt_of_le_of_lt hi hn
  have hlt' : i < other.ahead.length := by
    rw [h.ahead, List.length_append]
    exact Nat.lt_add_right _ hlt
  rw [current_skip hlt, current_skip hlt']
  simp only [h.ahead, List.getElem_append_left hlt]
  rfl

theorem kind_ne_eof (h : Extends us parser other) :
    ∀ token ∈ parser.ahead, token.kind ≠ .eof :=
  fun token htoken => (h.lexical token htoken).kind_ne_eof

/-- Behind some of the tokens the same is true. -/
theorem of_suffix {last : Parser} (h : Extends us parser other)
    (hsuffix : later.ahead <:+ parser.ahead) (hahead : last.ahead = later.ahead ++ us)
    (hopen : later.openBlocks = 0) (hopen' : last.openBlocks = 0) : Extends us later last where
  ahead := hahead
  closed := h.closed.of_suffix hsuffix
  openBlocks := hopen
  openBlocks_other := hopen'
  lexical token htoken := h.lexical token (hsuffix.subset htoken)

/-! ## One turn -/

/-- A statement that is read is read with the tokens behind it as well. -/
theorem statementRule_ok {init rest : List Token} {last : Token} (h : Extends us parser other)
    (hsplit : parser.ahead = init ++ last :: rest)
    (hderives : Derives (.statement (firstKind rest .eof) tree) (init ++ [last]))
    (hrule : unbounded.statementRule parser = .ok tree { parser with ahead := last :: rest }) :
    unbounded.statementRule other = .ok tree (other.skip init.length) := by
  cases rest with
  | nil =>
    -- it ends with the semicolon
    rcases h.closed with hnil | ⟨front, semicolon, hahead, hkind, -⟩
    · rw [hnil] at hsplit
      exact absurd hsplit.symm (by simp)
    · obtain ⟨rfl, hlast⟩ := List.append_inj' (hsplit.symm.trans hahead) rfl
      obtain rfl := List.head_eq_of_cons_eq hlast
      have hfaces : other.Faces (init ++ [last]) us :=
        ⟨by rw [h.ahead, hahead], fun token htoken => h.lexical token (hahead ▸ htoken)⟩
      rw [hderives.isRead_semicolon hkind hfaces, toLast, List.length_append]
      rfl
  | cons token rest =>
    have hlt : init.length + 1 < parser.ahead.length := by
      rw [hsplit, List.length_append, List.length_cons, List.length_cons]
      omega
    have hread := statementRule_of_ok hsplit hrule (h.like hlt)
    rwa [Stmt.retoken_moved_id] at hread

/-- Where the blocks are closed behind the tokens `front`, they are closed there as well if they are
counted from the token on at which a failure was noticed. -/
theorem braceDepth_of_breaks {ts front : List Token} (hbreaks : parser.Breaks ts diagnostic later)
    (hts : ts <+: front) (hfront : front <+: parser.ahead)
    (hdepth : braceDepth parser.openBlocks front = 0) :
    ∃ n depth, n ≤ front.length ∧ later = parser.reach n depth ∧
      braceDepth depth (front.drop n) = 0 := by
  obtain ⟨behind, rfl⟩ := hts
  have hbehind : braceDepth (braceDepth parser.openBlocks ts) behind = 0 := by
    rwa [braceDepth_append] at hdepth
  rcases hbreaks.stops.place with ⟨rfl, -⟩ | ⟨j, hj, rfl, -, hkind, -⟩
  · refine ⟨_, _, by rw [List.length_append]; omega, rfl, ?_⟩
    rwa [List.drop_left]
  · -- one token is counted twice, which does not open a block
    have hlt : j < (ts ++ behind).length := by
      rw [List.length_append]
      omega
    refine ⟨j, _, Nat.le_of_lt hlt, rfl, ?_⟩
    rw [current_reach, current_skip (Nat.lt_of_lt_of_le hlt hfront.length_le),
      ← hfront.getElem hlt] at hkind
    rw [List.drop_eq_getElem_cons hlt, ← hj, List.drop_left, braceDepth_cons, ← Nat.le_zero,
      ← hbehind]
    exact braceDepth_mono (TokenKind.nest_le hkind _) behind

/-- A statement that fails does so in front of the closing semicolon, and fails with the tokens
behind it as well. What is skipped of it ends there. -/
theorem statementRule_error (h : Extends us parser other) (hne : parser.ahead ≠ [])
    (hus : ∀ token ∈ us, token.kind ≠ .eof)
    (hrule : unbounded.statementRule parser = .error diagnostic mid) :
    ∃ mid', unbounded.statementRule other = .error diagnostic mid' ∧
      (skipStatement mid'.openBlocks mid'.ahead).tail =
        (skipStatement mid.openBlocks mid.ahead).tail ++ us := by
  obtain ⟨ts, hbreaks, vs, -, tree, hcomplete⟩ := fails_statementRule hrule
  obtain ⟨front, semicolon, hahead, hkind, hdepth⟩ := h.closed.resolve_left hne
  have hfront := hbreaks.front
  rw [hahead, List.prefix_concat_iff] at hfront
  rcases hfront with rfl | hfront
  · -- what can be gone on with does not contain the closing semicolon
    have hderives := hcomplete Spare.semicolon .eof rfl
    rw [List.append_assoc, List.append_assoc] at hderives
    have hnil := hderives.eq_nil_of_semicolon hkind hdepth
    exact absurd hnil (List.append_ne_nil_of_right_ne_nil vs (List.cons_ne_nil _ []))
  · have hlt : ts.length < parser.ahead.length := by
      rw [hahead, List.length_append]
      exact Nat.lt_succ_of_le hfront.length_le
    have hother : ∀ token ∈ other.ahead, token.kind ≠ .eof := by
      rw [h.ahead]
      exact List.forall_mem_append.mpr ⟨h.kind_ne_eof, hus⟩
    obtain ⟨n, depth, hn, rfl, hbehind⟩ := braceDepth_of_breaks hbreaks hfront
      (hahead ▸ List.prefix_append front [semicolon]) (h.openBlocks.symm ▸ hdepth)
    obtain ⟨n', depth', heq, hfails, -⟩ :=
      statementRule_of_error hrule hbreaks h.kind_ne_eof hother (h.like hlt)
    have hn' : n < parser.remaining := by
      rw [remaining, hahead, List.length_append]
      exact Nat.lt_succ_of_le hn
    obtain ⟨rfl, rfl⟩ := eq_of_reach_eq heq.symm hn'
    refine ⟨_, hfails, ?_⟩
    obtain ⟨hskip, hsome⟩ := skipStatement_append us hkind hbehind
    rw [openBlocks_reach, openBlocks_reach, ahead_reach, ahead_reach, h.ahead, hahead,
      List.append_assoc, List.drop_append_of_le_length hn, List.drop_append_of_le_length hn,
      List.singleton_append, hskip, List.tail_append_of_ne_nil hsome]

/-- **A turn** gives the same with the tokens behind the closing semicolon. -/
theorem turn {outcome : Except Diagnostic Stmt} (h : Extends us parser other)
    (hne : parser.ahead ≠ []) (hus : ∀ token ∈ us, token.kind ≠ .eof)
    (hturn : parser.turn = (outcome, later)) :
    ∃ last, other.turn = (outcome, last) ∧ Extends us later last := by
  have hsuffix : later.ahead <:+ parser.ahead := by
    have hahead := parser.ahead_turn
    rw [hturn] at hahead
    exact hahead.trans (List.tail_suffix _)
  have hopen : later.openBlocks = 0 := by
    have hzero := openBlocks_turn h.openBlocks
    rwa [hturn] at hzero
  cases outcome with
  | ok tree =>
    obtain ⟨init, last, hsplit, -, hderives, hrule⟩ := turn_of_ok hturn
    refine ⟨_, turn_eq_of_ok (h.statementRule_ok hsplit hderives hrule), ?_⟩
    refine h.of_suffix hsuffix ?_ hopen h.openBlocks_other
    rw [advance_skip, ahead_skip, h.ahead, hsplit, List.append_assoc, List.drop_append,
      List.drop_eq_nil_of_le (Nat.le_succ _), Nat.add_sub_cancel_left]
    rfl
  | error diagnostic =>
    obtain ⟨mid, hrule, rfl⟩ := turn_of_error hturn
    obtain ⟨mid', hfails, hskip⟩ := h.statementRule_error hne hus hrule
    exact ⟨_, turn_eq_of_error hfails, h.of_suffix hsuffix hskip hopen rfl⟩

/-! ## All turns -/

/-- **The turns up to the closing semicolon**, behind which the turns on the other tokens come. -/
theorem turns {segments : List Segment} (h : Extends us parser other)
    (hus : ∀ token ∈ us, token.kind ≠ .eof) (hturns : parser.Turns segments) :
    ∃ last : Parser, last.ahead = us ∧ last.stop = other.stop ∧ last.openBlocks = 0 ∧
      ∀ more, last.Turns more → other.Turns (segments ++ more) := by
  induction hturns generalizing other with
  | @done parser hend =>
    -- no token is left, since none is the end of the input
    have hnil := (Turns.done hend).flatMap_tokens h.kind_ne_eof
    have hahead : other.ahead = us := by
      rw [h.ahead, ← hnil]
      rfl
    exact ⟨other, hahead, rfl, h.openBlocks_other, fun _ hmore => hmore⟩
  | @next parser later tokens outcome segments hend hturn hsplit _ ih =>
    have hne : parser.ahead ≠ [] := by
      intro hnil
      rw [atEnd, kind_current, hnil] at hend
      exact absurd hend (by decide)
    obtain ⟨last, hother, hlast⟩ := h.turn hne hus hturn
    obtain ⟨final, hahead, hstop, hopen, hmore⟩ := ih hlast
    have hstop' : last.stop = other.stop := by
      rw [← stop_turn other, hother]
    have hend' : other.atEnd = false := by
      have hlike := (h.like (List.length_pos_iff.mpr hne)).current
      rw [atEnd] at hend ⊢
      rwa [hlike]
    refine ⟨final, hahead, hstop.trans hstop', hopen, fun more hturns => ?_⟩
    refine .next hend' hother ?_ (hmore more hturns)
    rw [h.ahead, hsplit, List.append_assoc, hlast.ahead]

end Extends

end Parser

/-! ## Two sources -/

/-- The place of `position` in a text that stands on a line of its own behind `first`. -/
def placeBehind (first : String) (position : Position) : Position :=
  position + (first.utf8ByteSize + 1).toUInt32

/-- The place is the sum of the offsets where it fits a word. -/
theorem toNat_placeBehind {first : String} {position : Position}
    (h : position.toNat + (first.utf8ByteSize + 1) < UInt32.size) :
    (placeBehind first position).toNat = position.toNat + (first.utf8ByteSize + 1) := by
  have hlength := toNat_toUInt32 (Nat.lt_of_le_of_lt (Nat.le_add_left _ position.toNat) h)
  rw [placeBehind, UInt32.toNat_add, hlength]
  exact Nat.mod_eq_of_lt h

/-- The tokens of a line behind `first` are its own, at other places. -/
theorem ahead_ofSource_append (first second : String) :
    (ofSource (first ++ "\n" ++ second)).ahead = (ofSource first).ahead ++
      (ofSource second).ahead.map (.moved (placeBehind first)) := by
  have hbytes : utf8 (first ++ "\n" ++ second) = utf8 first ++ 0x0a :: utf8 second := by
    rw [utf8_append, utf8_append, List.append_assoc]
    rfl
  show scan 0 0 (utf8 (first ++ "\n" ++ second)) =
    scan 0 0 (utf8 first) ++ (scan 0 0 (utf8 second)).map (.moved (placeBehind first))
  have hmoved := map_moved_scan 0 0 (first.utf8ByteSize + 1) (utf8 second)
  rw [hbytes, scan_append rfl (Nat.zero_le _), length_utf8, Nat.add_assoc, ← hmoved]
  rfl

theorem stop_ofSource_append (first second : String) :
    (ofSource (first ++ "\n" ++ second)).stop = placeBehind first (ofSource second).stop := by
  have hlength : (utf8 (first ++ "\n" ++ second)).length =
      (utf8 second).length + (first.utf8ByteSize + 1) := by
    have hline : (utf8 "\n").length = 1 := rfl
    rw [utf8_append, utf8_append, List.length_append, List.length_append, hline, length_utf8 first,
      Nat.add_comm]
  show (utf8 (first ++ "\n" ++ second)).length.toUInt32 = _
  rw [hlength, toUInt32_add]
  rfl

/-- The tokens of a source whose last one is a semicolon outside of all blocks are closed. -/
theorem closed_ofSource {source : String} {semicolon : Token}
    (hlast : (tokenize source).dropLast.getLast? = some semicolon)
    (hkind : semicolon.kind = .semicolon) (hdepth : braceDepth 0 (tokenize source) = 0) :
    Closed (ofSource source).ahead := by
  rw [tokenize_eq, List.dropLast_concat, List.getLast?_eq_some_iff] at hlast
  obtain ⟨front, hfront⟩ := hlast
  refine Or.inr ⟨front, semicolon, hfront, hkind, ?_⟩
  have hend : (ofSource source).endToken.kind = .eof := rfl
  rw [tokenize_eq, hfront, braceDepth_append, braceDepth_append] at hdepth
  simpa [hkind, hend, TokenKind.nest] using hdepth

/-- **Two sources one behind the other.** Let the last token of the first one be a semicolon outside
of all blocks. Then each of them is read as it is read alone, whatever is wrong with either. -/
theorem parse_append {first second : String} {semicolon : Token}
    (hlast : (tokenize first).dropLast.getLast? = some semicolon)
    (hkind : semicolon.kind = .semicolon) (hdepth : braceDepth 0 (tokenize first) = 0) :
    (parse (first ++ "\n" ++ second)).1.statements = (parse first).1.statements ++
        (parse second).1.statements.map (Stmt.retoken (.moved (placeBehind first))) ∧
      (parse (first ++ "\n" ++ second)).2 = (parse first).2 ++
        (parse second).2.map (Diagnostic.moved (placeBehind first)) ∧
      ((first ++ "\n" ++ second).utf8ByteSize < UInt32.size → ∀ position : Position,
        position.toNat ≤ second.utf8ByteSize →
          (placeBehind first position).toNat = position.toNat + (first.utf8ByteSize + 1)) := by
  obtain ⟨segments, hfirst⟩ := exists_turns (ofSource first)
  obtain ⟨others, hsecond⟩ := exists_turns (ofSource second)
  have hends : ∀ token ∈ (ofSource second).ahead, token.kind ≠ .eof := AtTurn.start.kind_ne_eof
  have hextends : Extends ((ofSource second).ahead.map (.moved (placeBehind first)))
      (ofSource first) (ofSource (first ++ "\n" ++ second)) :=
    ⟨ahead_ofSource_append first second, closed_ofSource hlast hkind hdepth, rfl, rfl,
      (faces_ofSource first).lexical⟩
  obtain ⟨last, hahead, hstop, hopen, hmore⟩ :=
    hextends.turns (List.forall_mem_map.mpr hends) hfirst
  -- behind the semicolon stands the second source, at other places
  have hmoved : (ofSource second).Moved (placeBehind first) last :=
    ⟨hahead, hstop.trans (stop_ofSource_append first second), hopen⟩
  have hturns := hmore _ (hmoved.turns hends hsecond)
  rw [hturns.parse_eq, hfirst.parse_eq, hsecond.parse_eq]
  dsimp only
  refine ⟨?_, ?_, fun hsize position hposition => toNat_placeBehind ?_⟩
  · rw [List.filterMap_append, Segment.filterMap_statement_moved]
  · rw [List.filterMap_append, Segment.filterMap_diagnostic_moved]
  · have hline : ("\n" : String).utf8ByteSize = 1 := rfl
    rw [String.utf8ByteSize_append, String.utf8ByteSize_append, hline] at hsize
    omega

/-- A source in which a statement cannot be read, in front of one in which another cannot. -/
theorem parse_append_broken :
    ∃ semicolon, (tokenize "let 5; \x7b a; \x7d b;").dropLast.getLast? = some semicolon ∧
      semicolon.kind = .semicolon ∧ braceDepth 0 (tokenize "let 5; \x7b a; \x7d b;") = 0 ∧
      (parse "let 5; \x7b a; \x7d b;").2 ≠ [] ∧ (parse "c (; d").2 ≠ [] ∧
      (parse ("let 5; \x7b a; \x7d b;" ++ "\n" ++ "c (; d")).2 =
        (parse "let 5; \x7b a; \x7d b;").2 ++
          (parse "c (; d").2.map (Diagnostic.moved (placeBehind "let 5; \x7b a; \x7d b;")) := by
  have hlast : (tokenize "let 5; \x7b a; \x7d b;").dropLast.getLast? =
      some (.ofOffsets .semicolon ";" 15 16) := by
    rw [tokenize_eq]
    rfl
  have hdepth : braceDepth 0 (tokenize "let 5; \x7b a; \x7d b;") = 0 := by
    rw [tokenize_eq]
    rfl
  exact ⟨_, hlast, rfl, hdepth, by decide, by decide, (parse_append hlast rfl hdepth).2.1⟩

end MonkeySyntax
