import MonkeySyntax.Proofs.Lexer.Spelling
import MonkeySyntax.Proofs.Program.Account
import MonkeySyntax.Proofs.Program.Transport

/-!
# MonkeySyntax — where the first diagnostic is

The first diagnostic on a source is on the first token that cannot be there. What stands in front of
it is gone on with by some source without a mistake, so it could not have been noticed earlier; and
together with that token it has the same diagnostic whatever comes behind it.

* **`Parser.FailsFirst parser k diagnostic`** — the first statement that fails does so at the token
  `k`. There is one where the turns have a diagnostic, and the other way round.
* **`FailsFirst.of_like`** — the first failure is decided by the tokens up to the one it is on.
* **`FailsFirst.completable`** — the tokens in front of it can be gone on with to a program.
* **`parse_first_diagnostic`** — both for sources.
-/

namespace MonkeySyntax

open Grammar MonkeySyntax.Parser

namespace Parser

/-! ## The first failure -/

/-- The first statement that cannot be read fails with the diagnostic, which is on the token `k`. -/
inductive FailsFirst : Parser → Nat → Diagnostic → Prop where
  | here {parser mid : Parser} {diagnostic : Diagnostic} (hend : parser.atEnd = false)
      (hrule : unbounded.statementRule parser = .error diagnostic mid) :
      FailsFirst parser (parser.brokenAt diagnostic mid) diagnostic
  | later {parser later : Parser} {tree : Stmt} {tokens : List Token} {k : Nat}
      {diagnostic : Diagnostic} (hend : parser.atEnd = false)
      (hturn : parser.turn = (.ok tree, later)) (hsplit : parser.ahead = tokens ++ later.ahead)
      (hmore : FailsFirst later k diagnostic) :
      FailsFirst parser (tokens.length + k) diagnostic

variable {place : Position → Position} {parser other later : Parser} {segments : List Segment}
  {diagnostic : Diagnostic} {diagnostics : List Diagnostic} {k : Nat}

theorem kind_ne_eof_later {tokens : List Token} (hsplit : parser.ahead = tokens ++ later.ahead)
    (hends : ∀ token ∈ parser.ahead, token.kind ≠ .eof) :
    ∀ token ∈ later.ahead, token.kind ≠ .eof := fun token htoken =>
  hends token (hsplit ▸ List.mem_append_right tokens htoken)

/-- Turns with a diagnostic fail first with the first of them. -/
theorem Turns.exists_failsFirst (h : parser.Turns segments)
    (hfirst : segments.filterMap Segment.diagnostic? = diagnostic :: diagnostics) :
    ∃ k, parser.FailsFirst k diagnostic := by
  induction h with
  | done => cases hfirst
  | @next parser later tokens outcome segments hend hturn hsplit _ ih =>
    cases outcome with
    | ok tree =>
      obtain ⟨k, hmore⟩ := ih hfirst
      exact ⟨_, .later hend hturn hsplit hmore⟩
    | error found =>
      obtain ⟨rfl, -⟩ := List.cons.inj hfirst
      obtain ⟨mid, hrule, -⟩ := turn_of_error hturn
      exact ⟨_, .here hend hrule⟩

namespace FailsFirst

/-- Where a statement fails first, its diagnostic is the first one of the turns. -/
theorem filterMap_diagnostic (h : parser.FailsFirst k diagnostic) (hturns : parser.Turns segments) :
    ∃ diagnostics, segments.filterMap Segment.diagnostic? = diagnostic :: diagnostics := by
  induction h generalizing segments with
  | here hend hrule =>
    cases hturns with
    | done hdone => exact absurd (hend.symm.trans hdone) Bool.false_ne_true
    | next _ hturn =>
      rw [turn_eq_of_error hrule] at hturn
      cases hturn
      exact ⟨_, rfl⟩
  | later hend hread _ _ ih =>
    cases hturns with
    | done hdone => exact absurd (hend.symm.trans hdone) Bool.false_ne_true
    | next _ hturn _ hmore =>
      rw [hread] at hturn
      cases hturn
      obtain ⟨diagnostics, hfirst⟩ := ih hmore
      exact ⟨diagnostics, hfirst⟩

/-- There is one first failure. -/
theorem unique {found : Diagnostic} {i : Nat} (h : parser.FailsFirst k diagnostic)
    (h' : parser.FailsFirst i found) : i = k ∧ found = diagnostic := by
  induction h generalizing i with
  | here hend hrule =>
    cases h' with
    | here _ hrule' =>
      rw [hrule] at hrule'
      cases hrule'
      exact ⟨rfl, rfl⟩
    | later _ hturn =>
      rw [turn_eq_of_error hrule] at hturn
      cases hturn
  | later hend hread hsplit _ ih =>
    cases h' with
    | here _ hrule =>
      rw [turn_eq_of_error hrule] at hread
      cases hread
    | later _ hturn hsplit' hmore =>
      rw [hread] at hturn
      cases hturn
      obtain rfl := List.append_cancel_right (hsplit.symm.trans hsplit')
      obtain ⟨rfl, rfl⟩ := ih hmore
      exact ⟨rfl, rfl⟩

/-- The diagnostic is on the token `k`, which is ahead or the end of the input. -/
theorem names (h : parser.FailsFirst k diagnostic)
    (hends : ∀ token ∈ parser.ahead, token.kind ≠ .eof) :
    diagnostic.Names (parser.skip k).current ∧ k ≤ parser.remaining := by
  induction h with
  | here _ hrule =>
    obtain ⟨ts, hbreaks, -⟩ := fails_statementRule hrule
    rw [hbreaks.brokenAt_eq hends]
    exact ⟨hbreaks.stops.names, hbreaks.front.length_le⟩
  | @later parser later _ tokens k _ _ hturn hsplit _ ih =>
    obtain ⟨hnames, hle⟩ := ih (kind_ne_eof_later hsplit hends)
    obtain ⟨_, _, -, hlater, -⟩ := exists_last_of_turn hturn hsplit
    rw [hlater, skip_skip] at hnames
    refine ⟨hnames, ?_⟩
    rw [remaining, hsplit, List.length_append]
    exact Nat.add_le_add_left hle tokens.length

/-- **The first failure is decided by the tokens up to its diagnostic.** -/
theorem of_like (h : parser.FailsFirst k diagnostic) (hlike : parser.Like place k other)
    (hends : ∀ token ∈ parser.ahead, token.kind ≠ .eof)
    (hother : ∀ token ∈ other.ahead, token.kind ≠ .eof) :
    other.FailsFirst k (diagnostic.moved place) := by
  induction h generalizing other with
  | here hend hrule =>
    obtain ⟨ts, hbreaks, -⟩ := fails_statementRule hrule
    have hbroken := hbreaks.brokenAt_eq hends
    rw [hbroken] at hlike ⊢
    obtain ⟨n, depth, -, hfails, hbroken'⟩ :=
      statementRule_of_error hrule hbreaks hends hother hlike
    rw [← hbroken']
    exact .here (hlike.atEnd.trans hend) hfails
  | @later parser later tree tokens k diagnostic hend hturn hsplit hmore ih =>
    obtain ⟨init, last, htokens, hlater, -, hahead, hrule⟩ := exists_last_of_turn hturn hsplit
    have hlength : tokens.length = init.length + 1 := by
      rw [htokens, List.length_append]
      rfl
    -- the statement is read there as well, and leads on by as many tokens
    have hturn' := turn_eq_of_ok (statementRule_of_ok hahead hrule (hlike.mono (by omega)))
    rw [advance_skip, ← hlength] at hturn'
    have hlt : init.length < parser.remaining := by
      rw [remaining, hsplit, List.length_append]
      omega
    have hlt' := hlike.lt_remaining (by omega) hlt hends
    have hfront : (other.ahead.take tokens.length).length = tokens.length := by
      rw [List.length_take, hlength]
      exact Nat.min_eq_left hlt'
    have hrest : (other.skip tokens.length).FailsFirst k (diagnostic.moved place) := by
      refine ih ?_ (kind_ne_eof_later hsplit hends) fun token htoken =>
        hother token (List.mem_of_mem_drop htoken)
      rw [hlater]
      exact hlike.skip
    have hfails := FailsFirst.later (hlike.atEnd.trans hend) hturn'
      (List.take_append_drop tokens.length other.ahead).symm hrest
    rwa [hfront] at hfails

/-- **What stands in front of the first failure can be gone on with** to the statements of a
program. Where nothing stands there, nothing is needed. -/
theorem completable (h : parser.FailsFirst k diagnostic)
    (hends : ∀ token ∈ parser.ahead, token.kind ≠ .eof) :
    ∃ statements, ∃ us ⊆ spares, (k = 0 → us = []) ∧
      Derives (.statements .eof statements) (parser.ahead.take k ++ us) := by
  induction h with
  | here _ hrule =>
    obtain ⟨ts, hbreaks, us, hus, tree, hcomplete⟩ := fails_statementRule hrule
    rw [hbreaks.brokenAt_eq hends, ← List.prefix_iff_eq_take.mp hbreaks.front]
    cases ts with
    | nil => exact ⟨[], [], List.nil_subset spares, fun _ => rfl, .nil⟩
    | cons token ts =>
      have hlast := (hcomplete Spare.semicolon .eof rfl).singleton
      rw [List.append_assoc] at hlast
      exact ⟨_, _, List.append_subset.mpr ⟨hus, by decide⟩, nofun, hlast⟩
  | @later parser later tree tokens k diagnostic _ hturn hsplit hmore ih =>
    obtain ⟨statements, us, hus, hnil, hrest⟩ := ih (kind_ne_eof_later hsplit hends)
    obtain ⟨init, last, htokens, -, hderives, -⟩ := exists_last_of_turn hturn hsplit
    refine ⟨tree :: statements, us, hus, ?_, ?_⟩
    · intro hzero
      exact absurd (Nat.eq_zero_of_add_eq_zero_right hzero) (by simp [htokens])
    · rw [hsplit, List.take_length_add_append, List.append_assoc]
      refine .cons ?_ hrest
      cases k with
      | zero =>
        -- the end of the input may come next as well
        rw [hnil rfl]
        exact hderives.statement_before (Or.inr rfl)
      | succ k =>
        have hle := (hmore.names (kind_ne_eof_later hsplit hends)).2
        cases hnext : later.ahead with
        | nil =>
          rw [remaining, hnext] at hle
          exact absurd hle (Nat.not_succ_le_zero k)
        | cons token rest =>
          rw [hnext] at hderives
          exact hderives

end FailsFirst

/-- The tokens at which a parser comes to stand, the end of the input last. -/
theorem getElem?_ahead (hk : k ≤ parser.remaining) :
    (parser.ahead ++ [parser.endToken])[k]? = some (parser.skip k).current := by
  rw [remaining] at hk
  rcases Nat.lt_or_eq_of_le hk with hlt | rfl
  · rw [List.getElem?_append_left hlt, List.getElem?_eq_getElem hlt, current_skip hlt]
  · rw [List.getElem?_concat_length, Parser.current, ahead_skip, List.drop_length]
    rfl

/-! ## At no place -/

/-- The parser on the same tokens at no place. -/
def bare (parser : Parser) : Parser :=
  ⟨parser.ahead.map .bare, default, [], parser.openBlocks⟩

theorem moved_bare (parser : Parser) : parser.Moved (fun _ => default) parser.bare :=
  ⟨rfl, rfl, rfl⟩

/-- On the same tokens, at whatever places, there are the same diagnostics, up to their places. -/
theorem Turns.diagnostics_of_bare {others : List Segment} (hbare : parser.bare = other.bare)
    (hends : ∀ token ∈ parser.ahead, token.kind ≠ .eof)
    (hother : ∀ token ∈ other.ahead, token.kind ≠ .eof)
    (h : parser.Turns segments) (h' : other.Turns others) :
    (segments.filterMap Segment.diagnostic?).map (Diagnostic.moved fun _ => default) =
      (others.filterMap Segment.diagnostic?).map (Diagnostic.moved fun _ => default) := by
  have hturns := parser.moved_bare.turns hends h
  rw [hbare] at hturns
  have hsegments := hturns.unique (other.moved_bare.turns hother h')
  rw [← Segment.filterMap_diagnostic_moved, ← Segment.filterMap_diagnostic_moved, hsegments]

end Parser

/-! ## Sources -/

/-- The statements of a program are those of some source, apart from the places of their tokens. -/
theorem exists_source_of_derives {statements : List Stmt} {ts : List Token}
    (h : Derives (.statements .eof statements) ts) (hlexical : ∀ token ∈ ts, token.Lexical) :
    ∃ text, (ofSource text).ahead.map Token.bare = ts.map Token.bare ∧ (parse text).2 = [] := by
  have hbare : (ofSource (spell ts)).ahead.map Token.bare = ts.map Token.bare :=
    lexemes_spell hlexical fun token htoken => (h.readable token htoken).1
  refine ⟨spell ts, hbare, ?_⟩
  -- the tokens themselves are read without a diagnostic
  have hfaces : Faces ⟨ts, default, [], 0⟩ ts [] := ⟨(List.append_nil ts).symm, hlexical⟩
  have hread := readStatements_of_derives h statements rfl hfaces (Nat.le_refl ts.length)
  obtain ⟨segments, hturns⟩ := exists_turns ⟨ts, default, [], 0⟩
  have hnone : [] = segments.filterMap Segment.diagnostic? := by
    have hdiagnostics := (hturns.readStatements (Nat.le_refl ts.length)).2
    rw [hread] at hdiagnostics
    exact hdiagnostics
  -- and so is the text, which has the same tokens
  obtain ⟨others, hothers⟩ := exists_turns (ofSource (spell ts))
  have hsame : Parser.bare ⟨ts, default, [], 0⟩ = (ofSource (spell ts)).bare := by
    rw [Parser.bare, Parser.bare, hbare]
    rfl
  have hmap := hturns.diagnostics_of_bare hsame
    (fun token htoken => (hlexical token htoken).kind_ne_eof) AtTurn.start.kind_ne_eof hothers
  rw [← hnone] at hmap
  rw [hothers.parse_eq]
  exact List.map_eq_nil_iff.mp hmap.symm

theorem lexical_of_mem_spares {token : Token} (h : token ∈ spares) : token.Lexical := by
  simp only [spares, List.mem_cons, List.not_mem_nil, or_false] at h
  rcases h with rfl | rfl | rfl | rfl | rfl | rfl | rfl
  · exact .name rfl (by decide)
  all_goals exact .symbol (by decide)

variable {source other : String} {k : Nat}

/-- The tokens of a source are those at which its parser comes to stand, the end of the input
last. -/
theorem getElem?_tokenize (hk : k ≤ (ofSource source).remaining) :
    (tokenize source)[k]? = some ((ofSource source).skip k).current := by
  rw [tokenize_eq, getElem?_ahead hk]

theorem length_tokenize (source : String) :
    (tokenize source).length = (ofSource source).remaining + 1 := by
  rw [tokenize_eq, List.length_append]
  rfl

/-- A source whose tokens begin as those of another one is alike up to the last of these. -/
theorem like_bare_of_isPrefix (hk : k ≤ (ofSource source).remaining)
    (h : ((tokenize source).take (k + 1)).map Token.bare <+: (tokenize other).map Token.bare) :
    (ofSource source).Like (fun _ => default) k (ofSource other).bare := by
  refine ⟨fun i hi => ?_, rfl⟩
  have hlength := h.length_le
  obtain ⟨rest, hrest⟩ := h
  have hlt : i < (((tokenize source).take (k + 1)).map Token.bare).length := by
    rw [List.length_map, List.length_take, length_tokenize]
    omega
  have hbare : ((tokenize other)[i]?).map Token.bare = ((tokenize source)[i]?).map Token.bare := by
    rw [← List.getElem?_map, ← hrest, List.getElem?_append_left hlt, List.getElem?_map,
      List.getElem?_take_of_lt (Nat.lt_succ_of_le hi)]
  have hother : i ≤ (ofSource other).remaining := by
    rw [List.length_map] at hlt hlength
    rw [List.length_map, length_tokenize other] at hlength
    omega
  rw [getElem?_tokenize hother, getElem?_tokenize (Nat.le_trans hi hk)] at hbare
  exact (((moved_bare _).like i).token i (Nat.le_refl i)).trans (Option.some.inj hbare)

/-- Tokens at the same place of a source are the same. -/
theorem eq_of_start_eq {i : Nat} {token another : Token}
    (hsize : source.utf8ByteSize < UInt32.size) (htoken : (tokenize source)[k]? = some token)
    (hanother : (tokenize source)[i]? = some another)
    (hstart : another.span.start = token.span.start) : i = k := by
  obtain ⟨hk, rfl⟩ := List.getElem?_eq_some_iff.mp htoken
  obtain ⟨hi, rfl⟩ := List.getElem?_eq_some_iff.mp hanother
  have hpairwise := List.pairwise_iff_getElem.mp (pairwise_tokenize hsize)
  rcases Nat.lt_trichotomy i k with hlt | heq | hlt
  · exact absurd (hpairwise i k hi hk hlt) (by rw [hstart]; exact UInt32.lt_irrefl _)
  · exact heq
  · exact absurd (hpairwise k i hk hi hlt) (by rw [hstart]; exact UInt32.lt_irrefl _)

/-- The tokens in front of the first failure begin some source without a mistake. -/
theorem Parser.FailsFirst.exists_source {diagnostic : Diagnostic}
    (h : (ofSource source).FailsFirst k diagnostic) :
    ∃ text, ((tokenize source).take k).map Token.bare <+: (tokenize text).map Token.bare ∧
      (parse text).2 = [] := by
  have hends : ∀ token ∈ (ofSource source).ahead, token.kind ≠ .eof := AtTurn.start.kind_ne_eof
  obtain ⟨statements, us, hus, -, hderives⟩ := h.completable hends
  have hlexical : ∀ token ∈ (ofSource source).ahead.take k ++ us, token.Lexical := by
    refine List.forall_mem_append.mpr ⟨fun token htoken => ?_, fun token htoken => ?_⟩
    · exact (faces_ofSource source).lexical token (List.mem_of_mem_take htoken)
    · exact lexical_of_mem_spares (hus htoken)
  obtain ⟨text, hbare, hparse⟩ := exists_source_of_derives hderives hlexical
  refine ⟨text, ?_, hparse⟩
  rw [tokenize_eq, tokenize_eq, List.take_append_of_le_length (h.names hends).2, List.map_append,
    hbare, List.map_append, List.append_assoc]
  exact List.prefix_append _ _

/-- A source that begins with the tokens up to the first failure fails first at the same token, for
the same cause. -/
theorem Parser.FailsFirst.parse_other {diagnostic : Diagnostic}
    (h : (ofSource source).FailsFirst k diagnostic)
    (hother : ((tokenize source).take (k + 1)).map Token.bare <+: (tokenize other).map Token.bare) :
    ∃ found others token, (parse other).2 = found :: others ∧ found.cause = diagnostic.cause ∧
      (tokenize other)[k]? = some token ∧ found.position = token.span.start := by
  have hends : ∀ token ∈ (ofSource source).ahead, token.kind ≠ .eof := AtTurn.start.kind_ne_eof
  have hends' : ∀ token ∈ (ofSource other).ahead, token.kind ≠ .eof := AtTurn.start.kind_ne_eof
  have hmoved := (ofSource other).moved_bare
  -- at no place, the other source fails first where this one does
  have hbare := h.of_like (like_bare_of_isPrefix (h.names hends).2 hother) hends
    (hmoved.kind_ne_eof hends')
  obtain ⟨segments, hturns⟩ := exists_turns (ofSource other)
  obtain ⟨_, hfirst⟩ := hbare.filterMap_diagnostic (hmoved.turns hends' hturns)
  rw [Segment.filterMap_diagnostic_moved] at hfirst
  obtain ⟨found, others, hfound, -, -⟩ := List.map_eq_cons_iff.mp hfirst
  -- and so it does at its own places
  obtain ⟨i, hfails⟩ := hturns.exists_failsFirst hfound
  obtain ⟨rfl, hcause⟩ :=
    hbare.unique (hfails.of_like (hmoved.like i) hends' (hmoved.kind_ne_eof hends'))
  have hcause' : found.cause = diagnostic.cause := by
    have hcauses := congrArg Diagnostic.cause hcause
    exact hcauses
  obtain ⟨hnames, hle⟩ := hfails.names hends'
  refine ⟨found, others, _, ?_, hcause', getElem?_tokenize hle, hnames.1⟩
  rw [hturns.parse_eq, hfound]

/-- **The first diagnostic is on the first token that cannot be there.** -/
theorem parse_first_diagnostic {diagnostic : Diagnostic} {diagnostics : List Diagnostic}
    (h : (parse source).2 = diagnostic :: diagnostics) :
    ∃ k token, (tokenize source)[k]? = some token ∧ diagnostic.position = token.span.start ∧
      (source.utf8ByteSize < UInt32.size → ∀ i another, (tokenize source)[i]? = some another →
        another.span.start = diagnostic.position → i = k) ∧
      (∃ text, ((tokenize source).take k).map Token.bare <+: (tokenize text).map Token.bare ∧
        (parse text).2 = []) ∧
      ∀ other, ((tokenize source).take (k + 1)).map Token.bare <+: (tokenize other).map Token.bare →
        ∃ found others there, (parse other).2 = found :: others ∧ found.cause = diagnostic.cause ∧
          (tokenize other)[k]? = some there ∧ found.position = there.span.start := by
  obtain ⟨segments, hturns⟩ := exists_turns (ofSource source)
  rw [hturns.parse_eq] at h
  obtain ⟨k, hfails⟩ := hturns.exists_failsFirst h
  obtain ⟨hnames, hle⟩ := hfails.names AtTurn.start.kind_ne_eof
  have htoken := getElem?_tokenize hle
  refine ⟨k, _, htoken, hnames.1, fun hsize i another hanother hstart => ?_, hfails.exists_source,
    fun other hother => hfails.parse_other hother⟩
  exact eq_of_start_eq hsize htoken hanother (hstart.trans hnames.1)

/-- A binding without a name, behind another statement. The name is missing in front of the token
three. -/
theorem parse_first_diagnostic_without_name :
    (parse "a; let = 5;").2 = [⟨.unexpectedToken .identifier .assign, 7⟩] ∧
      (∃ text, ((tokenize "a; let = 5;").take 3).map Token.bare <+: (tokenize text).map Token.bare ∧
        (parse text).2 = []) ∧
      ∀ other, ((tokenize "a; let = 5;").take 4).map Token.bare <+:
          (tokenize other).map Token.bare →
        ∃ found others there, (parse other).2 = found :: others ∧
          found.cause = .unexpectedToken .identifier .assign ∧
          (tokenize other)[3]? = some there ∧ found.position = there.span.start := by
  have hparse : (parse "a; let = 5;").2 = [⟨.unexpectedToken .identifier .assign, 7⟩] := rfl
  obtain ⟨k, token, -, -, hunique, htext, hothers⟩ := parse_first_diagnostic hparse
  have hassign : (tokenize "a; let = 5;")[3]? = some (.ofOffsets .assign "=" 7 8) := by
    rw [tokenize_eq]
    rfl
  obtain rfl : 3 = k := hunique (by decide) 3 _ hassign rfl
  exact ⟨hparse, htext, hothers⟩

end MonkeySyntax
