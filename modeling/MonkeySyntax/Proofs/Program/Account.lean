import MonkeySyntax.Proofs.Lexer.Offsets
import MonkeySyntax.Proofs.Program.Turns

/-!
# MonkeySyntax — every token is accounted for

The tokens of a source are split among the turns of the loop. Each turn uses up some of them, and
either they are one statement or there is one diagnostic on one of them, or on the token behind
them.

* **`Segment.Accounts`** — what a turn makes of its tokens.
* **`pairwise_tokenize`** — the tokens of a source start one behind the other.
* **`parse_accounts`** — a source is split into the segments of its turns, and the program and the
  diagnostics on it come from these in their order.
-/

namespace MonkeySyntax

open MonkeySyntax.Parser

/-! ## Segments -/

namespace Segment

/-- In front of the tokens `rest`, the tokens of the segment are the statement that was read, or
else the diagnostic is on one of them or on the first of `rest`. -/
def Accounts (segment : Segment) (rest : List Token) : Prop :=
  match segment.outcome with
  | .ok statement => Derives (.statement (firstKind rest .eof) statement) segment.tokens
  | .error diagnostic => ∃ token ∈ segment.tokens ++ rest.take 1, diagnostic.Names token

def isRead (segment : Segment) : Bool :=
  segment.statement?.isSome

variable {segments : List Segment}

/-- Segments with tokens are no more than their tokens. -/
theorem length_add_length_le (h : ∀ segment ∈ segments, segment.tokens ≠ []) :
    (segments.filterMap statement?).length + (segments.filterMap diagnostic?).length ≤
      (segments.flatMap tokens).length := by
  induction segments with
  | nil => exact Nat.le_refl 0
  | cons segment segments ih =>
    obtain ⟨hsegment, hsegments⟩ := List.forall_mem_cons.mp h
    have hle := ih hsegments
    have hpos : 0 < segment.tokens.length := List.length_pos_iff.mpr hsegment
    obtain ⟨ts, outcome⟩ := segment
    cases outcome <;>
      simp only [List.flatMap_cons, List.length_append, List.filterMap_cons, List.length_cons,
        statement?_ok, statement?_error, diagnostic?_ok, diagnostic?_error] at hpos ⊢ <;>
      omega

/-- The tokens of the statements that were read are fewer than all tokens by as many as there are
diagnostics, at least. -/
theorem length_read_add_le (h : ∀ segment ∈ segments, segment.tokens ≠ []) :
    ((segments.filter isRead).flatMap tokens).length + (segments.filterMap diagnostic?).length ≤
      (segments.flatMap tokens).length := by
  induction segments with
  | nil => exact Nat.le_refl 0
  | cons segment segments ih =>
    obtain ⟨hsegment, hsegments⟩ := List.forall_mem_cons.mp h
    have hle := ih hsegments
    have hpos : 0 < segment.tokens.length := List.length_pos_iff.mpr hsegment
    obtain ⟨ts, outcome⟩ := segment
    cases outcome with
    | ok statement =>
      have hread : isRead ⟨ts, .ok statement⟩ = true := rfl
      rw [List.filter_cons_of_pos hread]
      simp only [List.flatMap_cons, List.length_append, List.filterMap_cons, diagnostic?_ok]
      omega
    | error diagnostic =>
      have hread : ¬ isRead ⟨ts, .error diagnostic⟩ = true := Bool.false_ne_true
      rw [List.filter_cons_of_neg hread]
      simp only [List.flatMap_cons, List.length_append, List.filterMap_cons, List.length_cons,
        diagnostic?_error] at hpos ⊢
      omega

/-- There is no diagnostic exactly where every token is one of a statement that was read. -/
theorem filterMap_diagnostic_eq_nil_iff (h : ∀ segment ∈ segments, segment.tokens ≠ []) :
    segments.filterMap diagnostic? = [] ↔
      (segments.filter isRead).flatMap tokens = segments.flatMap tokens := by
  constructor
  · intro hnil
    have hread : ∀ segment ∈ segments, segment.isRead = true := by
      intro segment hsegment
      have hnone := List.filterMap_eq_nil_iff.mp hnil segment hsegment
      obtain ⟨ts, outcome⟩ := segment
      cases outcome with
      | ok statement => rfl
      | error diagnostic => cases hnone
    rw [List.filter_eq_self.mpr hread]
  · intro heq
    have hle := length_read_add_le h
    rw [heq] at hle
    exact List.length_eq_zero_iff.mp (by omega)

end Segment

/-! ## The order of the tokens -/

/-- **The tokens of a source start one behind the other**, the end of the input last. -/
theorem pairwise_tokenize {source : String} (hsize : source.utf8ByteSize < UInt32.size) :
    (tokenize source).Pairwise fun first second => first.span.start < second.span.start := by
  rw [← length_utf8] at hsize
  have hscan := pairwise_scan 0 0 (utf8 source)
  rw [Nat.zero_add] at hscan
  rw [tokenize_eq, List.pairwise_append]
  refine ⟨hscan hsize, List.pairwise_singleton _ _, ?_⟩
  intro first hfirst second hsecond
  obtain rfl := List.mem_singleton.mp hsecond
  have hmem : first ∈ scan 0 0 (utf8 source) := hfirst
  obtain ⟨start, -, hlt, hstart⟩ := exists_start_of_mem_scan hmem
  rw [Nat.zero_add] at hlt
  show first.span.start < (utf8 source).length.toUInt32
  rw [hstart, UInt32.lt_iff_toNat_lt, toNat_toUInt32 (Nat.lt_trans hlt hsize),
    toNat_toUInt32 hsize]
  exact hlt

/-! ## The turns of a source -/

namespace Parser

variable {parser later : Parser} {tokens : List Token} {diagnostic : Diagnostic}

/-- A turn that fails has its diagnostic on one of the tokens that it uses up, or on the token
behind them. -/
theorem exists_names_of_turn (hturn : parser.turn = (.error diagnostic, later))
    (hsplit : parser.ahead = tokens ++ later.ahead) :
    ∃ token ∈ tokens ++ (later.ahead ++ [parser.endToken]).take 1, diagnostic.Names token := by
  obtain ⟨mid, hrule, rfl⟩ := turn_of_error hturn
  obtain ⟨ts, hbreaks, -⟩ := fails_statementRule hrule
  refine ⟨_, ?_, hbreaks.stops.names⟩
  -- skipping starts at the token of the diagnostic, or at the one before it
  have hskip := (skipStatement_suffix mid.openBlocks mid.ahead).length_le
  have hlength := congrArg List.length hsplit
  have hfront := hbreaks.front.length_le
  have hlater : ((mid.record diagnostic).skipBroken.advance).ahead.length =
      (skipStatement mid.openBlocks mid.ahead).length - 1 := List.length_tail
  rw [List.length_append, hlater] at hlength
  have hle : ts.length ≤ tokens.length := by
    rcases hbreaks.stops.place with ⟨hmid, -⟩ | ⟨j, hj, hmid, -⟩
    · have hahead := congrArg (List.length ∘ Parser.ahead) hmid
      simp only [Function.comp, ahead_reach, List.length_drop] at hahead
      omega
    · have hahead := congrArg (List.length ∘ Parser.ahead) hmid
      simp only [Function.comp, ahead_reach, List.length_drop] at hahead
      omega
  rw [current, ahead_skip, hsplit]
  rcases Nat.lt_or_eq_of_le hle with hlt | heq
  · have hdrop := List.drop_eq_getElem_cons hlt
    rw [List.drop_append_of_le_length hle, hdrop]
    exact List.mem_append_left _ (List.getElem_mem hlt)
  · rw [heq, List.drop_left]
    cases (mid.record diagnostic).skipBroken.advance.ahead with
    | nil => exact List.mem_append_right _ List.mem_cons_self
    | cons token rest => exact List.mem_append_right _ List.mem_cons_self

namespace Turns

variable {segments : List Segment}

/-- **What each turn makes of its tokens.** -/
theorem accounts (h : parser.Turns segments) (hend : ∀ token ∈ parser.ahead, token.kind ≠ .eof)
    {before after : List Segment} {segment : Segment}
    (hsplit : segments = before ++ segment :: after) :
    segment.tokens ≠ [] ∧
      segment.Accounts (after.flatMap Segment.tokens ++ [parser.endToken]) := by
  induction h generalizing before with
  | done => simp at hsplit
  | @next parser later tokens outcome segments hfirst hturn hahead hmore ih =>
    have hend' : ∀ token ∈ later.ahead, token.kind ≠ .eof := by
      rw [hahead] at hend
      exact fun token htoken => hend token (List.mem_append_right _ htoken)
    have hstop := endToken_of_turn hturn
    cases before with
    | cons first before =>
      obtain ⟨-, hsplit⟩ := List.cons.inj hsplit
      rw [← hstop]
      exact ih hend' hsplit
    | nil =>
      obtain ⟨rfl, rfl⟩ := List.cons.inj hsplit
      rw [hmore.flatMap_tokens hend']
      constructor
      · rintro rfl
        have hlt := remaining_turn_lt hfirst
        rw [hturn, remaining, remaining, hahead] at hlt
        exact absurd hlt (Nat.lt_irrefl _)
      · cases outcome with
        | ok tree =>
          obtain ⟨init, last, hinit, -, hderives, -⟩ := turn_of_ok hturn
          have hinit' : tokens ++ later.ahead = init ++ [last] ++ later.ahead := by
            rw [← hahead, hinit, List.append_assoc]
            rfl
          obtain rfl := List.append_cancel_right hinit'
          have hnext : firstKind (later.ahead ++ [parser.endToken]) .eof =
              firstKind later.ahead .eof := by
            rw [firstKind_append]
            rfl
          show Derives (.statement (firstKind (later.ahead ++ [parser.endToken]) .eof) tree) _
          rw [hnext]
          exact hderives
        | error diagnostic => exact exists_names_of_turn hturn hahead

/-- **Diagnostics come in the order of their tokens.** -/
theorem pairwise_diagnostics (h : parser.Turns segments)
    (horder : (parser.ahead ++ [parser.endToken]).Pairwise fun first second =>
      first.span.start < second.span.start) :
    (segments.filterMap Segment.diagnostic?).Pairwise (fun first second =>
        first.position ≤ second.position) ∧
      ∀ diagnostic ∈ segments.filterMap Segment.diagnostic?,
        ∃ token ∈ parser.ahead ++ [parser.endToken],
          diagnostic.position = token.span.start := by
  induction h with
  | done => exact ⟨.nil, by simp⟩
  | @next parser later tokens outcome segments _ hturn hahead _ ih =>
    have hstop := endToken_of_turn hturn
    rw [hahead, List.append_assoc] at horder ⊢
    obtain ⟨-, hrest, hcross⟩ := List.pairwise_append.mp horder
    rw [hstop] at ih
    obtain ⟨hpairwise, htokens⟩ := ih hrest
    have hbehind : ∀ diagnostic ∈ segments.filterMap Segment.diagnostic?,
        ∃ token ∈ tokens ++ (later.ahead ++ [parser.endToken]),
          diagnostic.position = token.span.start := by
      intro diagnostic hdiagnostic
      obtain ⟨token, htoken, hposition⟩ := htokens diagnostic hdiagnostic
      exact ⟨token, List.mem_append_right _ htoken, hposition⟩
    cases outcome with
    | ok tree =>
      rw [List.filterMap_cons, Segment.diagnostic?_ok]
      exact ⟨hpairwise, hbehind⟩
    | error diagnostic =>
      rw [List.filterMap_cons, Segment.diagnostic?_error]
      obtain ⟨token, htoken, hnames⟩ := exists_names_of_turn hturn hahead
      -- the later ones are on tokens of the rest, and this one is at most on the first of these
      have hfirst : ∀ other ∈ later.ahead ++ [parser.endToken],
          token.span.start ≤ other.span.start := by
        intro other hother
        rcases List.mem_append.mp htoken with htoken | htoken
        · exact UInt32.le_of_lt (hcross token htoken other hother)
        · cases hall : later.ahead ++ [parser.endToken] with
          | nil => exact absurd hall (by simp)
          | cons first rest =>
            rw [hall] at htoken hother hrest
            obtain rfl : token = first := by simpa using htoken
            rcases List.mem_cons.mp hother with rfl | hother
            · exact UInt32.le_refl _
            · exact UInt32.le_of_lt (List.rel_of_pairwise_cons hrest hother)
      refine ⟨.cons ?_ hpairwise, List.forall_mem_cons.mpr ⟨⟨token, ?_, hnames.1⟩, hbehind⟩⟩
      · intro other hother
        obtain ⟨token', htoken', hposition⟩ := htokens other hother
        rw [hnames.1, hposition]
        exact hfirst token' htoken'
      · rcases List.mem_append.mp htoken with htoken | htoken
        · exact List.mem_append_left _ htoken
        · exact List.mem_append_right _ (List.mem_of_mem_take htoken)

end Turns

end Parser

/-- **Every token of a source is accounted for.** The tokens before the end of the input are split
among the turns of the loop, none of which is without tokens. A turn gives a statement, and then its
tokens are that statement; or it gives a diagnostic on one of its tokens or the one behind them.
The program has the statements of the turns in their order, and so have the diagnostics. So
statements and diagnostics together are no more than the tokens, the places of diagnostics never
decrease, and there is no diagnostic exactly where the statements have all the tokens. -/
theorem parse_accounts (source : String) :
    ∃ segments : List Segment, (Parser.ofSource source).Turns segments ∧
      tokenize source =
        segments.flatMap Segment.tokens ++ [(Parser.ofSource source).endToken] ∧
      (∀ before segment after, segments = before ++ segment :: after →
        segment.tokens ≠ [] ∧ segment.Accounts
          (after.flatMap Segment.tokens ++ [(Parser.ofSource source).endToken])) ∧
      parse source = (⟨segments.filterMap Segment.statement?⟩,
        segments.filterMap Segment.diagnostic?) ∧
      (parse source).1.size + (parse source).2.length ≤
        (segments.flatMap Segment.tokens).length ∧
      (source.utf8ByteSize < UInt32.size → (parse source).2.Pairwise fun first second =>
        first.position ≤ second.position) ∧
      ((parse source).2 = [] ↔
        (segments.filter Segment.isRead).flatMap Segment.tokens =
          segments.flatMap Segment.tokens) := by
  obtain ⟨segments, hturns⟩ := (Parser.ofSource source).exists_turns
  have hstart : (Parser.ofSource source).AtTurn source := .start
  have hend := hstart.kind_ne_eof
  have htokens := hturns.flatMap_tokens hend
  have hparse := hturns.parse_eq
  have hne : ∀ segment ∈ segments, segment.tokens ≠ [] := by
    intro segment hsegment
    obtain ⟨before, after, hsplit⟩ := List.append_of_mem hsegment
    exact (hturns.accounts hend hsplit).1
  refine ⟨segments, hturns, ?_, fun _ _ _ hsplit => hturns.accounts hend hsplit, hparse, ?_, ?_, ?_⟩
  · rw [htokens, tokenize_eq]
  · rw [hparse]
    exact Segment.length_add_length_le hne
  · intro hsize
    have horder := pairwise_tokenize hsize
    rw [tokenize_eq] at horder
    rw [hparse]
    exact (hturns.pairwise_diagnostics horder).1
  · rw [hparse]
    exact Segment.filterMap_diagnostic_eq_nil_iff hne

end MonkeySyntax
