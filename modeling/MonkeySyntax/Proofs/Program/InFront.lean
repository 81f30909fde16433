import MonkeySyntax.Proofs.Lexer.Tiling
import MonkeySyntax.Proofs.Program.Truthful

/-!
# MonkeySyntax — what stands in front of a diagnostic

A character that starts no token is a mistake wherever it stands, so reading goes on behind it only
with the next statement. The token in front of one that has a diagnostic is therefore no such
character, and between the two are blanks: the byte in front of a diagnostic is of ASCII, and a
diagnostic is on the first byte of a character.

* **`EndsLegal ts`** — the last of the tokens is one that the language has.
* **`Parser.Turns.exists_endsLegal`** — the tokens in front of each diagnostic are like that. What
  one turn uses up is (`endsLegal_of_turn`), unless there is nothing behind it.
* **`Diagnostic.StandsOn`** — a diagnostic before the end of the source, and the token it is on.
* **`exists_standsOn`** — every diagnostic stands on a token like that.
-/

namespace MonkeySyntax

open Grammar MonkeySyntax.Parser

/-! ## The last of some tokens -/

/-- The last of the tokens, if there are any, is no character that starts no token. -/
def EndsLegal (ts : List Token) : Prop :=
  ∀ last ∈ ts.getLast?, last.kind ≠ .illegal

theorem EndsLegal.append {ts us : List Token} (h : EndsLegal ts) (hus : EndsLegal us) :
    EndsLegal (ts ++ us) := by
  intro last hlast
  rw [List.getLast?_append, Option.mem_def, Option.or_eq_some_iff] at hlast
  rcases hlast with hlast | ⟨-, hlast⟩
  · exact hus last hlast
  · exact h last hlast

theorem endsLegal_concat {ts : List Token} {token : Token} (h : token.kind ≠ .illegal) :
    EndsLegal (ts ++ [token]) := by
  intro last hlast
  obtain rfl : token = last := by simpa using hlast
  exact h

theorem Readable.endsLegal {ts : List Token} (h : Readable ts) : EndsLegal ts :=
  fun last hlast => (h last (List.mem_of_getLast? hlast)).1

namespace Parser

variable {parser later : Parser} {tokens : List Token} {outcome : Except Diagnostic Stmt}
  {diagnostic : Diagnostic} {segments : List Segment}

/-- A turn with something behind it ends with a token that the language has: the last one of the
statement, or the one that ends what is skipped of it. -/
theorem endsLegal_of_turn (hturn : parser.turn = (outcome, later))
    (hsplit : parser.ahead = tokens ++ later.ahead) (hmore : later.atEnd = false) :
    EndsLegal tokens := by
  cases outcome with
  | ok tree =>
    obtain ⟨_, _, -, -, hderives, -⟩ := exists_last_of_turn hturn hsplit
    exact hderives.readable.endsLegal
  | error diagnostic =>
    obtain ⟨mid, hrule, rfl⟩ := turn_of_error hturn
    obtain ⟨front, hfront⟩ :=
      (skipStatement_suffix mid.openBlocks mid.ahead).trans (onward_of_error hrule).ahead
    have hhead := kind_head_skipStatement mid.openBlocks mid.ahead
    have hlater : ((mid.record diagnostic).skipBroken.advance).ahead =
        (skipStatement mid.openBlocks mid.ahead).tail := rfl
    cases hskip : skipStatement mid.openBlocks mid.ahead with
    | nil =>
      rw [atEnd, kind_current, hlater, hskip] at hmore
      exact absurd hmore (by decide)
    | cons token rest =>
      rw [hlater, ← hfront, hskip, List.tail_cons] at hsplit
      obtain rfl : front ++ [token] = tokens :=
        List.append_cancel_right (by rw [← hsplit, List.append_assoc, List.singleton_append])
      refine endsLegal_concat fun hillegal => ?_
      have hkind := hhead token (by rw [hskip]; rfl)
      rw [hillegal] at hkind
      exact absurd hkind (by decide)

/-- The tokens of a broken statement in front of its diagnostic. -/
theorem exists_endsLegal_of_error {mid : Parser}
    (hrule : unbounded.statementRule parser = .error diagnostic mid) :
    ∃ before token after, parser.ahead ++ [parser.endToken] = before ++ token :: after ∧
      diagnostic.Names token ∧ EndsLegal before := by
  obtain ⟨ts, hbreaks, us, -, tree, hcomplete⟩ := fails_statementRule hrule
  obtain ⟨rest, hrest⟩ := hbreaks.front
  have hreadable : Readable (ts ++ us ++ [Spare.semicolon]) :=
    (hcomplete Spare.semicolon .eof rfl).readable
  have hlegal : EndsLegal ts :=
    (readable_append.mp (readable_append.mp hreadable).1).1.endsLegal
  have hnames := hbreaks.stops.names
  rw [Parser.current, ahead_skip, ← hrest, List.drop_left] at hnames
  rw [← hrest, List.append_assoc]
  cases rest with
  | nil => exact ⟨ts, _, [], rfl, hnames, hlegal⟩
  | cons token rest => exact ⟨ts, token, _, rfl, hnames, hlegal⟩

/-- **In front of a diagnostic** is a token that the language has, or none. -/
theorem Turns.exists_endsLegal (h : parser.Turns segments)
    (hmem : diagnostic ∈ segments.filterMap Segment.diagnostic?) :
    ∃ before token after, parser.ahead ++ [parser.endToken] = before ++ token :: after ∧
      diagnostic.Names token ∧ EndsLegal before := by
  induction h with
  | done => simp at hmem
  | @next parser later tokens outcome segments _ hturn hsplit hmore ih =>
    -- a later diagnostic has the tokens of this turn in front of it as well
    have hbehind : diagnostic ∈ segments.filterMap Segment.diagnostic? →
        ∃ before token after, parser.ahead ++ [parser.endToken] = before ++ token :: after ∧
          diagnostic.Names token ∧ EndsLegal before := by
      intro hlater
      obtain ⟨before, token, after, hahead, hnames, hlegal⟩ := ih hlater
      have hend : later.atEnd = false := by
        cases hmore with
        | done => simp at hlater
        | next hend => exact hend
      refine ⟨tokens ++ before, token, after, ?_, hnames,
        (endsLegal_of_turn hturn hsplit hend).append hlegal⟩
      rw [hsplit, List.append_assoc, ← endToken_of_turn hturn, hahead, List.append_assoc]
    cases outcome with
    | ok tree =>
      rw [List.filterMap_cons, Segment.diagnostic?_ok] at hmem
      exact hbehind hmem
    | error found =>
      rw [List.filterMap_cons, Segment.diagnostic?_error] at hmem
      rcases List.mem_cons.mp hmem with rfl | hlater
      · obtain ⟨mid, hrule, -⟩ := turn_of_error hturn
        exact exists_endsLegal_of_error hrule
      · exact hbehind hlater

end Parser

/-! ## The byte in front -/

theorem ascii_of_mem_blanks {byte : UInt8} (h : byte ∈ blanks) : byte.toNat < 128 := by
  have hall : blanks.all (fun blank => blank.toNat < 128) = true := by decide
  simpa using List.all_eq_true.mp hall byte h

/-- Before a token that stands behind others is the end of the last of these, or a blank, or
nothing. If that last one is a token that the language has, it ends with a byte of ASCII. -/
theorem Tiling.exists_covers {source : List UInt8} {before after : List Token} {token : Token}
    {extents : List Extent} (h : Tiling source 0 (before ++ token :: after) extents)
    (hlegal : EndsLegal before) (hlexical : ∀ other ∈ before, other.Lexical) :
    ∃ extent, token.Covers source extent ∧ ∀ i byte, extent.start = i + 1 →
      source[i]? = some byte → byte.toNat < 128 := by
  obtain ⟨stop, others, htiling, hlast⟩ := h.of_append
  cases htiling with
  | @cons _ _ extent _ _ hle hgap hcovers _ =>
    refine ⟨extent, hcovers, fun i byte hstart hbyte => ?_⟩
    rcases Nat.lt_or_ge i stop with hlt | hge
    · -- the byte is the last one that the token in front covers
      rcases hlast with ⟨-, rfl⟩ | ⟨last, other, hlast, hother, rfl⟩
      · exact absurd hlt (Nat.not_lt_zero i)
      · have hpos := hother.start_lt
        have hcontains : other.Contains i := ⟨by omega, hlt⟩
        have hkind := hlegal last hlast
        have hmem := Extent.mem_of hcontains hbyte
        have hfits := hlexical last (List.mem_of_getLast? hlast)
        rw [← hother.legal hkind, hfits.utf8_literal hkind] at hmem
        obtain ⟨c, hc, rfl⟩ := List.mem_map.mp hmem
        have hascii := (hfits.visible hkind c hc).2
        rwa [toNat_toUInt8 hascii]
    · have hcontains : Extent.Contains ⟨stop, extent.start⟩ i :=
        ⟨hge, by rw [hstart]; exact Nat.lt_succ_self i⟩
      exact ascii_of_mem_blanks (hgap byte (Extent.mem_of hcontains hbyte))

/-! ## Diagnostics before the end -/

variable {source : String} {diagnostic : Diagnostic}

/-- A diagnostic before the end of the source stands at the first byte of the token number `k`. No
other token starts there, and the byte in front, if there is one, is of ASCII. -/
structure Diagnostic.StandsOn (source : String) (diagnostic : Diagnostic) (k : Nat)
    (token : Token) (extent : Extent) : Prop where
  getElem_eq : (tokenize source)[k]? = some token
  isOn : diagnostic.IsOn source k
  start_eq : diagnostic.position.toNat = extent.start
  lexical : token.Lexical
  covers : token.Covers (utf8 source) extent
  ascii : ∀ i byte, extent.start = i + 1 → (utf8 source)[i]? = some byte → byte.toNat < 128

/-- A token other than the end of the input is one of those in front of it. -/
theorem exists_pending_eq {before after : List Token} {token : Token}
    (h : tokenize source = before ++ token :: after)
    (hne : token ≠ (Lexer.ofSource source).endToken) :
    ∃ rest, (Lexer.ofSource source).pending = before ++ token :: rest := by
  rw [tokenize_eq_pending] at h
  rcases List.eq_nil_or_concat after with rfl | ⟨rest, last, rfl⟩
  · obtain ⟨-, hlast⟩ := List.append_inj' h rfl
    exact absurd (List.cons.inj hlast).1.symm hne
  · refine ⟨rest, ?_⟩
    rw [List.concat_eq_append, ← List.cons_append, ← List.append_assoc] at h
    exact (List.append_inj' h rfl).1

/-- **A diagnostic before the end stands at the first byte of its token,** and behind one of
ASCII. -/
theorem exists_standsOn (hsize : source.utf8ByteSize < UInt32.size)
    (hmem : diagnostic ∈ (parse source).2)
    (hposition : diagnostic.position.toNat < source.utf8ByteSize) :
    ∃ k token extent, diagnostic.StandsOn source k token extent := by
  obtain ⟨segments, hturns⟩ := exists_turns (ofSource source)
  rw [hturns.parse_eq] at hmem
  obtain ⟨before, token, after, hahead, hnames, hlegal⟩ := hturns.exists_endsLegal hmem
  rw [← tokenize_eq] at hahead
  have htoken : (tokenize source)[before.length]? = some token := by
    rw [hahead, List.getElem?_append_right (Nat.le_refl _), Nat.sub_self, List.getElem?_cons_zero]
  -- the token is not the end of the input, which is behind the place of the diagnostic
  have hne : token ≠ (Lexer.ofSource source).endToken := by
    rintro rfl
    have hend : (Lexer.ofSource source).endToken.span.start.toNat = source.utf8ByteSize :=
      toNat_toUInt32 hsize
    rw [hnames.1] at hposition
    omega
  obtain ⟨rest, hpending⟩ := exists_pending_eq hahead hne
  obtain ⟨extents, htiling, -⟩ := (Lexer.coherent_ofSource source).exists_tiling
  rw [hpending] at htiling
  have hlexical : ∀ other ∈ before ++ token :: rest, other.Lexical := by
    rw [← hpending]
    exact fun other hother => lexical_of_mem_scan hother
  rw [List.forall_mem_append, List.forall_mem_cons] at hlexical
  obtain ⟨hbefore, hlegible, -⟩ := hlexical
  obtain ⟨extent, hcovers, hascii⟩ := htiling.exists_covers hlegal hbefore
  refine ⟨before.length, token, extent, htoken, hnames.isOn hsize htoken, ?_, hlegible, hcovers,
    hascii⟩
  have hfits : extent.start < UInt32.size := by
    have hlt := hcovers.start_lt
    have hle : extent.stop ≤ (utf8 source).length := hcovers.stop_le
    rw [length_utf8] at hle
    omega
  rw [hnames.1, hcovers.span_eq]
  exact toNat_toUInt32 hfits

end MonkeySyntax
