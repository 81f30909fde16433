import Mathlib.Data.List.Forall2
import MonkeySyntax.Proofs.Lexer.Cursor
import MonkeySyntax.Proofs.Lexer.Offsets

/-!
# MonkeySyntax — tokens tile their source

The tokens of a source lie in it one behind the other, and what they leave free is blank.

* **`Token.Covers source token extent`** — a token covers an extent of the bytes: its span names the
  two ends, none of the bytes is blank, and its text is these bytes. The token of a byte that starts
  no token covers that byte alone and has its character as its text.
* **`Tiling`** — from an offset on, tokens cover extents one behind the other, with blanks before,
  between and behind them.
* **`Lexer.Coherent.exists_tiling`** — the tokens still to come are a tiling, and the lexer goes
  from the end of one extent to the end of the next.
-/

namespace MonkeySyntax

/-- A space, a tab, a newline and a carriage return. -/
def blanks : List UInt8 :=
  [0x20, 0x09, 0x0a, 0x0d]

theorem isBlank_iff {byte : UInt8} : isBlank byte = true ↔ byte ∈ blanks := by
  simp [isBlank, blanks, or_assoc]

/-! ## Extents -/

/-- The bytes from `start` up to, and not including, `stop`. -/
structure Extent where
  start : Nat
  stop : Nat

namespace Extent

/-- The bytes of a source that lie in the extent. -/
def of (source : List UInt8) (extent : Extent) : List UInt8 :=
  (source.drop extent.start).take (extent.stop - extent.start)

def Contains (extent : Extent) (i : Nat) : Prop :=
  extent.start ≤ i ∧ i < extent.stop

/-- The two ends as words. -/
def span (extent : Extent) : Span :=
  ⟨extent.start.toUInt32, extent.stop.toUInt32⟩

theorem getElem?_of {source : List UInt8} {extent : Extent} {i : Nat} (h : extent.Contains i) :
    (extent.of source)[i - extent.start]? = source[i]? := by
  rw [of, List.getElem?_take_of_lt (Nat.sub_lt_sub_right h.1 h.2), List.getElem?_drop,
    Nat.add_sub_cancel' h.1]

theorem mem_of {source : List UInt8} {extent : Extent} {i : Nat} {byte : UInt8}
    (h : extent.Contains i) (hbyte : source[i]? = some byte) : byte ∈ extent.of source :=
  List.mem_of_getElem? ((getElem?_of h).trans hbyte)

theorem head?_of {source : List UInt8} {extent : Extent} (h : extent.start < extent.stop) :
    (extent.of source).head? = source[extent.start]? := by
  have hfirst : extent.Contains extent.start := ⟨Nat.le_refl _, h⟩
  rw [← getElem?_of hfirst, Nat.sub_self, List.head?_eq_getElem?]

/-- An extent and what lies behind it. -/
theorem of_append_drop {source : List UInt8} {extent : Extent} (h : extent.start ≤ extent.stop) :
    extent.of source ++ source.drop extent.stop = source.drop extent.start := by
  have hdrop : source.drop extent.stop =
      (source.drop extent.start).drop (extent.stop - extent.start) := by
    rw [List.drop_drop, Nat.add_sub_cancel' h]
  rw [hdrop]
  exact List.take_append_drop _ _

end Extent

namespace Token

/-- The bytes of a token, read off its text. -/
def bytes (token : Token) : List UInt8 :=
  if token.kind = .illegal then token.literal.toList.map Char.toUInt8 else utf8 token.literal

/-- The token covers an extent of the source. -/
structure Covers (source : List UInt8) (token : Token) (extent : Extent) : Prop where
  start_lt : extent.start < extent.stop
  stop_le : extent.stop ≤ source.length
  span_eq : token.span = extent.span
  ink : ∀ byte ∈ extent.of source, byte ∉ blanks
  legal : token.kind ≠ .illegal → utf8 token.literal = extent.of source
  illegal : token.kind = .illegal → extent.stop = extent.start + 1 ∧
    ∃ byte c, extent.of source = [byte] ∧ token.literal = String.ofList [c] ∧
      c.toNat = byte.toNat

/-- The bytes that a token covers are read off its text. -/
theorem Covers.bytes_eq {source : List UInt8} {token : Token} {extent : Extent}
    (h : token.Covers source extent) : token.bytes = extent.of source := by
  rw [bytes]
  split
  · next hkind =>
    obtain ⟨-, byte, c, hof, hliteral, hcode⟩ := h.illegal hkind
    obtain rfl : c = Char.ofUInt8 byte := by rw [← Char.toNat_inj, hcode, toNat_ofUInt8]
    rw [hliteral, hof, String.toList_ofList, List.map_singleton, toUInt8_ofUInt8]
  · next hkind => exact h.legal hkind

end Token

/-! ## Lexemes -/

theorem TokenKind.ofWord_ne_illegal (word : String) : ofWord word ≠ .illegal := by
  have hall : ∀ entry ∈ keywords, entry.2 ≠ .illegal := by decide
  unfold ofWord
  split
  · next entry hentry => exact hall entry (List.mem_of_find?_eq_some hentry)
  · decide

theorem TokenKind.symbols_ne_illegal : ∀ entry ∈ symbols, entry.2 ≠ .illegal := by
  decide

/-- A lexeme is of ASCII, or it is a byte that starts no token. -/
theorem lexeme_ascii_or_illegal (byte : UInt8) (rest : List UInt8) :
    ((lexeme (byte :: rest)).1 ≠ .illegal ∧
        ∀ other ∈ (lexeme (byte :: rest)).2, other.toNat < 128) ∨
      lexeme (byte :: rest) = (.illegal, [byte]) := by
  obtain ⟨entry, hmem, -, h⟩ | ⟨-, h⟩ | ⟨-, h⟩ | h := lexeme_cases byte rest
  · rw [h]
    exact Or.inl ⟨TokenKind.symbols_ne_illegal entry hmem, ascii_of_mem_symbols hmem⟩
  · rw [h]
    exact Or.inl ⟨TokenKind.ofWord_ne_illegal _, fun other hother =>
      toNat_lt_of_isLetter (List.mem_takeWhile_imp hother)⟩
  · rw [h]
    exact Or.inl ⟨TokenKind.noConfusion, fun other hother =>
      toNat_lt_of_isDigit (List.mem_takeWhile_imp hother)⟩
  · exact Or.inr h

/-- A lexeme that begins with a byte that is no blank has no blank. -/
theorem lexeme_not_blank {byte : UInt8} (hblank : isBlank byte = false) (rest : List UInt8) :
    ∀ other ∈ (lexeme (byte :: rest)).2, isBlank other = false := by
  intro other hother
  obtain ⟨entry, hmem, -, h⟩ | ⟨-, h⟩ | ⟨-, h⟩ | h := lexeme_cases byte rest
  · rw [h] at hother
    exact symbols_not_blank entry hmem other hother
  · rw [h] at hother
    exact not_isBlank (Or.inl (List.mem_takeWhile_imp hother))
  · rw [h] at hother
    exact not_isBlank (Or.inr (List.mem_takeWhile_imp hother))
  · rw [h, List.mem_singleton] at hother
    rw [hother]
    exact hblank

/-- A token covers its lexeme. -/
theorem covers_of_drop_eq {source : List UInt8} {start : Nat} {byte : UInt8} {rest : List UInt8}
    (hdrop : source.drop start = byte :: rest) (hblank : isBlank byte = false) :
    let text := (lexeme (byte :: rest)).2
    (Token.ofOffsets (lexeme (byte :: rest)).1 (ofBytes text) start (start + text.length)).Covers
      source ⟨start, start + text.length⟩ := by
  have hfront : (lexeme (byte :: rest)).2 <+: byte :: rest := lexeme_isPrefix _
  have hlength : 0 < (lexeme (byte :: rest)).2.length :=
    List.length_pos_iff.mpr (lexeme_ne_nil byte rest)
  have hof : Extent.of source ⟨start, start + (lexeme (byte :: rest)).2.length⟩ =
      (lexeme (byte :: rest)).2 := by
    rw [Extent.of, hdrop, Nat.add_sub_cancel_left, ← List.prefix_iff_eq_take.mp hfront]
  have hstop : start + (lexeme (byte :: rest)).2.length ≤ source.length := by
    have hlong := hfront.length_le
    have hleft := congrArg List.length hdrop
    rw [List.length_drop] at hleft
    omega
  refine ⟨Nat.lt_add_of_pos_right hlength, hstop, rfl, ?_, ?_, ?_⟩
  · intro other hother
    rw [hof] at hother
    rw [← isBlank_iff, lexeme_not_blank hblank rest other hother]
    exact Bool.false_ne_true
  · intro hkind
    rw [hof]
    rcases lexeme_ascii_or_illegal byte rest with ⟨-, hascii⟩ | hlexeme
    · exact utf8_ofBytes hascii
    · exact absurd (congrArg Prod.fst hlexeme) hkind
  · intro hkind
    rcases lexeme_ascii_or_illegal byte rest with ⟨hlegal, -⟩ | hlexeme
    · exact absurd hkind hlegal
    · rw [hof, hlexeme]
      exact ⟨rfl, byte, _, rfl, rfl, toNat_ofUInt8 byte⟩

/-! ## Tilings -/

/-- From `offset` on, the tokens cover the extents one behind the other, and all other bytes of the
source are blanks. -/
inductive Tiling (source : List UInt8) : (offset : Nat) → List Token → List Extent → Prop where
  | nil {offset : Nat} (hgap : ∀ byte ∈ source.drop offset, byte ∈ blanks) :
      Tiling source offset [] []
  | cons {offset : Nat} {token : Token} {extent : Extent} {tokens : List Token}
      {extents : List Extent} (hle : offset ≤ extent.start)
      (hgap : ∀ byte ∈ Extent.of source ⟨offset, extent.start⟩, byte ∈ blanks)
      (hcovers : token.Covers source extent) (hrest : Tiling source extent.stop tokens extents) :
      Tiling source offset (token :: tokens) (extent :: extents)

/-- The bytes of a source from `offset` on: what lies before, between and behind the extents is
taken from the source, and the rest from the texts of the tokens. -/
def refill (source : List UInt8) : (offset : Nat) → List Token → List Extent → List UInt8
  | offset, token :: tokens, extent :: extents =>
    Extent.of source ⟨offset, extent.start⟩ ++ token.bytes ++
      refill source extent.stop tokens extents
  | offset, _, _ => source.drop offset

namespace Tiling

variable {source : List UInt8} {offset : Nat} {tokens : List Token} {extents : List Extent}

theorem forall₂_covers (h : Tiling source offset tokens extents) :
    List.Forall₂ (Token.Covers source) tokens extents := by
  induction h with
  | nil hgap => exact .nil
  | cons hle hgap hcovers hrest ih => exact .cons hcovers ih

theorem offset_le (h : Tiling source offset tokens extents) :
    ∀ extent ∈ extents, offset ≤ extent.start := by
  induction h with
  | nil hgap => simp
  | cons hle hgap hcovers hrest ih =>
    intro extent hextent
    rcases List.mem_cons.mp hextent with rfl | hextent
    · exact hle
    · exact Nat.le_trans hle (Nat.le_trans (Nat.le_of_lt hcovers.start_lt) (ih extent hextent))

/-- The extents lie one behind the other. -/
theorem pairwise (h : Tiling source offset tokens extents) :
    extents.Pairwise fun first second => first.stop ≤ second.start := by
  induction h with
  | nil hgap => exact .nil
  | cons hle hgap hcovers hrest ih => exact .cons hrest.offset_le ih

/-- The blanks are the bytes that lie in no extent. -/
theorem mem_blanks_iff (h : Tiling source offset tokens extents) {i : Nat} {byte : UInt8}
    (hi : offset ≤ i) (hbyte : source[i]? = some byte) :
    byte ∈ blanks ↔ ∀ extent ∈ extents, ¬ extent.Contains i := by
  induction h with
  | nil hgap =>
    refine ⟨fun _ _ hextent => absurd hextent List.not_mem_nil, fun _ => hgap byte ?_⟩
    rw [← Nat.add_sub_cancel' hi, ← List.getElem?_drop] at hbyte
    exact List.mem_of_getElem? hbyte
  | @cons offset token extent tokens extents hle hgap hcovers hrest ih =>
    rw [List.forall_mem_cons]
    by_cases hstart : i < extent.start
    · have hblank : byte ∈ blanks := hgap byte (Extent.mem_of ⟨hi, hstart⟩ hbyte)
      refine iff_of_true hblank ⟨fun hcontains => hstart.not_ge hcontains.1, ?_⟩
      intro other hother hcontains
      have hbehind : extent.stop ≤ other.start := hrest.offset_le other hother
      have hpos : extent.start < extent.stop := hcovers.start_lt
      have hbefore : other.start ≤ i := hcontains.1
      omega
    · by_cases hstop : i < extent.stop
      · have hcontains : extent.Contains i := ⟨Nat.le_of_not_lt hstart, hstop⟩
        have hink : byte ∉ blanks := hcovers.ink byte (Extent.mem_of hcontains hbyte)
        simp [hink, hcontains]
      · have hnot : ¬ extent.Contains i := fun hcontains => hstop hcontains.2
        simpa [hnot] using ih (Nat.le_of_not_lt hstop)

/-- Tokens behind others tile what is left behind the last of these. -/
theorem of_append {front : List Token} (h : Tiling source offset (front ++ tokens) extents) :
    ∃ stop others, Tiling source stop tokens others ∧
      (front = [] ∧ stop = offset ∨ ∃ last extent, front.getLast? = some last ∧
        last.Covers source extent ∧ extent.stop = stop) := by
  induction front generalizing offset extents with
  | nil => exact ⟨offset, extents, h, Or.inl ⟨rfl, rfl⟩⟩
  | cons token front ih =>
    rw [List.cons_append] at h
    cases h with
    | cons hle hgap hcovers hrest =>
      obtain ⟨stop, others, htiling, hlast⟩ := ih hrest
      refine ⟨stop, others, htiling, Or.inr ?_⟩
      rcases hlast with ⟨rfl, hstop⟩ | ⟨last, extent, hlast, hcovers, hstop⟩
      · exact ⟨token, _, rfl, hcovers, hstop.symm⟩
      · exact ⟨last, extent, by rw [List.getLast?_cons, hlast]; rfl, hcovers, hstop⟩

/-- **The bytes are recovered from the tokens and what lies between them.** -/
theorem refill_eq (h : Tiling source offset tokens extents) :
    refill source offset tokens extents = source.drop offset := by
  induction h with
  | nil hgap => rfl
  | cons hle hgap hcovers hrest ih =>
    rw [refill, ih, hcovers.bytes_eq, List.append_assoc,
      Extent.of_append_drop (Nat.le_of_lt hcovers.start_lt)]
    exact Extent.of_append_drop hle

end Tiling

/-! ## The tokens of a lexer -/

namespace Lexer

variable {lexer : Lexer}

/-- What stands at a byte that is no blank covers an extent, and the lexer goes to its end. -/
theorem covers_tokenHere {position : Nat} (h : position < lexer.source.size)
    (hblank : isBlank (lexer.seek position).held = false) :
    ∃ stop, (lexer.seek position).tokenHere.2 = lexer.seek stop ∧
      (lexer.seek position).tokenHere.1.Covers lexer.source.toList ⟨position, stop⟩ := by
  have hbytes := drop_eq_held_cons h
  rw [tokenHere_seek h, hbytes]
  exact ⟨_, rfl, covers_of_drop_eq hbytes hblank⟩

/-- Before the first byte that is no blank there are blanks. -/
theorem gap_firstInk (lexer : Lexer) (position : Nat) :
    ∀ byte ∈ Extent.of lexer.source.toList ⟨position, lexer.firstInk position⟩, byte ∈ blanks := by
  intro byte hbyte
  rw [Extent.of, firstInk, Nat.add_sub_cancel_left,
    ← List.prefix_iff_eq_take.mp (List.takeWhile_prefix isBlank)] at hbyte
  exact isBlank_iff.mp (List.mem_takeWhile_imp hbyte)

/-- The tokens still to come tile what is left, and the lexer goes from the end of one extent to the
end of the next. -/
theorem Coherent.exists_tiling (h : lexer.Coherent) :
    ∃ extents, Tiling lexer.source.toList lexer.position lexer.pending extents ∧
      ∀ i extent, extents[i]? = some extent → (lexer.after (i + 1)).position = extent.stop := by
  induction hpending : lexer.pending generalizing lexer with
  | nil =>
    -- nothing is to come, so all that is left is in front of the end
    have hgap := gap_firstInk lexer lexer.position
    rw [h.firstInk_eq_of_pending_nil hpending, Extent.of, ← length_drop_source,
      List.take_length] at hgap
    exact ⟨[], .nil hgap, by simp⟩
  | cons token rest ih =>
    have hlt := h.firstInk_lt_of_pending hpending
    obtain ⟨stop, hstop, hnext, hrest⟩ := h.nextToken_of_pending hpending
    obtain ⟨other, hlater, hcovers⟩ := covers_tokenHere hlt (isBlank_held_firstInk hlt)
    rw [← h.nextToken_eq_tokenHere hpending, hnext] at hlater hcovers
    obtain rfl : stop = other := congrArg Lexer.position hlater
    obtain ⟨extents, htiling, hends⟩ := ih (coherent_seek hstop) hrest
    refine ⟨⟨lexer.firstInk lexer.position, stop⟩ :: extents,
      .cons (Nat.le_add_right _ _) (gap_firstInk _ _) hcovers htiling, ?_⟩
    intro i extent hextent
    rw [Lexer.after, hnext]
    cases i with
    | zero =>
      obtain rfl : _ = extent := Option.some.inj hextent
      rfl
    | succ i => exact hends i extent hextent

end Lexer

/-- **The tokens of a source tile it.** There is one end of the input, behind all other tokens, and
these cover extents of the source one behind the other. A byte is a blank exactly if it lies in none
of them. So the source is recovered from the tokens and what lies between them. The lexer stands at
the end of an extent when it has given out its token, and never behind the end of the source. -/
theorem tokenize_tiles (source : String) :
    ∃ tokens extents, tokenize source = tokens ++ [.endOfInput source.utf8ByteSize] ∧
      (∀ token ∈ tokens, token.kind ≠ .eof) ∧
      List.Forall₂ (Token.Covers (utf8 source)) tokens extents ∧
      extents.Pairwise (fun first second => first.stop ≤ second.start) ∧
      (∀ i byte, (utf8 source)[i]? = some byte →
        (byte ∈ blanks ↔ ∀ extent ∈ extents, ¬ extent.Contains i)) ∧
      refill (utf8 source) 0 tokens extents = utf8 source ∧
      (∀ i extent, extents[i]? = some extent →
        ((Lexer.ofSource source).after (i + 1)).position = extent.stop) ∧
      ∀ n, ((Lexer.ofSource source).after n).position ≤ source.utf8ByteSize := by
  have hcoherent := Lexer.coherent_ofSource source
  obtain ⟨extents, htiling, hends⟩ := hcoherent.exists_tiling
  refine ⟨_, extents, tokenize_eq_pending source,
    fun token => Lexer.kind_ne_eof_of_mem_pending, htiling.forall₂_covers, htiling.pairwise,
    fun i byte hbyte => htiling.mem_blanks_iff (Nat.zero_le i) hbyte, htiling.refill_eq, hends, ?_⟩
  intro n
  obtain ⟨stop, hstop, hafter⟩ := hcoherent.exists_seek_after n
  rw [hafter]
  exact hstop

end MonkeySyntax
