import Mathlib.Data.List.TakeWhile
import MonkeySyntax.Proofs.Lexer.Lexemes
import MonkeySyntax.Proofs.Lexer.Lexical
import MonkeySyntax.Proofs.Text.Lossy

/-!
# MonkeySyntax — the lexer as a cursor

The lexer goes byte by byte and looks at what it holds; `scan` reads the tokens off the list of the
bytes. This module shows that they agree.

* **`Lexer.Coherent`** — what is known of a lexer between two requests: it stands within the source,
  it holds the byte at its place, and it reads next the one behind that. Such a lexer is determined
  by its place (`Coherent.eq_seek`), so every step is stated for `lexer.seek position`.
* **`tokenHere_seek`** — what stands at a byte that is no blank is its lexeme.
* **`Coherent.nextToken_of_pending`** — the next token is the first one still to come, and the
  others are still to come then; at the end the token is the end of the input.
* **`collect_eq`**, **`tokenize_eq_pending`** — what is collected are the tokens still to come and
  the end of the input.
-/

namespace MonkeySyntax

namespace Lexer

variable {lexer : Lexer} {position : Nat} {accept : UInt8 → Bool}

/-! ## Places -/

/-- The lexer at a place, where it holds the byte that stands there. -/
def seek (lexer : Lexer) (position : Nat) : Lexer :=
  { lexer with
    position
    readPosition := position + 1
    held := lexer.source.getD position 0 }

/-- What is known of a lexer between two requests. -/
structure Coherent (lexer : Lexer) : Prop where
  position_le : lexer.position ≤ lexer.source.size
  readPosition : lexer.readPosition = lexer.position + 1
  held : lexer.held = lexer.source.getD lexer.position 0

@[simp]
theorem source_seek : (lexer.seek position).source = lexer.source := rfl

@[simp]
theorem position_seek : (lexer.seek position).position = position := rfl

@[simp]
theorem slice_seek : (lexer.seek position).slice = lexer.slice := rfl

theorem pending_seek :
    (lexer.seek position).pending = scan position 0 (lexer.source.toList.drop position) := rfl

theorem Coherent.eq_seek (h : lexer.Coherent) : lexer.seek lexer.position = lexer := by
  rw [seek, ← h.readPosition, ← h.held]

theorem coherent_seek (h : position ≤ lexer.source.size) : (lexer.seek position).Coherent :=
  ⟨h, rfl, rfl⟩

theorem coherent_ofSource (text : String) : (ofSource text).Coherent :=
  coherent_seek (Nat.zero_le _)

/-! ## Bytes -/

theorem readByte_seek : (lexer.seek position).readByte = lexer.seek (position + 1) := rfl

theorem following_seek :
    (lexer.seek position).following = lexer.source.getD (position + 1) 0 := rfl

theorem atEnd_seek :
    (lexer.seek position).atEnd = decide (lexer.source.size ≤ position) := rfl

theorem length_drop_source (position : Nat) :
    (lexer.source.toList.drop position).length = lexer.source.size - position := by
  simp

/-- Within the source, the lexer holds the first of the bytes that are left. -/
theorem drop_eq_held_cons (h : position < lexer.source.size) :
    lexer.source.toList.drop position =
      (lexer.seek position).held :: lexer.source.toList.drop (position + 1) := by
  rw [List.drop_eq_getElem_cons (by simpa using h)]
  simp [seek, h]

/-- The byte behind the held one is the first of the others, if there is any. -/
theorem following_seek_eq_head (lexer : Lexer) (position : Nat) :
    (lexer.seek position).following =
      (lexer.source.toList.drop (position + 1)).head?.getD 0 := by
  rw [following_seek, List.head?_drop, Array.getElem?_toList, Array.getD_eq_getD_getElem?]

theorem readUpTo_seek (n : Nat) (hn : lexer.source.size - position ≤ n) :
    (lexer.seek position).readUpTo accept n =
      lexer.seek
        (position + ((lexer.source.toList.drop position).takeWhile accept).length) := by
  -- the bound goes down by one with each byte, as do the bytes that are left
  induction n generalizing position with
  | zero =>
    rw [List.drop_eq_nil_of_le (by simpa using Nat.sub_eq_zero_iff_le.mp (Nat.le_zero.mp hn))]
    rfl
  | succ n ih =>
    by_cases hend : lexer.source.size ≤ position
    · rw [readUpTo, atEnd_seek, decide_eq_true hend, List.drop_eq_nil_of_le (by simpa using hend)]
      rfl
    · rw [readUpTo, atEnd_seek, decide_eq_false hend, drop_eq_held_cons (Nat.lt_of_not_le hend)]
      cases haccept : accept (lexer.seek position).held with
      | false => simp [haccept]
      | true =>
        rw [List.takeWhile_cons_of_pos haccept, List.length_cons, readByte_seek,
          ← Nat.add_assoc, Nat.add_right_comm, ← ih (by omega)]
        rfl

/-- To read on over the bytes that are accepted is to go behind the run of them. -/
theorem readWhile_seek :
    (lexer.seek position).readWhile accept =
      lexer.seek
        (position + ((lexer.source.toList.drop position).takeWhile accept).length) :=
  readUpTo_seek _ (Nat.le_refl _)

theorem slice_eq (start n : Nat) :
    lexer.slice start (start + n) = ofUtf8Lossy ((lexer.source.toList.drop start).take n) := by
  rw [slice, Array.toList_extract, List.extract_eq_take_drop, Nat.add_sub_cancel_left]

/-! ## The token at a byte -/

theorem eq_toUInt8_of_ofUInt8_eq {byte : UInt8} {c : Char} (h : Char.ofUInt8 byte = c) :
    byte = c.toUInt8 := by
  rw [← h, toUInt8_ofUInt8]

/-- The symbol at the held byte is the longest one that the bytes begin with, and the lexer goes to
its last byte. -/
theorem symbol?_seek (h : position < lexer.source.size) :
    (lexer.seek position).symbol? =
      (symbolAt? (lexer.source.toList.drop position)).map fun entry =>
        (entry.2, lexer.seek (position + (utf8 entry.1).length - 1)) := by
  have hbytes := drop_eq_held_cons h
  have hfollowing := following_seek_eq_head lexer position
  generalize lexer.source.toList.drop (position + 1) = rest at hbytes hfollowing
  -- an equals sign follows if and only if the other bytes begin with one
  have hequal : (lexer.seek position).following = 0x3d → ∃ others, rest = 0x3d :: others := by
    intro heq
    cases rest with
    | nil => exact absurd (hfollowing.symm.trans heq) (by decide)
    | cons byte others => exact ⟨others, congrArg (· :: others) (hfollowing.symm.trans heq)⟩
  have hshort : ∀ entry ∈ TokenKind.symbols, (lexer.seek position).following ≠ 0x3d →
      symbolAt? (utf8 entry.1 ++ rest) = some entry := by
    intro entry hentry hne
    apply symbolAt?_of_mem hentry
    intro _ byte hbyte
    rw [Option.mem_def.mp hbyte] at hfollowing
    rwa [← Option.getD_some (a := byte), ← hfollowing]
  rw [hbytes]
  unfold symbol?
  split
  case h_1 heq =>
    rw [eq_toUInt8_of_ofUInt8_eq heq]
    by_cases hnext : (lexer.seek position).following = 0x3d
    · obtain ⟨others, rfl⟩ := hequal hnext
      rw [if_pos hnext]
      rfl
    · change _ = (symbolAt? (utf8 "=" ++ rest)).map _
      rw [if_neg hnext, hshort ("=", .assign) (by decide) hnext]
      rfl
  case h_2 heq =>
    rw [eq_toUInt8_of_ofUInt8_eq heq]
    by_cases hnext : (lexer.seek position).following = 0x3d
    · obtain ⟨others, rfl⟩ := hequal hnext
      rw [if_pos hnext]
      rfl
    · change _ = (symbolAt? (utf8 "!" ++ rest)).map _
      rw [if_neg hnext, hshort ("!", .bang) (by decide) hnext]
      rfl
  case h_15 =>
    have hfirsts : ∀ entry ∈ TokenKind.symbols, (utf8 entry.1).head?.all (fun first =>
        "=!;()\x7b\x7d,+-/*<>".toList.contains (Char.ofUInt8 first)) = true := by
      decide
    have hnone : symbolAt? ((lexer.seek position).held :: rest) = none := by
      apply symbolAt?_eq_none_of_head?
      intro entry hentry hhead
      have hmem := hfirsts entry hentry
      rw [hhead, Option.all_some, List.contains_iff_mem] at hmem
      simp_all
    rw [hnone]
    rfl
  -- what the other symbols begin with begins no other symbol
  all_goals
    rename_i heq
    rw [eq_toUInt8_of_ofUInt8_eq heq]
    rfl

/-- The text between the two ends of some bytes of ASCII is these bytes, one by one. -/
theorem slice_of_front {bytes : List UInt8} (hfront : bytes <+: lexer.source.toList.drop position)
    (hascii : ∀ byte ∈ bytes, byte.toNat < 128) :
    lexer.slice position (position + bytes.length) = ofBytes bytes := by
  rw [slice_eq, ← List.prefix_iff_eq_take.mp hfront, ofUtf8Lossy_of_ascii hascii]

/-- **What stands at a byte is its lexeme.** -/
theorem tokenHere_seek (h : position < lexer.source.size) :
    (lexer.seek position).tokenHere =
      let text := (lexeme (lexer.source.toList.drop position)).2
      (.ofOffsets (lexeme (lexer.source.toList.drop position)).1 (ofBytes text) position
          (position + text.length),
        lexer.seek (position + text.length)) := by
  have hbytes := drop_eq_held_cons h
  rw [tokenHere, symbol?_seek h]
  cases hsymbol : symbolAt? (lexer.source.toList.drop position) with
  | some entry =>
    have hmem : entry ∈ TokenKind.symbols := List.mem_of_find?_eq_some hsymbol
    have hlength : 0 < (utf8 entry.1).length :=
      List.length_pos_iff.mpr (utf8_ne_nil_of_mem_symbols hmem)
    have hlexeme : lexeme (lexer.source.toList.drop position) = (entry.2, utf8 entry.1) := by
      unfold lexeme
      rw [hsymbol]
    simp only [hlexeme, Option.map_some, readByte_seek, position_seek, slice_seek]
    rw [Nat.sub_add_cancel (by omega),
      slice_of_front (symbolAt?_isPrefix hsymbol) (ascii_of_mem_symbols hmem)]
  | none =>
    have hlexeme : lexeme (lexer.source.toList.drop position) =
        if isLetter (lexer.seek position).held then
          let word := (lexer.source.toList.drop position).takeWhile isLetter
          (.ofWord (ofBytes word), word)
        else if isDigit (lexer.seek position).held then
          (.integer, (lexer.source.toList.drop position).takeWhile isDigit)
        else
          (.illegal, [(lexer.seek position).held]) := by
      unfold lexeme
      rw [hsymbol]
      simp only [hbytes]
    simp only [hlexeme, Option.map_none, readWhile_seek, readByte_seek, position_seek, slice_seek]
    split
    · rw [slice_of_front (List.takeWhile_prefix _) fun byte hbyte =>
        toNat_lt_of_isLetter (List.mem_takeWhile_imp hbyte)]
    · split
      · rw [slice_of_front (List.takeWhile_prefix _) fun byte hbyte =>
          toNat_lt_of_isDigit (List.mem_takeWhile_imp hbyte)]
      · rfl

/-! ## The next token -/

/-- The place of the first byte that is no blank, from a place on. -/
def firstInk (lexer : Lexer) (position : Nat) : Nat :=
  position + ((lexer.source.toList.drop position).takeWhile isBlank).length

theorem firstInk_le (h : position ≤ lexer.source.size) :
    lexer.firstInk position ≤ lexer.source.size := by
  have hlength := (List.takeWhile_prefix (l := lexer.source.toList.drop position) isBlank).length_le
  rw [length_drop_source] at hlength
  rw [firstInk]
  omega

theorem drop_firstInk :
    lexer.source.toList.drop (lexer.firstInk position) =
      (lexer.source.toList.drop position).dropWhile isBlank := by
  rw [dropWhile_eq_drop, List.drop_drop, firstInk]

theorem isBlank_held_firstInk (h : lexer.firstInk position < lexer.source.size) :
    isBlank (lexer.seek (lexer.firstInk position)).held = false := by
  have hbytes := drop_eq_held_cons h
  rw [drop_firstInk] at hbytes
  simpa [hbytes] using List.head?_dropWhile_not isBlank (lexer.source.toList.drop position)

theorem pending_firstInk :
    (lexer.seek (lexer.firstInk position)).pending = (lexer.seek position).pending := by
  rw [pending_seek, pending_seek, scan_dropWhile position, drop_firstInk]
  rfl

theorem nextToken_seek (h : position ≤ lexer.source.size) :
    (lexer.seek position).nextToken =
      if lexer.firstInk position < lexer.source.size then
        (lexer.seek (lexer.firstInk position)).tokenHere
      else
        (lexer.endToken, lexer.seek lexer.source.size) := by
  rw [nextToken, readWhile_seek, ← firstInk, atEnd_seek]
  split
  · next hend =>
    have hsize : lexer.firstInk position = lexer.source.size :=
      Nat.le_antisymm (firstInk_le h) (of_decide_eq_true hend)
    rw [if_neg (by omega), hsize]
    rfl
  · next hend => rw [if_pos (Nat.lt_of_not_le fun hle => hend (decide_eq_true hle))]

/-- The token at a byte is the first one still to come there, and the others are to come behind
it. -/
theorem tokenHere_of_pending (h : position < lexer.source.size)
    (hblank : isBlank (lexer.seek position).held = false) :
    ∃ token stop, position < stop ∧ stop ≤ lexer.source.size ∧
      (lexer.seek position).tokenHere = (token, lexer.seek stop) ∧
      (lexer.seek position).pending = token :: (lexer.seek stop).pending := by
  have hbytes := drop_eq_held_cons h
  have hlength := (lexeme_isPrefix (lexer.source.toList.drop position)).length_le
  rw [length_drop_source] at hlength
  have hpos : 0 < (lexeme (lexer.source.toList.drop position)).2.length := by
    rw [hbytes]
    exact List.length_pos_iff.mpr (lexeme_ne_nil _ _)
  refine ⟨_, _, Nat.lt_add_of_pos_right hpos, by omega, tokenHere_seek h, ?_⟩
  rw [pending_seek, pending_seek, ← List.drop_drop, hbytes, scan_cons hblank]

namespace Coherent

theorem firstInk_eq_of_pending_nil (h : lexer.Coherent) (hpending : lexer.pending = []) :
    lexer.firstInk lexer.position = lexer.source.size := by
  apply Nat.le_antisymm (firstInk_le h.position_le)
  apply Nat.le_of_not_lt
  intro hlt
  obtain ⟨token, stop, -, -, -, htoken⟩ := tokenHere_of_pending hlt (isBlank_held_firstInk hlt)
  rw [pending_firstInk, h.eq_seek, hpending] at htoken
  exact List.cons_ne_nil _ _ htoken.symm

/-- **At the end, the next token is the end of the input.** -/
theorem nextToken_of_pending_nil (h : lexer.Coherent) (hpending : lexer.pending = []) :
    lexer.nextToken = (lexer.endToken, lexer.seek lexer.source.size) := by
  have hnext := nextToken_seek h.position_le
  have hend := h.firstInk_eq_of_pending_nil hpending
  rwa [h.eq_seek, if_neg (Nat.not_lt_of_le (Nat.le_of_eq hend.symm))] at hnext

theorem firstInk_lt_of_pending {token : Token} {rest : List Token} (h : lexer.Coherent)
    (hpending : lexer.pending = token :: rest) :
    lexer.firstInk lexer.position < lexer.source.size := by
  apply Nat.lt_of_not_le
  intro hend
  have hnil : (lexer.seek (lexer.firstInk lexer.position)).pending = [] := by
    rw [pending_seek, List.drop_eq_nil_of_le (by simpa using hend), scan_nil]
  rw [pending_firstInk, h.eq_seek, hpending] at hnil
  exact List.cons_ne_nil _ _ hnil

/-- Before the end, the next token stands at the first byte that is no blank. -/
theorem nextToken_eq_tokenHere {token : Token} {rest : List Token} (h : lexer.Coherent)
    (hpending : lexer.pending = token :: rest) :
    lexer.nextToken = (lexer.seek (lexer.firstInk lexer.position)).tokenHere := by
  have hnext := nextToken_seek h.position_le
  rwa [h.eq_seek, if_pos (h.firstInk_lt_of_pending hpending)] at hnext

/-- **Before the end, the next token is the first one still to come,** and the others are still to
come then. -/
theorem nextToken_of_pending {token : Token} {rest : List Token} (h : lexer.Coherent)
    (hpending : lexer.pending = token :: rest) :
    ∃ stop ≤ lexer.source.size, lexer.nextToken = (token, lexer.seek stop) ∧
      (lexer.seek stop).pending = rest := by
  have hlt := h.firstInk_lt_of_pending hpending
  obtain ⟨first, stop, -, hstop, hhere, hfirst⟩ :=
    tokenHere_of_pending hlt (isBlank_held_firstInk hlt)
  rw [pending_firstInk, h.eq_seek, hpending] at hfirst
  obtain ⟨rfl, rfl⟩ := List.cons.inj hfirst
  exact ⟨stop, hstop, (h.nextToken_eq_tokenHere hpending).trans hhere, rfl⟩

/-- To ask for a token moves the lexer within the source and does no more. -/
theorem exists_seek_nextToken (h : lexer.Coherent) :
    ∃ stop ≤ lexer.source.size, lexer.nextToken.2 = lexer.seek stop := by
  cases hpending : lexer.pending with
  | nil =>
    rw [h.nextToken_of_pending_nil hpending]
    exact ⟨_, Nat.le_refl _, rfl⟩
  | cons token rest =>
    obtain ⟨stop, hstop, hnext, -⟩ := h.nextToken_of_pending hpending
    rw [hnext]
    exact ⟨stop, hstop, rfl⟩

theorem pending_nextToken (h : lexer.Coherent) :
    lexer.nextToken.2.pending = lexer.pending.tail := by
  cases hpending : lexer.pending with
  | nil =>
    rw [h.nextToken_of_pending_nil hpending, pending_seek, ← Array.length_toList, List.drop_length]
    exact scan_nil _ _
  | cons token rest =>
    obtain ⟨stop, -, hnext, hrest⟩ := h.nextToken_of_pending hpending
    rw [hnext]
    exact hrest

/-- The next token is the first one still to come, or the end of the input. -/
theorem nextToken_eq_headD (h : lexer.Coherent) :
    lexer.nextToken.1 = lexer.pending.headD lexer.endToken := by
  cases hpending : lexer.pending with
  | nil => rw [h.nextToken_of_pending_nil hpending]; rfl
  | cons token rest =>
    obtain ⟨stop, -, hnext, -⟩ := h.nextToken_of_pending hpending
    rw [hnext]
    rfl

/-- The next token is the first one still to come, the end of the input included. -/
theorem head?_pending (h : lexer.Coherent) :
    (lexer.pending ++ [lexer.endToken]).head? = some lexer.nextToken.1 := by
  rw [h.nextToken_eq_headD]
  cases lexer.pending <;> rfl

theorem coherent_nextToken (h : lexer.Coherent) : lexer.nextToken.2.Coherent := by
  obtain ⟨stop, hstop, hnext⟩ := h.exists_seek_nextToken
  rw [hnext]
  exact coherent_seek hstop

theorem endToken_nextToken (h : lexer.Coherent) :
    lexer.nextToken.2.endToken = lexer.endToken := by
  obtain ⟨stop, -, hnext⟩ := h.exists_seek_nextToken
  rw [hnext]
  rfl

end Coherent

/-! ## One token after the other -/

/-- The lexer after `n` more tokens. -/
def after : (n : Nat) → Lexer → Lexer
  | 0, lexer => lexer
  | n + 1, lexer => lexer.nextToken.2.after n

/-- To ask for tokens moves the lexer within the source and does no more. -/
theorem Coherent.exists_seek_after (h : lexer.Coherent) (n : Nat) :
    ∃ stop ≤ lexer.source.size, lexer.after n = lexer.seek stop := by
  induction n generalizing lexer with
  | zero => exact ⟨lexer.position, h.position_le, h.eq_seek.symm⟩
  | succ n ih =>
    obtain ⟨stop, hstop, hnext⟩ := h.exists_seek_nextToken
    rw [after, hnext]
    exact ih (coherent_seek hstop)

theorem Coherent.coherent_after (h : lexer.Coherent) (n : Nat) : (lexer.after n).Coherent := by
  obtain ⟨stop, hstop, hafter⟩ := h.exists_seek_after n
  rw [hafter]
  exact coherent_seek hstop

theorem Coherent.endToken_after (h : lexer.Coherent) (n : Nat) :
    (lexer.after n).endToken = lexer.endToken := by
  obtain ⟨stop, -, hafter⟩ := h.exists_seek_after n
  rw [hafter]
  rfl

/-- The tokens that were given out are no longer to come. -/
theorem Coherent.pending_after (h : lexer.Coherent) (n : Nat) :
    (lexer.after n).pending = lexer.pending.drop n := by
  induction n generalizing lexer with
  | zero => rfl
  | succ n ih => rw [after, ih h.coherent_nextToken, h.pending_nextToken, List.drop_tail]

/-- The tokens that the lexer gives one after the other, without end. -/
def stream (lexer : Lexer) (n : Nat) : Token :=
  (lexer.after n).nextToken.1

/-- **The tokens that a lexer gives** are those to come, and then the end of the input for ever. -/
theorem Coherent.stream_eq (h : lexer.Coherent) (n : Nat) :
    lexer.stream n = lexer.pending.getD n lexer.endToken := by
  rw [stream, (h.coherent_after n).nextToken_eq_headD, h.pending_after, h.endToken_after,
    List.headD_eq_head?_getD, List.head?_drop, List.getD_eq_getElem?_getD]

/-! ## All tokens -/

/-- Every token but the end of the input covers a byte. -/
theorem length_scan_le (offset covered : Nat) (bytes : List UInt8) :
    (scan offset covered bytes).length ≤ bytes.length := by
  fun_induction scan offset covered bytes with
  | case1 => exact Nat.le_refl _
  | case2 offset covered byte rest ih => exact Nat.le_succ_of_le ih
  | case3 offset byte rest hblank ih => exact Nat.le_succ_of_le ih
  | case4 offset byte rest hblank kind text hlexeme ih => exact Nat.succ_le_succ ih

theorem length_pending_le (lexer : Lexer) : lexer.pending.length ≤ lexer.source.size := by
  have hscan := length_scan_le lexer.position 0 lexer.unread
  have hunread : lexer.unread.length = lexer.source.size - lexer.position := length_drop_source _
  rw [pending]
  omega

theorem next?_of_ended (h : lexer.ended = true) : lexer.next? = (none, lexer) := by
  rw [next?, if_pos h]

theorem kind_ne_eof_of_mem_pending {token : Token} (h : token ∈ lexer.pending) :
    token.kind ≠ .eof :=
  (lexical_of_mem_scan h).kind_ne_eof

/-- Until it has given out the end of the input, `next?` gives what `nextToken` gives. -/
theorem Coherent.next?_eq (h : lexer.Coherent) (hended : lexer.ended = false) :
    lexer.next? = (some lexer.nextToken.1,
      { lexer.nextToken.2 with ended := decide (lexer.nextToken.1.kind = .eof) }) := by
  obtain ⟨stop, -, hnext⟩ := h.exists_seek_nextToken
  rw [next?, if_neg (by simp [hended])]
  dsimp only
  rw [hnext]
  split
  · next hkind => rw [decide_eq_true hkind]
  · next hkind =>
    rw [decide_eq_false hkind, ← hended]
    rfl

/-- `next?` gives these tokens and then nothing, and leaves the lexer `later`. -/
inductive Drains : (lexer : Lexer) → List Token → (later : Lexer) → Prop where
  | nil {lexer later : Lexer} (hnext : lexer.next? = (none, later)) : Drains lexer [] later
  | cons {lexer between later : Lexer} {token : Token} {tokens : List Token}
      (hnext : lexer.next? = (some token, between)) (hrest : Drains between tokens later) :
      Drains lexer (token :: tokens) later

/-- Where `next?` gives nothing the lexer stays as it is. -/
theorem eq_of_next?_eq_none {later : Lexer} (h : lexer.next? = (none, later)) : later = lexer := by
  unfold next? at h
  split at h
  · exact (Prod.mk.inj h).2.symm
  · exact absurd (congrArg Prod.fst h) (Option.some_ne_none _)

theorem Coherent.drains (h : lexer.Coherent) (hended : lexer.ended = false) :
    lexer.Drains (lexer.pending ++ [lexer.endToken])
      { lexer.seek lexer.source.size with ended := true } := by
  induction hpending : lexer.pending generalizing lexer with
  | nil =>
    have hnext := h.next?_eq hended
    rw [h.nextToken_of_pending_nil hpending] at hnext
    exact .cons hnext (.nil (next?_of_ended rfl))
  | cons token rest ih =>
    obtain ⟨stop, hstop, htoken, hrest⟩ := h.nextToken_of_pending hpending
    have hkind : token.kind ≠ .eof := kind_ne_eof_of_mem_pending (hpending ▸ List.mem_cons_self)
    have hnext := h.next?_eq hended
    rw [htoken, decide_eq_false hkind] at hnext
    exact .cons hnext (ih ⟨hstop, rfl, rfl⟩ rfl hrest)

/-- What is drained is collected, if the bound allows for it. -/
theorem Drains.collectUpTo_eq {tokens : List Token} {later : Lexer}
    (h : lexer.Drains tokens later) {n : Nat} (hn : tokens.length ≤ n) :
    lexer.collectUpTo n = (tokens, later) := by
  induction h generalizing n with
  | nil hnext =>
    cases n with
    | zero => rw [collectUpTo, eq_of_next?_eq_none hnext]
    | succ n => rw [collectUpTo, hnext]
  | cons hnext hrest ih =>
    cases n with
    | zero => exact absurd hn (Nat.not_succ_le_zero _)
    | succ n =>
      rw [collectUpTo, hnext]
      dsimp only
      rw [ih (Nat.le_of_succ_le_succ hn)]

/-- **What is collected are the tokens still to come and the end of the input.** -/
theorem Coherent.collect_eq (h : lexer.Coherent) (hended : lexer.ended = false) :
    lexer.collect =
      (lexer.pending ++ [lexer.endToken],
        { lexer.seek lexer.source.size with ended := true }) := by
  apply (h.drains hended).collectUpTo_eq
  rw [List.length_append]
  exact Nat.succ_le_succ lexer.length_pending_le

theorem collect_of_ended (h : lexer.ended = true) : lexer.collect = ([], lexer) :=
  (Drains.nil (next?_of_ended h)).collectUpTo_eq (Nat.zero_le _)

/-- To collect is to ask for the next token until there is none. -/
theorem Coherent.drains_collect (h : lexer.Coherent) :
    lexer.Drains lexer.collect.1 lexer.collect.2 := by
  cases hended : lexer.ended with
  | true =>
    rw [collect_of_ended hended]
    exact .nil (next?_of_ended hended)
  | false =>
    rw [h.collect_eq hended]
    exact h.drains hended

end Lexer

theorem tokenize_eq_pending (source : String) :
    tokenize source =
      (Lexer.ofSource source).pending ++ [(Lexer.ofSource source).endToken] := by
  rw [tokenize, (Lexer.coherent_ofSource source).collect_eq rfl]

end MonkeySyntax
