import Mathlib.Data.List.Find
import MonkeySyntax.Proofs.Syntax.Moved

/-!
# MonkeySyntax — the places of tokens

The tokens of a source stand in their order, and the place of one depends on the bytes before it
alone.

* **`pairwise_scan`** — every token starts behind the one before it, as long as places fit a word.
* **`map_moved_scan`** — bytes that stand further on have the same tokens, further on.
* **`scan_append`** — behind a blank, the tokens are those of the bytes behind it; in front of it,
  those of the bytes in front.
-/

namespace MonkeySyntax

/-! ## Order -/

/-- A token starts among the bytes that are scanned. -/
theorem exists_start_of_mem_scan {offset covered : Nat} {bytes : List UInt8} {token : Token}
    (h : token ∈ scan offset covered bytes) :
    ∃ start, offset ≤ start ∧ start < offset + bytes.length ∧
      token.span.start = start.toUInt32 := by
  -- behind the first byte, the bounds are those of the rest
  have hrest : ∀ {offset : Nat} {byte : UInt8} {rest : List UInt8},
      (∃ start, offset + 1 ≤ start ∧ start < offset + 1 + rest.length ∧
        token.span.start = start.toUInt32) →
      ∃ start, offset ≤ start ∧ start < offset + (byte :: rest).length ∧
        token.span.start = start.toUInt32 := by
    rintro offset byte rest ⟨start, hle, hlt, hstart⟩
    exact ⟨start, by omega, by rw [List.length_cons]; omega, hstart⟩
  fun_induction scan offset covered bytes with
  | case1 => simp at h
  | case2 offset covered byte rest ih => exact hrest (ih h)
  | case3 offset byte rest hblank ih => exact hrest (ih h)
  | case4 offset byte rest hblank kind text hlexeme ih =>
    rcases List.mem_cons.mp h with rfl | h
    · exact ⟨offset, Nat.le_refl _, by rw [List.length_cons]; omega, rfl⟩
    · exact hrest (ih h)

/-- An offset that fits a word. -/
theorem toNat_toUInt32 {n : Nat} (h : n < UInt32.size) : n.toUInt32.toNat = n := by
  simpa using Nat.mod_eq_of_lt h

/-- **Tokens start one behind the other.** -/
theorem pairwise_scan (offset covered : Nat) (bytes : List UInt8)
    (hsize : offset + bytes.length < UInt32.size) :
    (scan offset covered bytes).Pairwise fun first second =>
      first.span.start < second.span.start := by
  fun_induction scan offset covered bytes with
  | case1 => exact .nil
  | case2 offset covered byte rest ih | case3 offset byte rest hblank ih =>
    rw [List.length_cons] at hsize
    exact ih (by omega)
  | case4 offset byte rest hblank kind text hlexeme ih =>
    rw [List.length_cons] at hsize
    refine .cons ?_ (ih (by omega))
    intro token htoken
    obtain ⟨start, hle, hlt, hstart⟩ := exists_start_of_mem_scan htoken
    have hoffset : offset.toUInt32 < start.toUInt32 := by
      rw [UInt32.lt_iff_toNat_lt, toNat_toUInt32 (by omega), toNat_toUInt32 (by omega)]
      exact hle
    rwa [hstart]

/-! ## Moved bytes -/

theorem toUInt32_add (m n : Nat) : (m + n).toUInt32 = m.toUInt32 + n.toUInt32 :=
  UInt32.ofNat_add m n

theorem moved_ofOffsets (kind : TokenKind) (literal : String) (start stop n : Nat) :
    (Token.ofOffsets kind literal start stop).moved (· + n.toUInt32) =
      .ofOffsets kind literal (start + n) (stop + n) := by
  simp only [Token.moved, Token.ofOffsets, toUInt32_add]

/-- **Bytes further on have their tokens further on.** -/
theorem map_moved_scan (offset covered n : Nat) (bytes : List UInt8) :
    (scan offset covered bytes).map (Token.moved (· + n.toUInt32)) =
      scan (offset + n) covered bytes := by
  induction bytes generalizing offset covered with
  | nil => rw [scan_nil, scan_nil]; rfl
  | cons byte rest ih =>
    have hoffset : offset + 1 + n = offset + n + 1 := Nat.add_right_comm offset 1 n
    cases covered with
    | succ covered => rw [scan, scan, ih, hoffset]
    | zero =>
      rw [scan, scan]
      split
      · rw [ih, hoffset]
      · dsimp only
        rw [List.map_cons, ih, hoffset, moved_ofOffsets, Nat.add_right_comm]

/-! ## Bytes in front of a blank -/

theorem symbols_not_blank :
    ∀ entry ∈ TokenKind.symbols, ∀ byte ∈ utf8 entry.1, isBlank byte = false := by
  have hall : ∀ entry ∈ TokenKind.symbols,
      (utf8 entry.1).all (fun byte => !isBlank byte) = true := by
    decide
  intro entry hentry byte hbyte
  simpa using List.all_eq_true.mp (hall entry hentry) byte hbyte

theorem isPrefixOf_append_blank {text bytes rest : List UInt8} {blank : UInt8}
    (htext : ∀ byte ∈ text, isBlank byte = false) (hblank : isBlank blank = true) :
    text.isPrefixOf (bytes ++ blank :: rest) = text.isPrefixOf bytes := by
  induction text generalizing bytes with
  | nil => rw [List.isPrefixOf_nil_left, List.isPrefixOf_nil_left]
  | cons byte text ih =>
    obtain ⟨hbyte, htext⟩ := List.forall_mem_cons.mp htext
    cases bytes with
    | nil =>
      have hne : (byte == blank) = false := by
        rw [beq_eq_false_iff_ne]
        rintro rfl
        exact absurd hblank (by rw [hbyte]; exact Bool.false_ne_true)
      simp [List.isPrefixOf, hne]
    | cons first bytes => simp [List.isPrefixOf, ih htext]

theorem symbolAt?_append_blank {bytes rest : List UInt8} {blank : UInt8}
    (hblank : isBlank blank = true) : symbolAt? (bytes ++ blank :: rest) = symbolAt? bytes := by
  have hprefix : ∀ entry ∈ TokenKind.symbols,
      (utf8 entry.1).isPrefixOf (bytes ++ blank :: rest) = (utf8 entry.1).isPrefixOf bytes :=
    fun entry hentry => isPrefixOf_append_blank (symbols_not_blank entry hentry) hblank
  unfold symbolAt?
  exact List.find?_congr hprefix

theorem takeWhile_append_blank {p : UInt8 → Bool} {bytes rest : List UInt8} {blank : UInt8}
    (hp : p blank = false) : (bytes ++ blank :: rest).takeWhile p = bytes.takeWhile p := by
  induction bytes with
  | nil => simp [hp]
  | cons byte bytes ih => simp only [List.cons_append, List.takeWhile_cons, ih]

/-- No lexeme goes past a blank. -/
theorem lexeme_append_blank {byte blank : UInt8} {bytes rest : List UInt8}
    (hblank : isBlank blank = true) :
    lexeme (byte :: bytes ++ blank :: rest) = lexeme (byte :: bytes) := by
  have hletter : isLetter blank = false := by
    cases h : isLetter blank with
    | false => rfl
    | true => exact absurd hblank (by rw [not_isBlank (Or.inl h)]; exact Bool.false_ne_true)
  have hdigit : isDigit blank = false := by
    cases h : isDigit blank with
    | false => rfl
    | true => exact absurd hblank (by rw [not_isBlank (Or.inr h)]; exact Bool.false_ne_true)
  unfold lexeme
  rw [symbolAt?_append_blank hblank, takeWhile_append_blank hletter,
    takeWhile_append_blank hdigit]
  rfl

/-- **The tokens in front of a blank and those behind it.** -/
theorem scan_append {offset covered : Nat} {bytes rest : List UInt8} {blank : UInt8}
    (hblank : isBlank blank = true) (hcovered : covered ≤ bytes.length) :
    scan offset covered (bytes ++ blank :: rest) =
      scan offset covered bytes ++ scan (offset + bytes.length + 1) 0 rest := by
  induction bytes generalizing offset covered with
  | nil =>
    obtain rfl := Nat.le_zero.mp hcovered
    rw [scan_nil]
    exact scan_cons_blank hblank offset rest
  | cons byte bytes ih =>
    have hoffset : offset + 1 + bytes.length + 1 = offset + (byte :: bytes).length + 1 := by
      rw [List.length_cons, Nat.add_right_comm offset 1, Nat.add_assoc offset]
    cases covered with
    | succ covered =>
      rw [List.cons_append, scan, scan, ih (Nat.le_of_succ_le_succ hcovered), hoffset]
    | zero =>
      have hlength : (lexeme (byte :: bytes)).2.length - 1 ≤ bytes.length :=
        Nat.sub_le_of_le_add (lexeme_isPrefix (byte :: bytes)).length_le
      rw [List.cons_append, scan, scan, ← List.cons_append, lexeme_append_blank hblank]
      split
      · rw [ih (Nat.zero_le _), hoffset]
      · dsimp only
        rw [ih hlength, hoffset, List.cons_append]

end MonkeySyntax
