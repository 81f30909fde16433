import MonkeySyntax.Lexer.Basic

/-!
# MonkeySyntax — lexemes and the scan

The tokens of some bytes are read off by `scan`, without a state. This module says how it takes the
bytes apart.

* **`scan_cons`** — what stands at a byte that is no blank is a lexeme, and the scan goes on right
  behind it; blanks are stepped over (`scan_cons_blank`, `scan_dropWhile`).
* **`lexeme_cases`** — a lexeme is found in one of four ways.
* **`lexeme_isPrefix`**, **`lexeme_ne_nil`** — a lexeme is a front of the bytes and is never empty
  before their end, so every token covers at least one byte.
-/

namespace MonkeySyntax

/-! ## Lexemes -/

theorem symbolAt?_isPrefix {bytes : List UInt8} {entry : String × TokenKind}
    (h : symbolAt? bytes = some entry) : utf8 entry.1 <+: bytes := by
  simpa using List.find?_some h

theorem utf8_ne_nil_of_mem_symbols {entry : String × TokenKind} (h : entry ∈ TokenKind.symbols) :
    utf8 entry.1 ≠ [] := by
  revert entry
  decide

/-- **What a lexeme can be**: a symbol, a run of letters, a run of digits or a byte of its own. -/
theorem lexeme_cases (byte : UInt8) (rest : List UInt8) :
    (∃ entry ∈ TokenKind.symbols, utf8 entry.1 <+: byte :: rest ∧
        lexeme (byte :: rest) = (entry.2, utf8 entry.1)) ∨
      (isLetter byte = true ∧ lexeme (byte :: rest) =
        (.ofWord (ofBytes ((byte :: rest).takeWhile isLetter)),
          (byte :: rest).takeWhile isLetter)) ∨
      (isDigit byte = true ∧
        lexeme (byte :: rest) = (.integer, (byte :: rest).takeWhile isDigit)) ∨
      lexeme (byte :: rest) = (.illegal, [byte]) := by
  unfold lexeme
  split
  · next text kind h =>
    exact Or.inl ⟨(text, kind), List.mem_of_find?_eq_some h, symbolAt?_isPrefix h, rfl⟩
  · dsimp only
    split
    · next hletter => exact Or.inr (Or.inl ⟨hletter, rfl⟩)
    · split
      · next hdigit => exact Or.inr (Or.inr (Or.inl ⟨hdigit, rfl⟩))
      · exact Or.inr (Or.inr (Or.inr rfl))

theorem lexeme_isPrefix (bytes : List UInt8) : (lexeme bytes).2 <+: bytes := by
  cases bytes with
  | nil => exact List.nil_prefix
  | cons byte rest =>
    obtain ⟨entry, -, hfront, h⟩ | ⟨-, h⟩ | ⟨-, h⟩ | h := lexeme_cases byte rest
    · rw [h]
      exact hfront
    · rw [h]
      exact List.takeWhile_prefix _
    · rw [h]
      exact List.takeWhile_prefix _
    · rw [h]
      exact ⟨rest, rfl⟩

/-- A lexeme has text unless nothing is left. -/
theorem lexeme_ne_nil (byte : UInt8) (rest : List UInt8) : (lexeme (byte :: rest)).2 ≠ [] := by
  obtain ⟨entry, hmem, -, h⟩ | ⟨hletter, h⟩ | ⟨hdigit, h⟩ | h := lexeme_cases byte rest
  · rw [h]
    exact utf8_ne_nil_of_mem_symbols hmem
  · simp [h, hletter]
  · simp [h, hdigit]
  · simp [h]

/-! ## The scan -/

theorem dropWhile_eq_drop {α : Type} (p : α → Bool) (l : List α) :
    l.dropWhile p = l.drop (l.takeWhile p).length := by
  induction l with
  | nil => rfl
  | cons x l ih => by_cases h : p x = true <;> simp [h, ih]

theorem scan_cons_blank {byte : UInt8} (h : isBlank byte = true) (offset : Nat)
    (rest : List UInt8) : scan offset 0 (byte :: rest) = scan (offset + 1) 0 rest := by
  rw [scan, if_pos h]

theorem scan_dropWhile (offset : Nat) (bytes : List UInt8) :
    scan offset 0 bytes =
      scan (offset + (bytes.takeWhile isBlank).length) 0 (bytes.dropWhile isBlank) := by
  induction bytes generalizing offset with
  | nil => simp
  | cons byte rest ih =>
    by_cases h : isBlank byte = true
    · rw [scan_cons_blank h, ih]
      simp [h, Nat.add_comm, Nat.add_left_comm]
    · simp [h]

/-- What stands at a byte that is no blank is a lexeme, and the scan goes on behind it. -/
theorem scan_cons {byte : UInt8} (h : isBlank byte = false) (offset : Nat) (rest : List UInt8) :
    scan offset 0 (byte :: rest) =
      let text := (lexeme (byte :: rest)).2
      .ofOffsets (lexeme (byte :: rest)).1 (ofBytes text) offset (offset + text.length) ::
        scan (offset + text.length) 0 ((byte :: rest).drop text.length) := by
  have hpos : 0 < (lexeme (byte :: rest)).2.length :=
    List.length_pos_iff.mpr (lexeme_ne_nil byte rest)
  rw [scan, if_neg (by simp [h])]
  dsimp only
  rw [scan_covered]
  congr 2
  · omega
  · obtain ⟨n, hn⟩ : ∃ n, (lexeme (byte :: rest)).2.length = n + 1 :=
      ⟨_, (Nat.sub_add_cancel hpos).symm⟩
    simp [hn]

end MonkeySyntax
