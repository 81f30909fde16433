import Mathlib.Data.List.Chain
import MonkeySyntax.Proofs.Lexer.Cursor
import MonkeySyntax.Proofs.Lexer.Lexemes

/-!
# MonkeySyntax — which spaces can be left out

Lexemes that are written one behind the other with blanks between them are read back as they were.
Most of the blanks can be left out. They are needed only where a lexeme would go on with the next
one: between two words, between two numbers, and between `=` or `!` and a lexeme that begins with an
equals sign. If one is missing there, other tokens are read.

* **`Lexeme.RunsInto`** — a lexeme that goes on with the next one. It is `Clear` of any other
  (`Lexeme.clear_iff_not_runsInto`).
* **`Piece`** — a lexeme and the `Blanks` behind it. It is `Piece.Apart` from the next piece if there
  is a blank where one is needed, and exactly then nothing goes on with its lexeme
  (`Piece.clear_iff`).
* **`Piece.lexemes_join_iff`**, **`tokenize_join_iff`** — the tokens are the lexemes exactly if no
  blank is missing.
-/

namespace MonkeySyntax

/-! ## Lexemes in front of lexemes -/

namespace Lexeme

/-- With nothing between them, the first lexeme goes on with the second. -/
def RunsInto : Lexeme → Lexeme → Prop
  | word _ _, word _ _ => True
  | number _ _, number _ _ => True
  | symbol text _ _, next => (text = "=" ∨ text = "!") ∧ next.text.toList.head? = some '='
  | _, _ => False

variable (self : Lexeme) (bytes : List UInt8)

/-- The first byte is that of the first character. -/
theorem head?_eq_equals_iff {byte : UInt8} {rest : List UInt8} (h : utf8 self.text = byte :: rest) :
    self.text.toList.head? = some '=' ↔ byte = 0x3d := by
  have hascii := self.ascii
  rw [utf8_of_ascii hascii] at h
  cases hchars : self.text.toList with
  | nil =>
    rw [hchars] at h
    cases h
  | cons c others =>
    rw [hchars, List.map_cons, List.cons.injEq] at h
    have hback : Char.ofUInt8 byte = c := by
      rw [← h.1]
      exact ofUInt8_toUInt8 (hascii c (hchars ▸ List.mem_cons_self))
    rw [List.head?_cons, Option.some.injEq]
    constructor
    · rintro rfl
      exact h.1.symm
    · rintro rfl
      exact hback.symm

/-- **A lexeme is clear of the next one exactly if it does not run into it.** The cases are those of
the two lexemes; what matters of the second is its first byte. -/
theorem clear_iff_not_runsInto (next : Lexeme) :
    self.Clear (utf8 next.text ++ bytes) ↔ ¬ self.RunsInto next := by
  obtain ⟨byte, rest, hbytes, -, hfirst⟩ := next.exists_first
  have hhead : (utf8 next.text ++ bytes).head? = some byte := by
    rw [hbytes]
    rfl
  cases self with
  | word text h =>
    cases next with
    | word => simp_all [Clear, RunsInto]
    | number => simp_all [Clear, RunsInto, not_isLetter]
    | symbol => simp_all [Clear, RunsInto]
  | number text h =>
    cases next with
    | word => simp_all [Clear, RunsInto, not_isDigit]
    | number => simp_all [Clear, RunsInto]
    | symbol => simp_all [Clear, RunsInto]
  | symbol text kind h =>
    simp only [Clear, RunsInto, Unequal, hhead, next.head?_eq_equals_iff hbytes]
    simp

/-- Nothing goes on with a lexeme at a blank. -/
theorem clear_of_isBlank {byte : UInt8} (h : isBlank byte = true) : self.Clear (byte :: bytes) := by
  have hnot : ¬ (isLetter byte = true ∨ isDigit byte = true) := by
    intro hor
    exact absurd ((not_isBlank hor).symm.trans h) Bool.false_ne_true
  rw [not_or, Bool.not_eq_true, Bool.not_eq_true] at hnot
  cases self with
  | word text _ =>
    rintro _ ⟨⟩
    exact hnot.1
  | number text _ =>
    rintro _ ⟨⟩
    exact hnot.2
  | symbol text kind _ =>
    rintro - _ ⟨⟩ rfl
    exact absurd h (by decide)

theorem clear_nil : self.Clear [] := by
  cases self with
  | word => rintro _ ⟨⟩
  | number => rintro _ ⟨⟩
  | symbol => rintro - _ ⟨⟩

end Lexeme

/-! ## Blanks -/

/-- A text of blanks, possibly none. -/
structure Blanks where
  text : String
  blank : ∀ c ∈ text.toList, c ∈ [' ', '\t', '\n', '\r']

namespace Blanks

variable (gap : Blanks)

theorem isBlank_of_mem_utf8 : ∀ byte ∈ utf8 gap.text, isBlank byte = true := by
  have hall : [' ', '\t', '\n', '\r'].all (fun c => c.toNat < 128 && isBlank c.toUInt8) = true := by
    decide
  have hblank : ∀ c ∈ gap.text.toList, c.toNat < 128 ∧ isBlank c.toUInt8 = true := by
    intro c hc
    simpa using List.all_eq_true.mp hall c (gap.blank c hc)
  intro byte hbyte
  rw [utf8_of_ascii fun c hc => (hblank c hc).1] at hbyte
  obtain ⟨c, hc, rfl⟩ := List.mem_map.mp hbyte
  exact (hblank c hc).2

/-- Blanks have no tokens. -/
theorem lexemes_append (bytes : List UInt8) :
    lexemes (utf8 gap.text ++ bytes) = lexemes bytes := by
  have hblank := gap.isBlank_of_mem_utf8
  generalize utf8 gap.text = blanks at hblank ⊢
  induction blanks with
  | nil => rfl
  | cons byte rest ih =>
    obtain ⟨hbyte, hrest⟩ := List.forall_mem_cons.mp hblank
    rw [List.cons_append, lexemes_blank hbyte, ih hrest]

end Blanks

/-! ## Pieces -/

/-- A lexeme and the blanks behind it. -/
structure Piece where
  lexeme : Lexeme
  gap : Blanks

namespace Piece

/-- The pieces one behind the other. -/
def join : List Piece → String
  | [] => ""
  | piece :: pieces => piece.lexeme.text ++ (piece.gap.text ++ join pieces)

/-- There is a blank between the two pieces if one is needed. -/
def Apart (piece next : Piece) : Prop :=
  piece.gap.text = "" → ¬ piece.lexeme.RunsInto next.lexeme

/-- **Nothing goes on with the lexeme of a piece** exactly if the next piece is apart from it. -/
theorem clear_iff (piece : Piece) (pieces : List Piece) :
    piece.lexeme.Clear (utf8 (piece.gap.text ++ join pieces)) ↔
      ∀ next ∈ pieces.head?, piece.Apart next := by
  by_cases hgap : piece.gap.text = ""
  · rw [hgap, String.empty_append]
    cases pieces with
    | nil =>
      simp only [List.head?_nil, Option.mem_def, reduceCtorEq, false_implies, implies_true, iff_true]
      exact piece.lexeme.clear_nil
    | cons next pieces =>
      rw [join, utf8_append, Lexeme.clear_iff_not_runsInto]
      simp [Apart, hgap]
  · -- the gap begins with a blank
    obtain ⟨byte, rest, hbytes⟩ : ∃ byte rest, utf8 piece.gap.text = byte :: rest := by
      apply List.exists_cons_of_ne_nil
      apply utf8_ne_nil
      simpa using hgap
    have hblank := piece.gap.isBlank_of_mem_utf8 byte (hbytes ▸ List.mem_cons_self)
    rw [utf8_append, hbytes]
    refine iff_of_true (piece.lexeme.clear_of_isBlank _ hblank) ?_
    intro next _ hempty
    exact absurd hempty hgap

/-- The token of a piece, at no place. -/
def token (piece : Piece) : Token :=
  .spelled piece.lexeme.kind piece.lexeme.text

/-- **The tokens of pieces are their lexemes exactly if no blank is missing.** By induction on the
pieces: each takes its own token off the front, or one that is longer. -/
theorem lexemes_join_iff (pieces : List Piece) :
    lexemes (utf8 (join pieces)) = pieces.map token ↔ pieces.IsChain Apart := by
  induction pieces with
  | nil => exact iff_of_true rfl .nil
  | cons piece pieces ih =>
    have hrest : lexemes (utf8 (piece.gap.text ++ join pieces)) = lexemes (utf8 (join pieces)) := by
      rw [utf8_append, piece.gap.lexemes_append]
    rw [join, utf8_append, List.map_cons, token, Lexeme.lexemes_eq_cons_iff, hrest, clear_iff, ih,
      List.isChain_cons]

end Piece

/-! ## The whole text -/

/-- Apart from their places, the tokens of a source are those of its bytes and the end of the
input. -/
theorem map_bare_tokenize (source : String) :
    (tokenize source).map Token.bare = lexemes (utf8 source) ++ [.spelled .eof ""] := by
  rw [tokenize_eq_pending, List.map_append]
  rfl

/-- **Lexemes are read back from any text that they are written in,** with blanks in front of them
and blanks behind each of them, exactly if no blank is missing between two of which the first goes
on with the second. -/
theorem tokenize_join_iff (front : Blanks) (pieces : List Piece) :
    (tokenize (front.text ++ Piece.join pieces)).map Token.bare =
        pieces.map Piece.token ++ [.spelled .eof ""] ↔
      pieces.IsChain Piece.Apart := by
  rw [map_bare_tokenize, utf8_append, front.lexemes_append, List.append_left_inj,
    Piece.lexemes_join_iff]

-- a word does not go on with a number, and two equals signs are two tokens with a blank between
example : (tokenize "x1= =2").map Token.literal = ["x", "1", "=", "=", "2", ""] ∧
    (tokenize "x 1==2").map Token.literal = ["x", "1", "==", "2", ""] := by
  decide

end MonkeySyntax
