import MonkeySyntax.Proofs.Lexer.Tiling

/-!
# MonkeySyntax — the longest lexeme

Of what is left of a source behind the blanks, the next token is the longest front that is a word, a
number or a symbol. If no front is one, the token is the first byte.

* **`Lexeme.IsLongest bytes`** — the lexeme is a front of the bytes, and no other lexeme that is one
  is longer.
* **`Lexeme.HasKind kind`** — the kind of a word is that of the reserved word it is as a whole.
* **`lexeme_isLongest`** — what stands at some bytes is the longest lexeme in front of them, if there
  is one.
* **`Lexer.nextToken_longest`** — both for the next token, wherever the lexer has gone.
-/

namespace MonkeySyntax

/-- The words that are no names. -/
def reservedWords : List String :=
  ["fn", "let", "true", "false", "if", "else", "return"]

namespace Lexeme

/-- The lexeme is a front of the bytes, and no other one is longer. -/
structure IsLongest (bytes : List UInt8) (lexeme : Lexeme) : Prop where
  front : utf8 lexeme.text <+: bytes
  longest : ∀ other : Lexeme, utf8 other.text <+: bytes →
    (utf8 other.text).length ≤ (utf8 lexeme.text).length

/-- The kind of a token with this text. A word has the kind of a reserved word exactly if it is
one. -/
def HasKind (kind : TokenKind) : Lexeme → Prop
  | word text _ =>
    (text ∈ reservedWords → (text, kind) ∈ TokenKind.keywords) ∧
      (text ∉ reservedWords → kind = .identifier)
  | number _ _ => kind = .integer
  | symbol _ own _ => kind = own

theorem hasKind_word (text : String)
    (h : text.toList ≠ [] ∧ ∀ c ∈ text.toList, c.isAlpha = true ∨ c = '_') :
    (word text h).HasKind (.ofWord text) := by
  constructor
  · have hall : ∀ word ∈ reservedWords, (word, TokenKind.ofWord word) ∈ TokenKind.keywords := by
      decide
    exact hall text
  · intro hnot
    have hwords : TokenKind.keywords.map Prod.fst = reservedWords := rfl
    apply TokenKind.ofWord_eq_identifier
    rw [← hwords] at hnot
    rw [TokenKind.isKeyword, List.any_eq_false]
    intro entry hentry hword
    exact hnot (List.mem_map.mpr ⟨entry, hentry, of_decide_eq_true hword⟩)

theorem hasKind_kind (self : Lexeme) : self.HasKind self.kind := by
  cases self with
  | word text h => exact hasKind_word text h
  | number text h => rfl
  | symbol text kind h => rfl

end Lexeme

/-! ## What stands at some bytes -/

/-- In the table of symbols the longer ones stand in front, so the symbol that is found is at least
as long as any that is there. -/
theorem symbolAt?_longest {entry : String × TokenKind} (hentry : entry ∈ TokenKind.symbols)
    {bytes : List UInt8} (hfront : utf8 entry.1 <+: bytes) :
    ∃ found, symbolAt? bytes = some found ∧ (utf8 entry.1).length ≤ (utf8 found.1).length := by
  have hsorted : TokenKind.symbols.Pairwise fun first second =>
      (utf8 second.1).length ≤ (utf8 first.1).length := by
    decide
  have hfits : (utf8 entry.1).isPrefixOf bytes = true := by simpa using hfront
  cases hfound : symbolAt? bytes with
  | none =>
    have hnone := List.find?_eq_none.mp hfound entry hentry
    exact absurd hfits hnone
  | some found =>
    refine ⟨found, rfl, ?_⟩
    obtain ⟨-, before, after, htable, hbefore⟩ := List.find?_eq_some_iff_append.mp hfound
    rw [htable, List.mem_append, List.mem_cons] at hentry
    rcases hentry with hentry | rfl | hentry
    · have hnot := hbefore entry hentry
      rw [hfits] at hnot
      exact absurd hnot (by decide)
    · omega
    · rw [htable, List.pairwise_append] at hsorted
      exact List.rel_of_pairwise_cons hsorted.2.1 hentry

/-- A lexeme in front of some bytes is no longer than what stands there, which is no byte that
starts no token. -/
theorem lexeme_longest {bytes : List UInt8} (self : Lexeme) (h : utf8 self.text <+: bytes) :
    (lexeme bytes).1 ≠ .illegal ∧ (utf8 self.text).length ≤ (lexeme bytes).2.length := by
  cases self with
  | word text htext =>
    change utf8 text <+: bytes at h
    obtain ⟨rest, rfl⟩ := h
    rw [lexeme_word htext.1 htext.2]
    exact ⟨TokenKind.ofWord_ne_illegal _, (List.prefix_append _ _).length_le⟩
  | number text htext =>
    change utf8 text <+: bytes at h
    obtain ⟨rest, rfl⟩ := h
    rw [lexeme_number htext]
    exact ⟨TokenKind.noConfusion, (List.prefix_append _ _).length_le⟩
  | symbol text kind hentry =>
    obtain ⟨found, hfound, hlength⟩ := symbolAt?_longest hentry h
    unfold lexeme
    rw [hfound]
    exact ⟨TokenKind.symbols_ne_illegal found (List.mem_of_find?_eq_some hfound), hlength⟩

/-- What stands at a byte is a lexeme, or the byte alone, which starts none. -/
theorem exists_lexeme (byte : UInt8) (rest : List UInt8) :
    (∃ self : Lexeme, lexeme (byte :: rest) = (self.kind, utf8 self.text)) ∨
      lexeme (byte :: rest) = (.illegal, [byte]) := by
  obtain ⟨entry, hmem, -, h⟩ | ⟨hletter, h⟩ | ⟨hdigit, h⟩ | h := lexeme_cases byte rest
  · exact Or.inl ⟨.symbol entry.1 entry.2 hmem, h⟩
  · have hletters : ∀ other ∈ (byte :: rest).takeWhile isLetter, isLetter other = true :=
      fun other hother => List.mem_takeWhile_imp hother
    have hbytes : utf8 (ofBytes ((byte :: rest).takeWhile isLetter)) =
        (byte :: rest).takeWhile isLetter :=
      utf8_ofBytes fun other hother => toNat_lt_of_isLetter (hletters other hother)
    refine Or.inl ⟨.word (ofBytes ((byte :: rest).takeWhile isLetter))
      (letters_ofBytes (by simp [hletter]) hletters), ?_⟩
    show _ = (_, utf8 (ofBytes ((byte :: rest).takeWhile isLetter)))
    rw [h, hbytes]
    rfl
  · have hdigits : ∀ other ∈ (byte :: rest).takeWhile isDigit, isDigit other = true :=
      fun other hother => List.mem_takeWhile_imp hother
    have hbytes : utf8 (ofBytes ((byte :: rest).takeWhile isDigit)) =
        (byte :: rest).takeWhile isDigit :=
      utf8_ofBytes fun other hother => toNat_lt_of_isDigit (hdigits other hother)
    refine Or.inl ⟨.number (ofBytes ((byte :: rest).takeWhile isDigit))
      (isNumber_ofBytes (by simp [hdigit]) hdigits), ?_⟩
    show _ = (_, utf8 (ofBytes ((byte :: rest).takeWhile isDigit)))
    rw [h, hbytes]
    rfl
  · exact Or.inr h

/-- **What stands at a byte is the longest lexeme there,** or the byte alone if there is none. -/
theorem lexeme_isLongest (byte : UInt8) (rest : List UInt8) :
    (∃ self : Lexeme, self.IsLongest (byte :: rest) ∧
        lexeme (byte :: rest) = (self.kind, utf8 self.text)) ∨
      (∀ self : Lexeme, ¬ utf8 self.text <+: byte :: rest) ∧
        lexeme (byte :: rest) = (.illegal, [byte]) := by
  rcases exists_lexeme byte rest with ⟨self, hself⟩ | hillegal
  · refine Or.inl ⟨self, ⟨?_, ?_⟩, hself⟩
    · have hfront := lexeme_isPrefix (byte :: rest)
      rwa [hself] at hfront
    · intro other hother
      have hlength := (lexeme_longest other hother).2
      rwa [hself] at hlength
  · refine Or.inr ⟨?_, hillegal⟩
    intro self hself
    exact (lexeme_longest self hself).1 (congrArg Prod.fst hillegal)

/-! ## The next token -/

namespace Lexer

variable {lexer : Lexer}

/-- What is left, from the first byte on that is no blank. -/
def ink (lexer : Lexer) : List UInt8 :=
  lexer.unread.dropWhile isBlank

/-- The place of the first byte that is no blank. -/
def inkPosition (lexer : Lexer) : Nat :=
  lexer.position + (lexer.unread.takeWhile isBlank).length

theorem inkPosition_eq (lexer : Lexer) : lexer.inkPosition = lexer.firstInk lexer.position := rfl

theorem drop_inkPosition (lexer : Lexer) :
    lexer.source.toList.drop lexer.inkPosition = lexer.ink :=
  drop_firstInk

theorem unread_seek (n : Nat) : (lexer.seek (lexer.inkPosition + n)).unread = lexer.ink.drop n := by
  show lexer.source.toList.drop (lexer.inkPosition + n) = _
  rw [← drop_inkPosition, List.drop_drop]

/-- Before the end of the bytes that are no blanks, the next token is the lexeme that stands
there. -/
theorem Coherent.nextToken_of_ink (h : lexer.Coherent) (hink : lexer.ink ≠ []) :
    lexer.nextToken =
      let text := (lexeme lexer.ink).2
      (.ofOffsets (lexeme lexer.ink).1 (ofBytes text) lexer.inkPosition
          (lexer.inkPosition + text.length),
        lexer.seek (lexer.inkPosition + text.length)) := by
  have hlt : lexer.inkPosition < lexer.source.size := by
    have hlength := congrArg List.length lexer.drop_inkPosition
    have hpos : 0 < lexer.ink.length := List.length_pos_iff.mpr hink
    rw [length_drop_source] at hlength
    omega
  have hnext := nextToken_seek h.position_le
  rw [h.eq_seek, ← inkPosition_eq, if_pos hlt, tokenHere_seek hlt, drop_inkPosition] at hnext
  exact hnext

/-- **The next token is the longest lexeme.** Let something be left of a source behind the blanks,
after any number of tokens. If a word, a number or a symbol is in front of it, the next token is the
longest of these, with its kind, and the lexer goes behind it. If none is, the next token is the
first byte, as a character that starts no token. Whatever was read before, and of whatever source,
the next token is the same but for its place if the same bytes are left. -/
theorem nextToken_longest (source : String) (n : Nat)
    (hink : ((ofSource source).after n).ink ≠ []) :
    let lexer := (ofSource source).after n
    let start := lexer.inkPosition
    ((∃ self : Lexeme, utf8 self.text <+: lexer.ink) →
      ∃ (self : Lexeme) (kind : TokenKind), self.IsLongest lexer.ink ∧ self.HasKind kind ∧
        lexer.nextToken =
          (.ofOffsets kind self.text start (start + (utf8 self.text).length),
            lexer.seek (start + (utf8 self.text).length))) ∧
      ((∀ self : Lexeme, ¬ utf8 self.text <+: lexer.ink) →
        ∃ byte, lexer.ink.head? = some byte ∧ lexer.nextToken =
          (.ofOffsets .illegal (ofBytes [byte]) start (start + 1), lexer.seek (start + 1))) ∧
      ∀ (text : String) (m : Nat), ((ofSource text).after m).ink = lexer.ink →
        ((ofSource text).after m).nextToken.1.bare = lexer.nextToken.1.bare ∧
          ((ofSource text).after m).nextToken.2.unread = lexer.nextToken.2.unread := by
  intro lexer start
  have hcoherent : lexer.Coherent := (coherent_ofSource source).coherent_after n
  have hnext := hcoherent.nextToken_of_ink hink
  obtain ⟨byte, rest, hbytes⟩ : ∃ byte rest, lexer.ink = byte :: rest :=
    List.exists_cons_of_ne_nil hink
  have hlexeme := lexeme_isLongest byte rest
  rw [← hbytes] at hlexeme
  refine ⟨?_, ?_, ?_⟩
  · rintro ⟨other, hother⟩
    rcases hlexeme with ⟨self, hlongest, hself⟩ | ⟨hnone, -⟩
    · refine ⟨self, self.kind, hlongest, self.hasKind_kind, ?_⟩
      rw [hnext, hself]
      dsimp only
      rw [ofBytes_utf8 self.ascii]
    · exact absurd hother (hnone other)
  · intro hnone
    rcases hlexeme with ⟨self, hlongest, -⟩ | ⟨-, hillegal⟩
    · exact absurd hlongest.front (hnone self)
    · refine ⟨byte, by rw [hbytes]; rfl, ?_⟩
      rw [hnext, hillegal]
      rfl
  · intro text m hsame
    have hother : ((ofSource text).after m).Coherent := (coherent_ofSource text).coherent_after m
    have hnext' := hother.nextToken_of_ink (hsame ▸ hink)
    rw [hnext, hnext']
    dsimp only
    rw [unread_seek, unread_seek, hsame]
    exact ⟨rfl, rfl⟩

/-- An equals sign behind two others is left for the token behind them. -/
theorem nextToken_longest_of_equals :
    ((ofSource "x === lets;").after 1).ink = utf8 "=== lets;" ∧
      ((ofSource "x === lets;").after 1).nextToken.1 = .ofOffsets .equal "==" 2 4 ∧
      ∃ (self : Lexeme) (kind : TokenKind), self.IsLongest (utf8 "=== lets;") ∧
        self.HasKind kind ∧ ((ofSource "x === lets;").after 1).nextToken.1 =
          .ofOffsets kind self.text 2 (2 + (utf8 self.text).length) := by
  have hink : ((ofSource "x === lets;").after 1).ink = utf8 "=== lets;" := rfl
  obtain ⟨hlongest, -⟩ := nextToken_longest "x === lets;" 1 (by rw [hink]; decide)
  obtain ⟨self, kind, hself, hkind, hnext⟩ := hlongest
    ⟨.symbol "==" .equal (by decide), by rw [hink]; exact List.prefix_append (utf8 "==") _⟩
  rw [hink] at hself
  exact ⟨hink, rfl, self, kind, hself, hkind, congrArg Prod.fst hnext⟩

end Lexer

end MonkeySyntax
