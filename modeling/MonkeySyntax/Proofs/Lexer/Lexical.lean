import MonkeySyntax.Lexer.Lemmas
import MonkeySyntax.Proofs.Text.Ascii

/-!
# MonkeySyntax — the texts of tokens

The text of a token fits its kind: names are words that are not reserved, numbers are runs of
digits, and every other kind but that of a character that starts no token has one spelling. None of
the tokens of a source is the end of the input.
-/

namespace MonkeySyntax

theorem TokenKind.spelling_unique :
    ∀ entry ∈ symbols ++ keywords, ∀ other ∈ symbols ++ keywords,
      entry.2 = other.2 → entry.1 = other.1 := by
  decide

/-- The text of the token fits its kind, which is not the end of the input. -/
inductive Token.Lexical (token : Token) : Prop where
  | name (hkind : token.kind = .identifier) (htext : IsName token.literal)
  | number (hkind : token.kind = .integer) (htext : IsNumber token.literal)
  | symbol (hsymbol : (token.literal, token.kind) ∈ TokenKind.symbols)
  | keyword (hkeyword : (token.literal, token.kind) ∈ TokenKind.keywords)
  | illegal (hkind : token.kind = .illegal)

namespace Token.Lexical

variable {token : Token}

theorem isName (h : token.Lexical) (hkind : token.kind = .identifier) : IsName token.literal := by
  cases h with
  | name _ htext => exact htext
  | number h | illegal h => exact absurd (hkind.symm.trans h) (by decide)
  | symbol h => simp [TokenKind.symbols, hkind] at h
  | keyword h => simp [TokenKind.keywords, hkind] at h

theorem isNumber (h : token.Lexical) (hkind : token.kind = .integer) : IsNumber token.literal := by
  cases h with
  | number _ htext => exact htext
  | name h | illegal h => exact absurd (hkind.symm.trans h) (by decide)
  | symbol h => simp [TokenKind.symbols, hkind] at h
  | keyword h => simp [TokenKind.keywords, hkind] at h

theorem literal_eq (h : token.Lexical) {text : String}
    (hkind : (text, token.kind) ∈ TokenKind.symbols ++ TokenKind.keywords) :
    token.literal = text := by
  -- the text stands in one of the tables with the kind, and no kind stands there twice
  have hfixed : (token.literal, token.kind) ∈ TokenKind.symbols ++ TokenKind.keywords := by
    cases h with
    | symbol hsymbol => exact List.mem_append_left _ hsymbol
    | keyword hkeyword => exact List.mem_append_right _ hkeyword
    | name hname | number hname | illegal hname =>
      rw [hname] at hkind
      simp [TokenKind.symbols, TokenKind.keywords] at hkind
  exact TokenKind.spelling_unique _ hfixed _ hkind rfl

theorem kind_ne_eof (h : token.Lexical) : token.kind ≠ .eof := by
  intro hkind
  cases h with
  | name h | number h | illegal h => exact absurd (hkind.symm.trans h) (by decide)
  | symbol h => simp [TokenKind.symbols, hkind] at h
  | keyword h => simp [TokenKind.keywords, hkind] at h

/-- The text of a token is of ASCII and has no white space, unless it is a character that starts no
token. -/
theorem visible (h : token.Lexical) (hkind : token.kind ≠ .illegal) :
    ∀ c ∈ token.literal.toList, 33 ≤ c.toNat ∧ c.toNat < 128 := by
  have htables : ∀ entry ∈ TokenKind.symbols ++ TokenKind.keywords,
      entry.1.toList.all (fun c => 33 ≤ c.toNat && c.toNat < 128) = true := by
    decide
  have hfixed : ∀ entry ∈ TokenKind.symbols ++ TokenKind.keywords,
      ∀ c ∈ entry.1.toList, 33 ≤ c.toNat ∧ c.toNat < 128 := by
    intro entry hentry c hc
    simpa using List.all_eq_true.mp (htables entry hentry) c hc
  intro c hc
  cases h with
  | name _ htext =>
    rcases htext.2.1 c hc with halpha | rfl
    · have hletter := isAlpha_iff_toNat.mp halpha
      omega
    · decide
  | number _ htext =>
    have hdigit : 48 ≤ c.toNat ∧ c.toNat ≤ 57 := Char.isDigit_iff_toNat.mp (htext.2 c hc)
    omega
  | symbol hsymbol => exact hfixed _ (List.mem_append_left _ hsymbol) c hc
  | keyword hkeyword => exact hfixed _ (List.mem_append_right _ hkeyword) c hc
  | illegal hillegal => exact absurd hillegal hkind

theorem utf8_literal (h : token.Lexical) (hkind : token.kind ≠ .illegal) :
    utf8 token.literal = token.literal.toList.map Char.toUInt8 :=
  utf8_of_ascii fun c hc => (h.visible hkind c hc).2

end Token.Lexical

/-! ## The tokens of a source -/

theorem lexical_ofWord {bytes : List UInt8} {span : Span} (hnil : bytes ≠ [])
    (h : ∀ byte ∈ bytes, isLetter byte = true) :
    Token.Lexical ⟨.ofWord (ofBytes bytes), ofBytes bytes, span⟩ := by
  by_cases hkeyword : TokenKind.isKeyword (ofBytes bytes) = false
  · rw [TokenKind.ofWord_eq_identifier hkeyword]
    exact .name rfl (isName_ofBytes hnil h hkeyword)
  · -- a reserved word is found in the table, with its kind
    apply Token.Lexical.keyword
    cases hfind : TokenKind.keywords.find? fun entry => entry.1 = ofBytes bytes with
    | none =>
      refine absurd ?_ hkeyword
      simpa [TokenKind.isKeyword, List.find?_eq_none] using hfind
    | some entry =>
      have htext : entry.1 = ofBytes bytes := by simpa using List.find?_some hfind
      rw [TokenKind.ofWord, hfind, ← htext]
      exact List.mem_of_find?_eq_some hfind

theorem lexical_lexeme (byte : UInt8) (rest : List UInt8) (span : Span) :
    Token.Lexical ⟨(lexeme (byte :: rest)).1, ofBytes (lexeme (byte :: rest)).2, span⟩ := by
  obtain ⟨entry, hmem, -, h⟩ | ⟨hletter, h⟩ | ⟨hdigit, h⟩ | h := lexeme_cases byte rest
  · rw [h]
    apply Token.Lexical.symbol
    rw [ofBytes_utf8_of_mem_symbols hmem]
    exact hmem
  · rw [h]
    exact lexical_ofWord (by simp [hletter]) (List.all_eq_true.mp List.all_takeWhile)
  · rw [h]
    exact .number rfl
      (isNumber_ofBytes (by simp [hdigit]) (List.all_eq_true.mp List.all_takeWhile))
  · rw [h]
    exact .illegal rfl

/-- **The tokens of a source fit their kinds.** -/
theorem lexical_of_mem_scan {offset covered : Nat} {bytes : List UInt8} {token : Token}
    (h : token ∈ scan offset covered bytes) : token.Lexical := by
  fun_induction scan offset covered bytes with
  | case1 => simp at h
  | case2 offset covered byte rest ih => exact ih h
  | case3 offset byte rest hblank ih => exact ih h
  | case4 offset byte rest hblank kind text hlexeme ih =>
    rcases List.mem_cons.mp h with rfl | h
    · have hlexical := lexical_lexeme byte rest (Token.ofOffsets kind (ofBytes text) offset
        (offset + text.length)).span
      rw [hlexeme] at hlexical
      exact hlexical
    · exact ih h

end MonkeySyntax
