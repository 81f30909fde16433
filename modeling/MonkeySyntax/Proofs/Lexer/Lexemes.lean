import MonkeySyntax.Lexer.Lemmas
import MonkeySyntax.Proofs.Text.Ascii

/-!
# MonkeySyntax — the tokens of a text piece by piece

Apart from their places, the tokens of a text are those of its pieces one after the other, as long
as a piece does not go on with the one before it: a word with a letter, a number with a digit, an
equals sign or an exclamation mark with an equals sign.

* **`lexemes`** — the tokens of some bytes, at no place. It does not matter where the bytes stand.
* **`Lexeme`** — a word, a number or a symbol. What stands at it is this lexeme exactly if it is
  `Clear` of the bytes behind it (`Lexeme.lexeme_eq_iff`), and then it is the first token
  (`Lexeme.lexemes_eq_cons_iff`).
* **`lexemes_word`**, **`lexemes_number`**, **`lexemes_symbol`**, **`lexemes_space`** — a piece in
  front of others. What may come behind it is said by `Fenced` and `Unequal`.
-/

namespace MonkeySyntax

namespace Token

/-- The token of this kind and text, at no place. -/
def spelled (kind : TokenKind) (text : String) : Token :=
  ⟨kind, text, default⟩

/-- The token at no place. -/
def bare (token : Token) : Token :=
  spelled token.kind token.literal

def ofSymbol (text : String) : Token :=
  match TokenKind.symbols.find? fun entry => entry.1 = text with
  | some entry => spelled entry.2 text
  | none => spelled .illegal text

theorem ofSymbol_of_mem {text : String} {kind : TokenKind}
    (h : (text, kind) ∈ TokenKind.symbols) : ofSymbol text = spelled kind text := by
  have hall : ∀ entry ∈ TokenKind.symbols, ofSymbol entry.1 = spelled entry.2 entry.1 := by
    decide
  exact hall (text, kind) h

end Token

/-! ## Tokens at no place -/

def lexemes (bytes : List UInt8) : List Token :=
  (scan 0 0 bytes).map Token.bare

/-- The place of the bytes changes the places of their tokens alone. -/
theorem map_bare_scan (offset other covered : Nat) (bytes : List UInt8) :
    (scan offset covered bytes).map Token.bare = (scan other covered bytes).map Token.bare := by
  -- the offsets are free, since each byte moves both
  induction bytes generalizing offset other covered with
  | nil => rw [scan_nil, scan_nil]
  | cons byte rest ih =>
    cases covered with
    | succ covered => exact ih (offset + 1) (other + 1) covered
    | zero =>
      rw [scan, scan]
      split
      · exact ih (offset + 1) (other + 1) 0
      · rw [List.map_cons, List.map_cons, ih (offset + 1) (other + 1)]
        rfl

theorem lexemes_blank {byte : UInt8} (h : isBlank byte = true) (rest : List UInt8) :
    lexemes (byte :: rest) = lexemes rest := by
  rw [lexemes, scan_cons_blank h, map_bare_scan _ 0]
  rfl

/-- What stands at a byte that is no blank is a lexeme, in front of the tokens of what is behind
it. -/
theorem lexemes_cons {byte : UInt8} (hblank : isBlank byte = false) (rest : List UInt8) :
    lexemes (byte :: rest) =
      .spelled (lexeme (byte :: rest)).1 (ofBytes (lexeme (byte :: rest)).2) ::
        lexemes ((byte :: rest).drop (lexeme (byte :: rest)).2.length) := by
  rw [lexemes, scan_cons hblank, List.map_cons, map_bare_scan _ 0]
  rfl

/-! ## Fences -/

/-- A word or a number in front of the bytes does not go on with them, nor does a symbol. -/
def Fenced (bytes : List UInt8) : Prop :=
  ∀ byte ∈ bytes.head?, isLetter byte = false ∧ isDigit byte = false ∧ byte ≠ 0x3d

def Unequal (bytes : List UInt8) : Prop :=
  ∀ byte ∈ bytes.head?, byte ≠ 0x3d

theorem fenced_text (text : String)
    (h : (utf8 text).head?.any (fun byte => !isLetter byte && !isDigit byte && byte != 0x3d) = true)
    (rest : List UInt8) : Fenced (utf8 text ++ rest) := by
  intro byte hbyte
  cases htext : utf8 text with
  | nil => simp [htext] at h
  | cons first bytes =>
    rw [htext] at h hbyte
    cases hbyte
    simpa [and_assoc] using h

/-! ## Words and numbers -/

/-- A symbol that is found begins with the first byte. -/
theorem symbolAt?_eq_none_of_head? {byte : UInt8}
    (h : ∀ entry ∈ TokenKind.symbols, (utf8 entry.1).head? ≠ some byte) (rest : List UInt8) :
    symbolAt? (byte :: rest) = none := by
  rw [symbolAt?, List.find?_eq_none]
  intro entry hentry hfront
  apply h entry hentry
  cases htext : utf8 entry.1 with
  | nil => exact absurd htext (utf8_ne_nil_of_mem_symbols hentry)
  | cons first others =>
    rw [htext, List.isPrefixOf_cons_cons, Bool.and_eq_true, beq_iff_eq] at hfront
    rw [List.head?_cons, hfront.1]

theorem symbolAt?_eq_none {byte : UInt8} (h : isLetter byte = true ∨ isDigit byte = true)
    (rest : List UInt8) : symbolAt? (byte :: rest) = none := by
  have hall : ∀ entry ∈ TokenKind.symbols,
      (utf8 entry.1).head?.all (fun first => !isLetter first && !isDigit first) = true := by
    decide
  apply symbolAt?_eq_none_of_head?
  intro entry hentry hhead
  have hfirst := hall entry hentry
  rw [hhead, Option.all_some, Bool.and_eq_true, Bool.not_eq_true', Bool.not_eq_true'] at hfirst
  obtain ⟨hletter, hdigit⟩ := hfirst
  rcases h with h | h
  · exact absurd (hletter.symm.trans h) Bool.false_ne_true
  · exact absurd (hdigit.symm.trans h) Bool.false_ne_true

theorem takeWhile_eq_nil_iff {p : UInt8 → Bool} {bytes : List UInt8} :
    bytes.takeWhile p = [] ↔ ∀ byte ∈ bytes.head?, p byte = false := by
  cases bytes with
  | nil => simp
  | cons byte rest => cases h : p byte <;> simp [h]

theorem not_isLetter {byte : UInt8} (h : isDigit byte = true) : isLetter byte = false := by
  rw [isDigit_iff_toNat] at h
  rw [Bool.eq_false_iff]
  intro hletter
  rw [isLetter_iff_toNat] at hletter
  omega

theorem not_isDigit {byte : UInt8} (h : isLetter byte = true) : isDigit byte = false := by
  rw [Bool.eq_false_iff]
  intro hdigit
  exact absurd ((not_isLetter hdigit).symm.trans h) Bool.false_ne_true

theorem not_isBlank {byte : UInt8} (h : isLetter byte = true ∨ isDigit byte = true) :
    isBlank byte = false := by
  rw [isLetter_iff_toNat, isDigit_iff_toNat] at h
  have hne : ∀ other : UInt8, byte.toNat ≠ other.toNat → (byte == other) = false := by
    intro other hother
    rw [beq_eq_false_iff_ne]
    intro heq
    exact hother (congrArg UInt8.toNat heq)
  rw [isBlank, hne 0x20 (by show byte.toNat ≠ 32; omega), hne 0x09 (by show byte.toNat ≠ 9; omega),
    hne 0x0a (by show byte.toNat ≠ 10; omega), hne 0x0d (by show byte.toNat ≠ 13; omega)]
  rfl

/-- What stands at a word is the word and all letters behind it. -/
theorem lexeme_word {text : String} (hnil : text.toList ≠ [])
    (htext : ∀ c ∈ text.toList, c.isAlpha = true ∨ c = '_') (rest : List UInt8) :
    lexeme (utf8 text ++ rest) =
      (.ofWord (ofBytes (utf8 text ++ rest.takeWhile isLetter)),
        utf8 text ++ rest.takeWhile isLetter) := by
  obtain ⟨-, hletters⟩ := letters_utf8 htext
  rw [← List.takeWhile_append_of_pos hletters]
  cases hbytes : utf8 text with
  | nil => exact absurd hbytes (utf8_ne_nil hnil)
  | cons byte word =>
    have hletter : isLetter byte = true := hletters byte (hbytes ▸ List.mem_cons_self)
    rw [List.cons_append, lexeme, symbolAt?_eq_none (Or.inl hletter)]
    simp only [hletter, if_true]

/-- What stands at a number is the number and all digits behind it. -/
theorem lexeme_number {text : String} (h : IsNumber text) (rest : List UInt8) :
    lexeme (utf8 text ++ rest) = (.integer, utf8 text ++ rest.takeWhile isDigit) := by
  obtain ⟨-, hdigits⟩ := h.utf8
  rw [← List.takeWhile_append_of_pos hdigits]
  cases hbytes : utf8 text with
  | nil => exact absurd hbytes (utf8_ne_nil h.1)
  | cons byte number =>
    have hdigit : isDigit byte = true := hdigits byte (hbytes ▸ List.mem_cons_self)
    rw [List.cons_append, lexeme, symbolAt?_eq_none (Or.inr hdigit)]
    simp only [not_isLetter hdigit, hdigit, if_true, Bool.false_eq_true, if_false]

/-! ## Symbols -/

/-- A symbol with an equals sign behind it is not there if no equals sign follows. -/
theorem isPrefixOf_unequal {first : UInt8} {rest : List UInt8} (h : Unequal rest) :
    [first, 0x3d].isPrefixOf (first :: rest) = false := by
  cases rest with
  | nil => simp [List.isPrefixOf]
  | cons byte rest =>
    have hne : (0x3d == byte) = false := beq_eq_false_iff_ne.mpr (h byte rfl).symm
    simp [List.isPrefixOf, hne]

/-- A symbol is found where it stands, unless it goes on. -/
theorem symbolAt?_of_mem {entry : String × TokenKind} (h : entry ∈ TokenKind.symbols)
    {rest : List UInt8} (hrest : entry.1 = "=" ∨ entry.1 = "!" → Unequal rest) :
    symbolAt? (utf8 entry.1 ++ rest) = some entry := by
  simp only [TokenKind.symbols, List.mem_cons, List.not_mem_nil, or_false] at h
  rcases h with rfl | rfl | rfl | rfl | rfl | rfl | rfl | rfl | rfl | rfl | rfl | rfl | rfl | rfl |
    rfl | rfl
  -- only `=` and `!` go on as another symbol, and that one stands before them in the table
  case inr.inr.inl =>
    have hlong : (utf8 "==").isPrefixOf (utf8 "=" ++ rest) = false :=
      isPrefixOf_unequal (hrest (Or.inl rfl))
    rw [symbolAt?, TokenKind.symbols, List.find?_cons, hlong]
    rfl
  case inr.inr.inr.inl =>
    have hlong : (utf8 "!=").isPrefixOf (utf8 "!" ++ rest) = false :=
      isPrefixOf_unequal (hrest (Or.inr rfl))
    have hother : (utf8 "==").isPrefixOf (utf8 "!" ++ rest) = false := rfl
    rw [symbolAt?, TokenKind.symbols, List.find?_cons, hother]
    dsimp only
    rw [List.find?_cons, hlong]
    rfl
  -- no symbol before one of the others begins with the same byte
  all_goals rfl

/-! ## Lexemes -/

/-- A text that is one token where nothing is behind it. -/
inductive Lexeme where
  | word (text : String)
      (h : text.toList ≠ [] ∧ ∀ c ∈ text.toList, c.isAlpha = true ∨ c = '_')
  | number (text : String) (h : IsNumber text)
  | symbol (text : String) (kind : TokenKind) (h : (text, kind) ∈ TokenKind.symbols)

namespace Lexeme

def text : Lexeme → String
  | word text _ => text
  | number text _ => text
  | symbol text _ _ => text

def kind : Lexeme → TokenKind
  | word text _ => .ofWord text
  | number _ _ => .integer
  | symbol _ kind _ => kind

/-- The bytes do not go on with the lexeme in front of them. -/
def Clear (bytes : List UInt8) : Lexeme → Prop
  | word _ _ => ∀ byte ∈ bytes.head?, isLetter byte = false
  | number _ _ => ∀ byte ∈ bytes.head?, isDigit byte = false
  | symbol text _ _ => text = "=" ∨ text = "!" → Unequal bytes

variable (self : Lexeme) (bytes : List UInt8)

theorem ascii : ∀ c ∈ self.text.toList, c.toNat < 128 := by
  cases self with
  | word text h => exact fun c hc => ascii_of_isAlpha (h.2 c hc)
  | number text h => exact fun c hc => ascii_of_isDigit (h.2 c hc)
  | symbol text kind h =>
    have hall : ∀ entry ∈ TokenKind.symbols,
        entry.1.toList.all (fun c => c.toNat < 128) = true := by
      decide
    intro c hc
    exact of_decide_eq_true (List.all_eq_true.mp (hall (text, kind) h) c hc)

/-- **What stands at a lexeme is this lexeme exactly if nothing goes on with it.** -/
theorem lexeme_eq_iff :
    lexeme (utf8 self.text ++ bytes) = (self.kind, utf8 self.text) ↔ self.Clear bytes := by
  cases self with
  | word text h =>
    show lexeme (utf8 text ++ bytes) = (.ofWord text, utf8 text) ↔ _
    rw [lexeme_word h.1 h.2, Clear, ← takeWhile_eq_nil_iff, Prod.mk.injEq, List.append_right_eq_self]
    refine ⟨And.right, fun hnil => ⟨?_, hnil⟩⟩
    rw [hnil, List.append_nil, (letters_utf8 h.2).1]
  | number text h =>
    show lexeme (utf8 text ++ bytes) = (.integer, utf8 text) ↔ _
    rw [lexeme_number h, Clear, ← takeWhile_eq_nil_iff, Prod.mk.injEq, List.append_right_eq_self]
    exact and_iff_right rfl
  | symbol text kind h =>
    show lexeme (utf8 text ++ bytes) = (kind, utf8 text) ↔ _
    constructor
    · -- with an equals sign behind it, another symbol stands there
      rintro hlexeme htext byte hbyte rfl
      obtain ⟨rest, rfl⟩ : ∃ rest, bytes = 0x3d :: rest := by
        cases bytes with
        | nil => cases hbyte
        | cons first rest =>
          cases hbyte
          exact ⟨rest, rfl⟩
      rcases htext with rfl | rfl
      · have hlong : lexeme (utf8 "=" ++ 0x3d :: rest) = (.equal, utf8 "==") := rfl
        have htexts : utf8 "==" = utf8 "=" := congrArg Prod.snd (hlong.symm.trans hlexeme)
        exact absurd htexts (by decide)
      · have hlong : lexeme (utf8 "!" ++ 0x3d :: rest) = (.notEqual, utf8 "!=") := rfl
        have htexts : utf8 "!=" = utf8 "!" := congrArg Prod.snd (hlong.symm.trans hlexeme)
        exact absurd htexts (by decide)
    · intro hclear
      unfold lexeme
      rw [symbolAt?_of_mem h hclear]

/-- The first byte of a lexeme. -/
theorem exists_first : ∃ byte rest, utf8 self.text = byte :: rest ∧ isBlank byte = false ∧
    match self with
    | word _ _ => isLetter byte = true
    | number _ _ => isDigit byte = true
    | symbol _ _ _ => isLetter byte = false ∧ isDigit byte = false := by
  have hsymbols : ∀ entry ∈ TokenKind.symbols, (utf8 entry.1).head?.all (fun byte =>
      !isBlank byte && !isLetter byte && !isDigit byte) = true := by
    decide
  cases hbytes : utf8 self.text with
  | nil =>
    cases self with
    | word text h => exact absurd hbytes (utf8_ne_nil h.1)
    | number text h => exact absurd hbytes (utf8_ne_nil h.1)
    | symbol text kind h => exact absurd hbytes (utf8_ne_nil_of_mem_symbols h)
  | cons byte rest =>
    have hmem : byte ∈ utf8 self.text := hbytes ▸ List.mem_cons_self
    refine ⟨byte, rest, rfl, ?_⟩
    cases self with
    | word text h =>
      have hletter := (letters_utf8 h.2).2 byte hmem
      exact ⟨not_isBlank (Or.inl hletter), hletter⟩
    | number text h =>
      have hdigit := h.utf8.2 byte hmem
      exact ⟨not_isBlank (Or.inr hdigit), hdigit⟩
    | symbol text kind h =>
      have hfirst := hsymbols (text, kind) h
      change utf8 text = byte :: rest at hbytes
      rw [hbytes] at hfirst
      simpa [and_assoc] using hfirst

/-- **The step from a lexeme to the tokens.** A lexeme is the first token exactly if nothing goes on
with it, and then the other tokens are those of what is behind it. -/
theorem lexemes_eq_cons_iff {ts : List Token} :
    lexemes (utf8 self.text ++ bytes) = .spelled self.kind self.text :: ts ↔
      self.Clear bytes ∧ lexemes bytes = ts := by
  obtain ⟨byte, rest, hbytes, hblank, -⟩ := self.exists_first
  have hcons : lexemes (utf8 self.text ++ bytes) =
      .spelled (lexeme (utf8 self.text ++ bytes)).1 (ofBytes (lexeme (utf8 self.text ++ bytes)).2) ::
        lexemes ((utf8 self.text ++ bytes).drop (lexeme (utf8 self.text ++ bytes)).2.length) := by
    rw [hbytes]
    exact lexemes_cons hblank (rest ++ bytes)
  rw [← lexeme_eq_iff, hcons, List.cons.injEq]
  constructor
  · rintro ⟨htoken, hrest⟩
    obtain ⟨hkind, htext⟩ : (lexeme (utf8 self.text ++ bytes)).1 = self.kind ∧
        ofBytes (lexeme (utf8 self.text ++ bytes)).2 = self.text :=
      ⟨congrArg Token.kind htoken, congrArg Token.literal htoken⟩
    -- both are fronts of the bytes, and as long as the text
    have hlength : (lexeme (utf8 self.text ++ bytes)).2.length = (utf8 self.text).length := by
      have hchars := congrArg (·.toList.length) htext
      simp only [toList_ofBytes, List.length_map] at hchars
      rw [hchars, utf8_of_ascii self.ascii, List.length_map]
    have hsame : (lexeme (utf8 self.text ++ bytes)).2 = utf8 self.text :=
      (List.prefix_of_prefix_length_le (lexeme_isPrefix _) (List.prefix_append _ _)
        (Nat.le_of_eq hlength)).eq_of_length hlength
    rw [hsame, List.drop_left] at hrest
    exact ⟨Prod.ext hkind hsame, hrest⟩
  · rintro ⟨hlexeme, rfl⟩
    rw [hlexeme, List.drop_left, ofBytes_utf8 self.ascii]
    exact ⟨rfl, rfl⟩

end Lexeme

/-! ## Pieces of a text -/

theorem lexemes_word {text : String} {rest : List UInt8} (hnil : text.toList ≠ [])
    (htext : ∀ c ∈ text.toList, c.isAlpha = true ∨ c = '_') (hrest : Fenced rest) :
    lexemes (utf8 text ++ rest) = .spelled (.ofWord text) text :: lexemes rest :=
  ((Lexeme.word text ⟨hnil, htext⟩).lexemes_eq_cons_iff rest).mpr
    ⟨fun byte hbyte => (hrest byte hbyte).1, rfl⟩

theorem lexemes_number {text : String} {rest : List UInt8} (h : IsNumber text)
    (hrest : Fenced rest) :
    lexemes (utf8 text ++ rest) = .spelled .integer text :: lexemes rest :=
  ((Lexeme.number text h).lexemes_eq_cons_iff rest).mpr
    ⟨fun byte hbyte => (hrest byte hbyte).2.1, rfl⟩

/-- A symbol in front of bytes that do not go on with it. -/
theorem lexemes_symbol {text : String} {kind : TokenKind} {rest : List UInt8}
    (h : (text, kind) ∈ TokenKind.symbols) (hrest : text = "=" ∨ text = "!" → Unequal rest) :
    lexemes (utf8 text ++ rest) = .spelled kind text :: lexemes rest :=
  ((Lexeme.symbol text kind h).lexemes_eq_cons_iff rest).mpr ⟨hrest, rfl⟩

/-- A symbol that does not go on, whatever is behind it. -/
theorem lexemes_plain (text : String) (kind : TokenKind)
    (h : (text, kind) ∈ TokenKind.symbols ∧ text ≠ "=" ∧ text ≠ "!") (rest : List UInt8) :
    lexemes (utf8 text ++ rest) = .spelled kind text :: lexemes rest := by
  apply lexemes_symbol h.1
  rintro (heq | heq)
  · exact absurd heq h.2.1
  · exact absurd heq h.2.2

/-- A reserved word in front of bytes that do not go on with it. -/
theorem lexemes_keyword (text : String) (kind : TokenKind)
    (h : (text, kind) ∈ TokenKind.keywords) {rest : List UInt8} (hrest : Fenced rest) :
    lexemes (utf8 text ++ rest) = .spelled kind text :: lexemes rest := by
  have hall : ∀ entry ∈ TokenKind.keywords, entry.1.toList ≠ [] ∧
      entry.1.toList.all Char.isAlpha = true ∧ TokenKind.ofWord entry.1 = entry.2 := by
    decide
  obtain ⟨hnil, hletters, hkind⟩ := hall (text, kind) h
  rw [lexemes_word hnil (fun c hc => Or.inl (List.all_eq_true.mp hletters c hc)) hrest, hkind]

theorem lexemes_space (rest : List UInt8) : lexemes (utf8 " " ++ rest) = lexemes rest :=
  lexemes_blank rfl rest

theorem lexemes_newline (rest : List UInt8) : lexemes (utf8 "\n" ++ rest) = lexemes rest :=
  lexemes_blank rfl rest

end MonkeySyntax
