import MonkeySyntax.Proofs.Diagnostic.Report
import MonkeySyntax.Proofs.Program.InFront

/-!
# MonkeySyntax — the caret and the token

The caret of a report is meant to stand under the first character of the token that the diagnostic
is on. Dashes are counted in bytes, though, and columns in characters; and a line is shown without
the white space at its end, which is more than what the lexer takes for blanks. This module says when
the two agree.

* **`LinePlace.PointsAt place indent front c back`** — a place is that of the character `c`, behind
  the indentation and `front`. Every diagnostic before the end of a source is at a character
  (`Diagnostic.StandsOn.exists_pointsAt`).
* **`CaretUnder report margin front c`** — the caret is under `c`, which is shown behind `front`.
* **`LinePlace.PointsAt.caretUnder_iff`** — the caret is there exactly if `front` is of ASCII and
  not only white space follows.
* **`parse_caretUnder_iff`** — the same for the diagnostics of a source.
-/

namespace MonkeySyntax

/-! ## Places of characters -/

/-- The place is that of the character `c`, behind the indentation and the characters `front`. -/
structure LinePlace.PointsAt (place : LinePlace) (indent front : List Char) (c : Char)
    (back : List Char) : Prop where
  text_eq : place.text = indent ++ (front ++ c :: back)
  offset_eq : place.offset = byteLength indent + byteLength front
  indent : ∀ x ∈ indent, x = ' ' ∨ x = '\t'
  head : ∀ x ∈ (front ++ c :: back).head?, x ≠ ' ' ∧ x ≠ '\t'

/-- The place in front of a character that is neither a space nor a tab. -/
theorem LinePlace.pointsAt_of_split {place : LinePlace} {front back : List Char} {c : Char}
    (htext : place.text = front ++ c :: back) (hfront : byteLength front = place.offset)
    (hc : c ≠ ' ' ∧ c ≠ '\t') :
    place.PointsAt (front.takeWhile isIndent) (front.dropWhile isIndent) c back where
  text_eq := by rw [htext, ← List.append_assoc, List.takeWhile_append_dropWhile]
  offset_eq := by rw [← hfront, ← byteLength_append, List.takeWhile_append_dropWhile]
  indent := fun _ hx => isIndent_iff.mp (List.mem_takeWhile_imp hx)
  head := by
    intro x hx
    have hhead := List.head?_dropWhile_not isIndent front
    cases hdrop : front.dropWhile isIndent with
    | nil =>
      rw [hdrop] at hx
      obtain rfl : c = x := Option.some.inj hx
      exact hc
    | cons d rest =>
      rw [hdrop] at hx hhead
      obtain rfl : d = x := Option.some.inj hx
      rw [← not_or, ← isIndent_iff, Bool.not_eq_true]
      exact hhead

/-- White space at the end is left where something else comes behind it. -/
theorem exists_trimEnd_eq_iff {front back : List Char} {c : Char} :
    (∃ rest, trimEnd (front ++ c :: back) = front ++ c :: rest) ↔
      ∃ x ∈ c :: back, isWhiteSpace x = false := by
  obtain ⟨white, htext, hwhite, hlast⟩ := LinePlace.exists_trimEnd (front ++ c :: back)
  constructor
  · rintro ⟨rest, hrest⟩
    rw [hrest] at htext hlast
    rw [List.append_assoc] at htext
    have hback : c :: back = c :: rest ++ white := List.append_cancel_left htext
    -- what is shown ends with one that is no white space, at `c` or behind it
    obtain ⟨x, hx⟩ : ∃ x, (c :: rest).getLast? = some x := ⟨_, List.getLast?_cons⟩
    refine ⟨x, ?_, hlast x ?_⟩
    · rw [hback]
      exact List.mem_append_left white (List.mem_of_getLast? hx)
    · rw [List.getLast?_append, hx]
      rfl
  · rintro ⟨x, hx, hspace⟩
    have hnot : x ∉ white := by
      intro hmem
      exact Bool.false_ne_true (hspace.symm.trans (hwhite x hmem))
    rcases List.append_eq_append_iff.mp htext with ⟨shown, hshown, hback⟩ | ⟨rest, -, hrest⟩
    · cases shown with
      | nil =>
        rw [List.nil_append] at hback
        exact absurd (hback ▸ hx) hnot
      | cons d shown =>
        obtain ⟨rfl, -⟩ := List.cons.inj hback
        exact ⟨shown, hshown⟩
    · rw [hrest] at hnot
      exact absurd (List.mem_append_right rest hx) hnot

namespace LinePlace.PointsAt

variable {place : LinePlace} {indent front back : List Char} {c : Char}

theorem isIndent_eq_true (h : place.PointsAt indent front c back) :
    ∀ x ∈ indent, isIndent x = true := fun x hx =>
  isIndent_iff.mpr (h.indent x hx)

/-- Behind the indentation, a line begins with another character. -/
theorem not_isIndent (h : place.PointsAt indent front c back)
    (hl : 0 < (front ++ c :: back).length) : ¬ isIndent (front ++ c :: back)[0] = true := by
  rw [isIndent_iff, not_or]
  refine h.head _ ?_
  rw [List.head?_eq_getElem?, List.getElem?_eq_getElem hl]
  rfl

theorem indent_eq (h : place.PointsAt indent front c back) : place.indent = indent.length := by
  rw [LinePlace.indent, h.text_eq, List.takeWhile_append_of_pos h.isIndent_eq_true,
    List.takeWhile_eq_nil_iff.mpr h.not_isIndent, List.append_nil]

theorem shown_eq (h : place.PointsAt indent front c back) :
    place.shown = trimEnd (front ++ c :: back) := by
  rw [LinePlace.shown, h.text_eq, List.dropWhile_append_of_pos h.isIndent_eq_true,
    List.dropWhile_eq_self_iff.mpr h.not_isIndent]

/-- There are as many dashes as bytes in front of the character. -/
theorem offset_sub_indent (h : place.PointsAt indent front c back) :
    place.offset - place.indent = byteLength front := by
  have hindent : byteLength indent = indent.length := by
    refine byteLength_eq_length_iff.mpr fun x hx => ?_
    rcases h.indent x hx with rfl | rfl <;> decide
  rw [h.indent_eq, h.offset_eq, hindent, Nat.add_sub_cancel_left]

end LinePlace.PointsAt

/-! ## The caret -/

/-- In the last line of the report the caret stands under `c`, which is shown in the line above it
behind the margin and `front`. -/
def CaretUnder (report : String) (margin front : List Char) (c : Char) : Prop :=
  ∃ above back caret, lines report.toList =
      above ++ [margin ++ (front ++ c :: back) ++ ['\n'], caret ++ ['\n'], []] ∧
    column '^' caret = (margin ++ front).length

variable {diagnostic : Diagnostic} {source file : String} {place : LinePlace}

/-- A report on a place of the source ends with the line of the place and that of the caret,
whatever the name of the file and the tip are. -/
theorem exists_lines_report (file : String)
    (hplace : lineAt source diagnostic.position.toNat = some place) :
    ∃ above, lines (diagnostic.report source file).toList =
      above ++ [place.excerptLine ++ ['\n'], place.caretLine ++ ['\n'], []] := by
  obtain ⟨earlier, later, hsplits⟩ := exists_splits hplace
  have hnone := LinePlace.newline_not_mem_excerpt (hsplits.of_append.2.imp And.right And.right)
  rw [place.excerpt_eq] at hnone
  simp only [List.forall_mem_cons] at hnone
  obtain ⟨-, hexcerpt, hcaret, -⟩ := hnone
  have hreport : (diagnostic.report source file).toList =
      diagnostic.headline.toList ++ '\n' :: (("-> " ++ file).toList ++ '\n' ::
        place.gutter) ++ '\n' :: (place.excerptLine ++ '\n' :: (place.caretLine ++ ['\n'])) := by
    rw [Diagnostic.report, Diagnostic.reportLines, Diagnostic.details, hplace, String.toList_join]
    simp [place.excerpt_eq]
  obtain ⟨line, above, hlines⟩ := exists_lines_append (diagnostic.headline.toList ++ '\n' ::
    (("-> " ++ file).toList ++ '\n' :: place.gutter))
    (place.excerptLine ++ '\n' :: (place.caretLine ++ ['\n']))
  refine ⟨line :: above, ?_⟩
  rw [hreport, hlines, lines_append hexcerpt, lines_append hcaret]
  rfl

/-- The caret is under a character exactly if this is shown and there are as many dashes as
characters in front of it. -/
theorem caretUnder_report_iff {front : List Char} {c : Char}
    (hplace : lineAt source diagnostic.position.toNat = some place) :
    CaretUnder (diagnostic.report source file) (place.label ++ [' ', '|', ' ']) front c ↔
      (∃ back, place.shown = front ++ c :: back) ∧
        place.offset - place.indent = front.length := by
  obtain ⟨above, hlines⟩ := exists_lines_report file hplace
  have hcolumn := place.column_caret
  have hmargin : (place.label ++ [' ', '|', ' '] ++ front).length =
      place.label.length + 3 + front.length := by
    simp only [List.length_append, List.length_cons, List.length_nil]
  constructor
  · rintro ⟨other, back, caret, hother, hunder⟩
    obtain ⟨-, hlast⟩ := List.append_inj' (hlines.symm.trans hother) rfl
    simp only [List.cons.injEq, List.append_cancel_right_eq, and_true] at hlast
    obtain ⟨hexcerpt, rfl⟩ := hlast
    refine ⟨⟨back, List.append_cancel_left hexcerpt⟩, ?_⟩
    omega
  · rintro ⟨⟨back, hshown⟩, hdashes⟩
    refine ⟨above, back, place.caretLine, ?_, ?_⟩
    · rw [hlines, LinePlace.excerptLine, hshown]
    · omega

/-- **The caret is under a character exactly if** all characters in front of it are of ASCII, and
from it on there is not only white space. -/
theorem LinePlace.PointsAt.caretUnder_iff {indent front back : List Char} {c : Char}
    (h : place.PointsAt indent front c back)
    (hplace : lineAt source diagnostic.position.toNat = some place) :
    CaretUnder (diagnostic.report source file) (place.label ++ [' ', '|', ' ']) front c ↔
      (∀ x ∈ front, x.toNat < 128) ∧ ∃ x ∈ c :: back, isWhiteSpace x = false := by
  rw [caretUnder_report_iff hplace, h.shown_eq, exists_trimEnd_eq_iff, h.offset_sub_indent,
    byteLength_eq_length_iff, and_comm]

/-! ## The token -/

/-- **A diagnostic before the end is at a character,** with which its token begins. -/
theorem Diagnostic.StandsOn.exists_pointsAt {k : Nat} {token : Token} {extent : Extent}
    {earlier later : List (List Char)} (h : diagnostic.StandsOn source k token extent)
    (hsplits : place.Splits source diagnostic.position.toNat earlier later) :
    ∃ indent front c back, place.PointsAt indent front c back ∧
      token.bytes.head? = (String.utf8EncodeChar c).head? := by
  have hstart := h.start_eq
  have hlt := h.covers.start_lt
  have hle := h.covers.stop_le
  rw [length_utf8] at hle
  have hoffset := hsplits.offset_lt (by omega)
  rcases exists_split_at hoffset with ⟨front, c, back, htext, hfront⟩ | ⟨i, byte, hi, hbyte, hhigh⟩
  · -- the first byte of the token is that of the character, and no blank
    have hfirst : (utf8 source)[extent.start]? = (String.utf8EncodeChar c).head? := by
      rw [← hstart, hsplits.getElem?_utf8 rfl hoffset, ← hfront, htext, getElem?_encode]
    have hink : ∀ byte ∈ (String.utf8EncodeChar c).head?, byte ∉ blanks := by
      intro byte hbyte
      rw [← hfirst] at hbyte
      exact h.covers.ink byte (Extent.mem_of ⟨Nat.le_refl _, hlt⟩ hbyte)
    have hc : c ≠ ' ' ∧ c ≠ '\t' := by
      constructor <;> rintro rfl <;> exact absurd (hink _ rfl) (by decide)
    refine ⟨_, _, c, back, LinePlace.pointsAt_of_split htext hfront hc, ?_⟩
    rw [h.covers.bytes_eq, Extent.head?_of hlt, hfirst]
  · -- in front of a place inside of a character is no byte of ASCII
    have hposition := hsplits.position_eq
    have hbefore : (utf8 source)[diagnostic.position.toNat - 1]? = some byte := by
      rw [hsplits.getElem?_utf8 (j := i) (by omega) (by omega), hbyte]
    have hascii := h.ascii _ byte (by omega) hbefore
    omega

/-- A visible character of ASCII is no white space. -/
theorem not_isWhiteSpace {c : Char} (h : 33 ≤ c.toNat ∧ c.toNat < 128) : isWhiteSpace c = false := by
  obtain ⟨hlow, hhigh⟩ := h
  rw [isWhiteSpace, List.any_eq_false]
  simp only [whiteSpace, List.forall_mem_cons, List.not_mem_nil, false_implies, implies_true,
    and_true, Bool.and_eq_true, decide_eq_true_eq]
  omega

/-- The character with which a token of the language begins is the first one of its text, and it is
no white space. -/
theorem Token.Lexical.head_eq {token : Token} {c : Char} (h : token.Lexical)
    (hkind : token.kind ≠ .illegal)
    (hfirst : token.bytes.head? = (String.utf8EncodeChar c).head?) :
    token.literal.toList.head? = some c ∧ isWhiteSpace c = false := by
  have hvisible := h.visible hkind
  rw [Token.bytes, if_neg hkind, h.utf8_literal hkind, List.head?_map] at hfirst
  cases htext : token.literal.toList with
  | nil =>
    rw [htext] at hfirst
    have hnil := List.head?_eq_none_iff.mp hfirst.symm
    exact absurd hnil String.utf8EncodeChar_ne_nil
  | cons d rest =>
    rw [htext] at hfirst hvisible
    obtain ⟨hd, -⟩ := List.forall_mem_cons.mp hvisible
    obtain rfl : d = c := (mem_encodeChar_iff hd.2).mp (List.mem_of_head? hfirst.symm)
    exact ⟨rfl, not_isWhiteSpace hd⟩

/-- **Where the caret points.** Let the places of a source fit a word. A diagnostic before its end
is on one token, which begins with a character of the line that is shown. In the report the caret is
under this character, and this is shown, exactly if all characters in front of it are of ASCII, but
for the indentation, and from it on there is not only white space. -/
theorem parse_caretUnder_iff (hsize : source.utf8ByteSize < UInt32.size)
    (hmem : diagnostic ∈ (parse source).2)
    (hposition : diagnostic.position.toNat < source.utf8ByteSize) (file : String) :
    ∃ (place : LinePlace) (k : Nat) (token : Token) (indent front : List Char) (c : Char)
        (back : List Char),
      place.IsAt source diagnostic.position.toNat ∧ place.PointsAt indent front c back ∧
      diagnostic.IsOn source k ∧ (tokenize source)[k]? = some token ∧
      token.bytes.head? = (String.utf8EncodeChar c).head? ∧
      (token.kind ≠ .illegal →
        token.literal.toList.head? = some c ∧ isWhiteSpace c = false) ∧
      (CaretUnder (diagnostic.report source file)
          (Nat.toDigits 10 place.number ++ [' ', '|', ' ']) front c ↔
        (∀ x ∈ front, x.toNat < 128) ∧ ∃ x ∈ c :: back, isWhiteSpace x = false) := by
  obtain ⟨k, token, extent, hstands⟩ := exists_standsOn hsize hmem hposition
  obtain ⟨place, earlier, later, hplace, hsplits⟩ := exists_lineAt (Nat.le_of_lt hposition)
  obtain ⟨indent, front, c, back, hpoints, hfirst⟩ := hstands.exists_pointsAt hsplits
  exact ⟨place, k, token, indent, front, c, back, hsplits.isAt, hpoints, hstands.isOn,
    hstands.getElem_eq, hfirst, fun hkind => hstands.lexical.head_eq hkind hfirst,
    hpoints.caretUnder_iff hplace⟩

/-- The number behind a name, on an indented line with a letter behind it that is not of ASCII. -/
theorem parse_caretUnder_iff_of_missing_assign :
    let diagnostic : Diagnostic := ⟨.unexpectedToken .assign .integer, 8⟩
    "\t let x 5; é".utf8ByteSize < UInt32.size ∧ diagnostic ∈ (parse "\t let x 5; é").2 ∧
      diagnostic.position.toNat < "\t let x 5; é".utf8ByteSize ∧
      ∃ (place : LinePlace) (indent front : List Char) (c : Char) (back : List Char),
        place.IsAt "\t let x 5; é" 8 ∧ place.PointsAt indent front c back ∧
        (CaretUnder (diagnostic.report "\t let x 5; é" "main.monkey") ['1', ' ', '|', ' '] front c ↔
          (∀ x ∈ front, x.toNat < 128) ∧ ∃ x ∈ c :: back, isWhiteSpace x = false) := by
  intro diagnostic
  have hsize : "\t let x 5; é".utf8ByteSize < UInt32.size := by decide
  have hmem : diagnostic ∈ (parse "\t let x 5; é").2 := by
    have hparse : (parse "\t let x 5; é").2.head? = some diagnostic := rfl
    exact List.mem_of_head? hparse
  have hposition : diagnostic.position.toNat < "\t let x 5; é".utf8ByteSize := by decide
  obtain ⟨place, -, -, indent, front, c, back, hat, hpoints, -, -, -, -, hcaret⟩ :=
    parse_caretUnder_iff hsize hmem hposition "main.monkey"
  have hnumber : place.number = 1 := hat.number_eq
  rw [hnumber] at hcaret
  exact ⟨hsize, hmem, hposition, place, indent, front, c, back, hat, hpoints, hcaret⟩

/-- Two diagnostics whose characters the caret misses: behind a letter of two bytes it stands one
column too far, and a tab of the vertical kind is not shown at all. -/
theorem not_caretUnder :
    (⟨.notAnExpression .illegal, 3⟩ ∈ (parse "é;@").2 ∧
        lineAt "é;@" 3 = some ⟨1, ['é', ';', '@'], 3⟩ ∧
        ¬ CaretUnder (Diagnostic.report ⟨.notAnExpression .illegal, 3⟩ "é;@" "main.monkey")
          ['1', ' ', '|', ' '] ['é', ';'] '@') ∧
      ⟨.notAnExpression .illegal, 0⟩ ∈ (parse "\x0b").2 ∧
        lineAt "\x0b" 0 = some ⟨1, ['\x0b'], 0⟩ ∧
        ¬ CaretUnder (Diagnostic.report ⟨.notAnExpression .illegal, 0⟩ "\x0b" "main.monkey")
          ['1', ' ', '|', ' '] [] '\x0b' := by
  have hwide : lineAt "é;@" 3 = some ⟨1, ['é', ';', '@'], 3⟩ := by decide
  have hspace : lineAt "\x0b" 0 = some ⟨1, ['\x0b'], 0⟩ := by decide
  have hbehind : LinePlace.PointsAt ⟨1, ['é', ';', '@'], 3⟩ [] ['é', ';'] '@' [] :=
    ⟨rfl, by decide, by simp, by simp⟩
  have halone : LinePlace.PointsAt ⟨1, ['\x0b'], 0⟩ [] [] '\x0b' [] :=
    ⟨rfl, by decide, by simp, by simp⟩
  refine ⟨⟨?_, hwide, fun hcaret => ?_⟩, ?_, hspace, fun hcaret => ?_⟩
  · have hparse : (parse "é;@").2[1]? = some ⟨.notAnExpression .illegal, 3⟩ := rfl
    exact List.mem_of_getElem? hparse
  · obtain ⟨hascii, -⟩ := (hbehind.caretUnder_iff hwide).mp hcaret
    exact absurd (hascii 'é' (by simp)) (by decide)
  · have hparse : (parse "\x0b").2[0]? = some ⟨.notAnExpression .illegal, 0⟩ := rfl
    exact List.mem_of_getElem? hparse
  · obtain ⟨-, x, hx, hshown⟩ := (halone.caretUnder_iff hspace).mp hcaret
    obtain rfl := List.mem_singleton.mp hx
    exact absurd hshown (by decide)

end MonkeySyntax
