import Mathlib.Tactic.SplitIfs
import MonkeySyntax.Diagnostic.Excerpt
import MonkeySyntax.Proofs.Text.Lines

/-!
# MonkeySyntax — the layout of a report

A report on a place in a source has five lines. The last three have a gutter, then the line of the
place without its margins, then the caret. This module says where these stand, for every diagnostic
and not only for those of the parser.

* **`LinePlace.Trims place indent shown white`** — what is shown of a line: it begins with the blanks
  `indent` and ends with the white space `white`.
* **`column`** — the column of a character in a line. The gutter and the caret are told by the first
  of their kind (`column_gutter`, `column_caret`).
* **`lines_report`** — the lines of a report are those that it is made of, where none of them has a
  newline. A message never has one (`newline_not_mem_message`).
* **`report_layout`** — all of this together.
-/

namespace MonkeySyntax

/-! ## What is shown of a line -/

namespace LinePlace

/-- A line is its indentation, what is shown of it, and the white space at its end. -/
structure Trims (place : LinePlace) (indent shown white : List Char) : Prop where
  text_eq : place.text = indent ++ (shown ++ white)
  indent : ∀ c ∈ indent, c = ' ' ∨ c = '\t'
  head : ∀ c ∈ (shown ++ white).head?, c ≠ ' ' ∧ c ≠ '\t'
  white : ∀ c ∈ white, isWhiteSpace c = true
  last : ∀ c ∈ shown.getLast?, isWhiteSpace c = false

theorem isIndent_iff {c : Char} : isIndent c = true ↔ c = ' ' ∨ c = '\t' := by
  simp [isIndent]

/-- White space at the end is taken off as a whole. -/
theorem exists_trimEnd (text : List Char) :
    ∃ white, text = trimEnd text ++ white ∧ (∀ c ∈ white, isWhiteSpace c = true) ∧
      ∀ c ∈ (trimEnd text).getLast?, isWhiteSpace c = false := by
  refine ⟨(text.reverse.takeWhile isWhiteSpace).reverse, ?_, ?_, ?_⟩
  · rw [trimEnd, ← List.reverse_append, List.takeWhile_append_dropWhile, List.reverse_reverse]
  · intro c hc
    exact List.all_eq_true.mp List.all_takeWhile c (List.mem_reverse.mp hc)
  · intro c hc
    rw [trimEnd, List.getLast?_reverse] at hc
    have hhead := List.head?_dropWhile_not isWhiteSpace text.reverse
    rw [Option.mem_def.mp hc] at hhead
    exact hhead

/-- What an excerpt shows of a line. -/
theorem exists_trims (place : LinePlace) :
    ∃ indent white, place.Trims indent place.shown white ∧ indent.length = place.indent := by
  obtain ⟨white, htext, hwhite, hlast⟩ := exists_trimEnd (place.text.dropWhile isIndent)
  refine ⟨place.text.takeWhile isIndent, white, ⟨?_, ?_, ?_, hwhite, hlast⟩, rfl⟩
  · show place.text = _ ++ (trimEnd (place.text.dropWhile isIndent) ++ white)
    rw [← htext, List.takeWhile_append_dropWhile]
  · intro c hc
    exact isIndent_iff.mp (List.all_eq_true.mp List.all_takeWhile c hc)
  · intro c hc
    have hhead := List.head?_dropWhile_not isIndent place.text
    change c ∈ (trimEnd (place.text.dropWhile isIndent) ++ white).head? at hc
    rw [← htext] at hc
    rw [Option.mem_def.mp hc] at hhead
    rw [← not_or, ← isIndent_iff, Bool.not_eq_true]
    exact hhead

/-- A line has its newline at its end, where it is not shown. -/
theorem Trims.newline_not_mem {place : LinePlace} {indent shown white : List Char}
    (h : place.Trims indent shown white) (hline : '\n' ∉ place.text ∨ Ended place.text) :
    '\n' ∉ shown := by
  rcases hline with hnone | ⟨front, htext, hfront⟩
  · rw [h.text_eq] at hnone
    simp only [List.mem_append, not_or] at hnone
    exact hnone.2.1
  · rcases List.eq_nil_or_concat white with rfl | ⟨others, c, rfl⟩
    · -- then a newline would be the last character that is shown, which is no white space
      rcases List.eq_nil_or_concat shown with rfl | ⟨others, c, rfl⟩
      · exact List.not_mem_nil
      · rw [h.text_eq, List.append_nil, List.concat_eq_append, ← List.append_assoc] at htext
        obtain ⟨-, hc⟩ := List.append_inj' htext rfl
        obtain rfl : c = '\n' := by simpa using hc
        have hlast := h.last '\n' (by simp)
        exact absurd hlast (by decide)
    · rw [h.text_eq, List.concat_eq_append, ← List.append_assoc, ← List.append_assoc] at htext
      obtain ⟨rfl, -⟩ := List.append_inj' htext rfl
      simp only [List.mem_append, not_or] at hfront
      exact hfront.1.2

end LinePlace

/-! ## Columns -/

/-- The column of the first such character in a line. -/
def column (c : Char) (line : List Char) : Nat :=
  line.idxOf c

theorem column_append {c : Char} {front : List Char} (h : c ∉ front) (rest : List Char) :
    column c (front ++ c :: rest) = front.length := by
  rw [column, List.idxOf_append, if_neg h, List.idxOf_cons_self, Nat.zero_add]

/-- A number is written in digits. -/
theorem not_mem_toDigits {c : Char} (hc : c.isDigit = false) (n : Nat) :
    c ∉ Nat.toDigits 10 n := by
  intro hmem
  have hdigit := Nat.isDigit_of_mem_toDigits (by decide) (by decide) hmem
  rw [hc] at hdigit
  exact Bool.false_ne_true hdigit

namespace LinePlace

/-- The line of the source in an excerpt. -/
def excerptLine (place : LinePlace) : List Char :=
  place.label ++ [' ', '|', ' '] ++ place.shown

/-- The line of the caret in an excerpt. -/
def caretLine (place : LinePlace) : List Char :=
  place.gutter ++ [' '] ++ List.replicate (place.offset - place.indent) '-' ++ ['^']

theorem excerpt_eq (place : LinePlace) :
    place.excerpt = [place.gutter, place.excerptLine, place.caretLine] := rfl

/-- **The gutter stands in one column**, whatever the number of digits. -/
theorem column_gutter (place : LinePlace) :
    column '|' place.gutter = place.label.length + 1 ∧
      column '|' place.excerptLine = place.label.length + 1 ∧
      column '|' place.caretLine = place.label.length + 1 := by
  have hspaces : '|' ∉ List.replicate (place.label.length + 1) ' ' := by
    simp
  have hlabel : '|' ∉ place.label ++ [' '] := by
    have hdigits := not_mem_toDigits (c := '|') (by decide) place.number
    simpa [label] using hdigits
  refine ⟨?_, ?_, ?_⟩
  · rw [gutter, column_append hspaces, List.length_replicate]
  · have hline : place.excerptLine = (place.label ++ [' ']) ++ '|' :: ' ' :: place.shown := by
      simp [excerptLine]
    rw [hline, column_append hlabel, List.length_append]
    rfl
  · have hline : place.caretLine = List.replicate (place.label.length + 1) ' ' ++
        '|' :: ' ' :: (List.replicate (place.offset - place.indent) '-' ++ ['^']) := by
      simp [caretLine, gutter]
    rw [hline, column_append hspaces, List.length_replicate]

/-- **The caret** stands as many columns behind the first one shown as there are dashes. -/
theorem column_caret (place : LinePlace) :
    column '^' place.caretLine = place.label.length + 3 + (place.offset - place.indent) := by
  have hfront : '^' ∉ place.gutter ++ [' '] ++
      List.replicate (place.offset - place.indent) '-' := by
    simp [gutter]
  rw [caretLine, column_append hfront]
  simp only [gutter, List.length_append, List.length_replicate, List.length_singleton]

/-- What is shown of a line begins in one column. -/
theorem getElem?_excerptLine (place : LinePlace) (i : Nat) :
    place.excerptLine[place.label.length + 3 + i]? = place.shown[i]? := by
  have hlength : (place.label ++ [' ', '|', ' ']).length = place.label.length + 3 :=
    List.length_append
  rw [excerptLine, ← hlength, List.getElem?_append_right (Nat.le_add_right _ _),
    Nat.add_sub_cancel_left]

end LinePlace

/-! ## Lines of a report -/

/-- The text has no newline. -/
def OneLine (text : String) : Prop :=
  '\n' ∉ text.toList

theorem OneLine.append {text other : String} (h : OneLine text) (hother : OneLine other) :
    OneLine (text ++ other) := by
  unfold OneLine at *
  rw [String.toList_append, List.mem_append, not_or]
  exact ⟨h, hother⟩

theorem oneLine_label (kind : TokenKind) : OneLine kind.label := by
  unfold OneLine
  cases kind <;> decide

theorem oneLine_name (cause : SyntaxError) : OneLine cause.name := by
  unfold OneLine
  cases cause <;> simp [SyntaxError.name]

/-- In no base is a newline a digit. -/
theorem newline_not_mem_toDigits (base n : Nat) : '\n' ∉ Nat.toDigits base n := by
  have hcore : ∀ (fuel n : Nat) (digits : List Char), '\n' ∉ digits →
      '\n' ∉ Nat.toDigitsCore base fuel n digits := by
    intro fuel
    induction fuel with
    | zero => exact fun n digits hdigits => hdigits
    | succ fuel ih =>
      intro n digits hdigits
      have hcons : '\n' ∉ Nat.digitChar (n % base) :: digits := by
        rw [List.mem_cons, not_or]
        exact ⟨(Nat.digitChar_ne '\n' (by decide)).symm, hdigits⟩
      rw [Nat.toDigitsCore]
      split
      · exact hcons
      · exact ih _ _ hcons
  exact hcore _ _ _ List.not_mem_nil

/-- A newline is written without one. -/
theorem newline_not_mem_escapeChar (c : Char) : '\n' ∉ escapeChar c := by
  by_cases hc : c = '\n'
  · rw [hc]
    decide
  · unfold escapeChar
    split_ifs <;> simp [Ne.symm hc, escapeCodePoint, newline_not_mem_toDigits]

theorem oneLine_quoted (text : String) : OneLine (quoted text) := by
  have hescaped : OneLine (String.ofList (text.toList.flatMap escapeChar)) := by
    unfold OneLine
    rw [String.toList_ofList, List.mem_flatMap]
    rintro ⟨c, -, hc⟩
    exact newline_not_mem_escapeChar c hc
  have hmark : OneLine "\"" := by simp [OneLine]
  exact (hmark.append hescaped).append hmark

/-- **A message is one line.** -/
theorem oneLine_message (cause : SyntaxError) : OneLine cause.message := by
  cases cause with
  | unexpectedToken expected found =>
    have hfront : OneLine "expected next token to be " := by simp [OneLine]
    have hbetween : OneLine ", found " := by simp [OneLine]
    exact ((hfront.append (oneLine_label expected)).append hbetween).append (oneLine_label found)
  | notAnExpression kind =>
    have hfront : OneLine "no prefix parse function for " := by simp [OneLine]
    have hbehind : OneLine " found" := by simp [OneLine]
    exact (hfront.append (oneLine_label kind)).append hbehind
  | invalidNumber literal =>
    have hfront : OneLine "could not parse " := by simp [OneLine]
    have hbehind : OneLine " as integer" := by simp [OneLine]
    exact (hfront.append (oneLine_quoted literal)).append hbehind

theorem oneLine_headline {diagnostic : Diagnostic}
    (h : ∀ tip ∈ diagnostic.cause.tip?, OneLine tip) : OneLine diagnostic.headline := by
  have hname : OneLine ("Error: " ++ diagnostic.cause.name) := by
    have hfront : OneLine "Error: " := by simp [OneLine]
    exact hfront.append (oneLine_name diagnostic.cause)
  unfold Diagnostic.headline
  split
  · exact hname
  · next tip htip =>
    have hopening : OneLine " (" := by simp [OneLine]
    have hclosing : OneLine ")" := by simp [OneLine]
    exact ((hname.append hopening).append (h tip htip)).append hclosing

theorem oneLine_arrow {file : String} (h : OneLine file) : OneLine ("-> " ++ file) := by
  have hfront : OneLine "-> " := by simp [OneLine]
  exact hfront.append h

theorem isLines_map_ended {found : List (List Char)} (h : ∀ line ∈ found, '\n' ∉ line) :
    IsLines (found.map (· ++ ['\n']) ++ [[]]) := by
  induction found with
  | nil => exact .last List.not_mem_nil
  | cons line rest ih =>
    obtain ⟨hline, hrest⟩ := List.forall_mem_cons.mp h
    exact .cons hline (ih hrest)

/-- **The lines of a report** are those that it is made of, and nothing is behind the last. -/
theorem lines_report {diagnostic : Diagnostic} {source file : String}
    (h : ∀ line ∈ diagnostic.reportLines source file, OneLine line) :
    lines (diagnostic.report source file).toList =
      (diagnostic.reportLines source file).map (fun line => line.toList ++ ['\n']) ++ [[]] := by
  generalize hfound : (diagnostic.reportLines source file).map String.toList = found
  have hended : IsLines (found.map (· ++ ['\n']) ++ [[]]) := by
    apply isLines_map_ended
    intro line hline
    rw [← hfound] at hline
    obtain ⟨text, htext, rfl⟩ := List.mem_map.mp hline
    exact h text htext
  have htext : (diagnostic.report source file).toList =
      (found.map (· ++ ['\n']) ++ [[]]).flatten := by
    rw [Diagnostic.report, String.toList_join, ← hfound]
    simp [List.flatMap_def, Function.comp_def]
  rw [htext, hended.eq_lines, ← hfound, List.map_map]
  rfl

/-! ## The excerpt -/

/-- No line of an excerpt has a newline. -/
theorem LinePlace.newline_not_mem_excerpt {place : LinePlace}
    (h : '\n' ∉ place.text ∨ Ended place.text) : ∀ line ∈ place.excerpt, '\n' ∉ line := by
  obtain ⟨indent, white, htrims, -⟩ := place.exists_trims
  have hshown := htrims.newline_not_mem h
  have hlabel : '\n' ∉ place.label := newline_not_mem_toDigits 10 place.number
  rw [excerpt_eq]
  simp [gutter, excerptLine, caretLine, hshown, hlabel]

/-- In a line of ASCII, a place that is shown stands in the column of the caret. -/
theorem LinePlace.Trims.getElem?_column_caret {place : LinePlace} {indent white : List Char}
    (h : place.Trims indent place.shown white) (hindent : indent.length = place.indent)
    (hascii : ∀ c ∈ place.text, c.toNat < 128) (hle : indent.length ≤ place.offset)
    (hshown : place.offset - indent.length < place.shown.length) :
    ∃ c, place.excerptLine[column '^' place.caretLine]? = some c ∧
      (encode place.text)[place.offset]? = some c.toUInt8 := by
  have hcolumn : place.excerptLine[column '^' place.caretLine]? =
      some place.shown[place.offset - indent.length] := by
    rw [place.column_caret, place.getElem?_excerptLine, ← hindent, List.getElem?_eq_getElem hshown]
  refine ⟨_, hcolumn, ?_⟩
  have htext : place.text[place.offset]? = some place.shown[place.offset - indent.length] := by
    rw [h.text_eq, List.getElem?_append_right hle, List.getElem?_append_left hshown,
      List.getElem?_eq_getElem hshown]
  rw [encode_of_ascii hascii, List.getElem?_map, htext]
  rfl

/-- The lines of a report on a place of the source. -/
theorem lines_report_of_place {diagnostic : Diagnostic} {source file : String} {place : LinePlace}
    (hfile : OneLine file) (htip : ∀ tip ∈ diagnostic.cause.tip?, OneLine tip)
    (hplace : lineAt source diagnostic.position.toNat = some place) :
    lines (diagnostic.report source file).toList =
      [diagnostic.headline.toList ++ ['\n'], ("-> " ++ file).toList ++ ['\n'],
        place.gutter ++ ['\n'], place.excerptLine ++ ['\n'], place.caretLine ++ ['\n'], []] := by
  obtain ⟨earlier, later, hsplits⟩ := exists_splits hplace
  have hreport : diagnostic.reportLines source file = diagnostic.headline ::
      ("-> " ++ file) :: place.excerpt.map String.ofList := by
    rw [Diagnostic.reportLines, Diagnostic.details, hplace]
  have hall : ∀ line ∈ diagnostic.reportLines source file, OneLine line := by
    rw [hreport, List.forall_mem_cons, List.forall_mem_cons, List.forall_mem_map]
    refine ⟨oneLine_headline htip, oneLine_arrow hfile, fun line hline => ?_⟩
    unfold OneLine
    rw [String.toList_ofList]
    exact LinePlace.newline_not_mem_excerpt (hsplits.of_append.2.imp And.right And.right) line hline
  rw [lines_report hall, hreport, place.excerpt_eq]
  simp

/-- The lines of a report on a place behind the end of the source. -/
theorem lines_report_of_none {diagnostic : Diagnostic} {source file : String}
    (hfile : OneLine file) (htip : ∀ tip ∈ diagnostic.cause.tip?, OneLine tip)
    (hplace : lineAt source diagnostic.position.toNat = none) :
    lines (diagnostic.report source file).toList =
      [diagnostic.headline.toList ++ ['\n'], ("-> " ++ file).toList ++ ['\n'],
        ("   " ++ diagnostic.cause.message).toList ++ ['\n'], []] := by
  have hreport : diagnostic.reportLines source file =
      [diagnostic.headline, "-> " ++ file, "   " ++ diagnostic.cause.message] := by
    rw [Diagnostic.reportLines, Diagnostic.details, hplace]
  have hspaces : OneLine "   " := by simp [OneLine]
  have hall : ∀ line ∈ diagnostic.reportLines source file, OneLine line := by
    rw [hreport, List.forall_mem_cons, List.forall_mem_cons, List.forall_mem_singleton]
    exact ⟨oneLine_headline htip, oneLine_arrow hfile,
      hspaces.append (oneLine_message diagnostic.cause)⟩
  rw [lines_report hall, hreport]
  rfl

/-- **The layout of a report.** Let the name of the file and the tip have no newline. On a place of
the source, a report has five lines, and nothing behind their newlines. The gutter stands in the same
column of the last three, whatever the number of digits. The fourth one shows the line of the place
without the blanks in front and the white space at its end. The caret stands behind as many dashes as
there are bytes from the first one that is not taken off to the place, so under the byte of the place
if the line is of ASCII and shows it, and in the first column for a place among the blanks. A report
on a place behind the end of the source has three lines, the last of which is the message. -/
theorem report_layout {diagnostic : Diagnostic} {source file : String} (hfile : OneLine file)
    (htip : ∀ tip ∈ diagnostic.cause.tip?, OneLine tip) :
    (diagnostic.position.toNat ≤ source.utf8ByteSize →
      ∃ (place : LinePlace) (indent shown white : List Char),
        place.IsAt source diagnostic.position.toNat ∧ place.Trims indent shown white ∧
        let digits := Nat.toDigits 10 place.number
        let gutter := List.replicate (digits.length + 1) ' ' ++ ['|']
        let excerpt := digits ++ [' ', '|', ' '] ++ shown
        let caret := gutter ++ [' '] ++
          List.replicate (place.offset - indent.length) '-' ++ ['^']
        lines (diagnostic.report source file).toList =
          [diagnostic.headline.toList ++ ['\n'], ("-> " ++ file).toList ++ ['\n'],
            gutter ++ ['\n'], excerpt ++ ['\n'], caret ++ ['\n'], []] ∧
        column '|' gutter = digits.length + 1 ∧ column '|' excerpt = digits.length + 1 ∧
        column '|' caret = digits.length + 1 ∧
        column '^' caret = digits.length + 3 + (place.offset - indent.length) ∧
        ((∀ c ∈ place.text, c.toNat < 128) → indent.length ≤ place.offset →
          place.offset - indent.length < shown.length →
          ∃ c, excerpt[column '^' caret]? = some c ∧
            (utf8 source)[diagnostic.position.toNat]? = some c.toUInt8) ∧
        (place.offset < indent.length → column '^' caret = digits.length + 3)) ∧
      (source.utf8ByteSize < diagnostic.position.toNat →
        lines (diagnostic.report source file).toList =
          [diagnostic.headline.toList ++ ['\n'], ("-> " ++ file).toList ++ ['\n'],
            ("   " ++ diagnostic.cause.message).toList ++ ['\n'], []]) := by
  refine ⟨fun hposition => ?_, fun hposition =>
    lines_report_of_none hfile htip (lineAt_eq_none_iff.mpr hposition)⟩
  obtain ⟨place, earlier, later, hplace, hsplits⟩ := exists_lineAt hposition
  obtain ⟨indent, white, htrims, hindent⟩ := place.exists_trims
  obtain ⟨hgutter, hexcerpt, hcaret⟩ := place.column_gutter
  have hcolumn := place.column_caret
  refine ⟨place, indent, place.shown, white, hsplits.isAt, htrims, ?_⟩
  rw [hindent]
  refine ⟨lines_report_of_place hfile htip hplace, hgutter, hexcerpt, hcaret, hcolumn, ?_, ?_⟩
  · intro hascii hle hshown
    obtain ⟨c, hc, hbyte⟩ := htrims.getElem?_column_caret hindent hascii (by omega) (by omega)
    have hlt : place.offset < byteLength place.text := by
      have hlength := byteLength_eq_length_iff.mpr hascii
      rw [htrims.text_eq, List.length_append, List.length_append] at hlength
      rw [htrims.text_eq]
      omega
    exact ⟨c, hc, (hsplits.getElem?_utf8 rfl hlt).trans hbyte⟩
  · intro hlt
    show column '^' place.caretLine = place.label.length + 3
    omega

/-- A line with blanks in front of it and behind it. -/
theorem report_layout_of_indented :
    let diagnostic : Diagnostic := ⟨.unexpectedToken .assign .integer, 8⟩
    OneLine "main.monkey" ∧ (∀ tip ∈ diagnostic.cause.tip?, OneLine tip) ∧
      diagnostic.position.toNat ≤ "\t let x 5; \n".utf8ByteSize ∧
      diagnostic.report "\t let x 5; \n" "main.monkey" =
        "Error: UnexpectedToken (Expected `=`, found `INT`)\n-> main.monkey\n  |\n1 | let x 5;\n" ++
          "  | ------^\n" ∧
      ∃ (place : LinePlace) (indent shown white : List Char),
        place.IsAt "\t let x 5; \n" 8 ∧ place.Trims indent shown white ∧
        lines (diagnostic.report "\t let x 5; \n" "main.monkey").toList =
          [diagnostic.headline.toList ++ ['\n'], ("-> " ++ "main.monkey").toList ++ ['\n'],
            [' ', ' ', '|', '\n'], ['1', ' ', '|', ' '] ++ shown ++ ['\n'],
            [' ', ' ', '|', ' '] ++ List.replicate (place.offset - indent.length) '-' ++
              ['^', '\n'], []] := by
  intro diagnostic
  have hfile : OneLine "main.monkey" := by simp [OneLine]
  have htip : ∀ tip ∈ diagnostic.cause.tip?, OneLine tip := by
    intro tip htip
    cases htip
    unfold OneLine
    decide +kernel
  have hposition : diagnostic.position.toNat ≤ "\t let x 5; \n".utf8ByteSize := by decide
  obtain ⟨place, indent, shown, white, hat, htrims, hlines, -⟩ :=
    (report_layout hfile htip).1 hposition
  have hnumber : place.number = 1 := hat.number_eq
  refine ⟨hfile, htip, hposition, by decide +kernel, place, indent, shown, white, hat, htrims, ?_⟩
  have hdigits : Nat.toDigits 10 1 = ['1'] := rfl
  rw [hnumber, hdigits] at hlines
  simpa [List.replicate] using hlines

end MonkeySyntax
