import MonkeySyntax.Proofs.Text.Encoding

/-!
# MonkeySyntax — the line of a place

A text is cut behind each newline, and a place falls in one of the lines. Counted in bytes, the line
is told by the newlines in front of the place alone.

* **`IsLines`** — every line but the last ends with its only newline, and the last has none. A text
  has one such list of lines (`isLines_lines`, `IsLines.eq_lines`).
* **`LinePlace.Splits`** — where the line of a place stands among the lines.
* **`LinePlace.IsAt source position`** — the same in bytes: the number of the line from the newlines
  in front of the place, the offset from the last of them, the line up to the next one.
* **`lineAt_exact`** — what is found for a place is its line, and there is none exactly behind the
  end.
-/

namespace MonkeySyntax

/-! ## Lines -/

/-- Lines, each but the last with its newline. -/
inductive IsLines : List (List Char) → Prop where
  | last {line : List Char} (h : '\n' ∉ line) : IsLines [line]
  | cons {line : List Char} {rest : List (List Char)} (h : '\n' ∉ line) (hrest : IsLines rest) :
      IsLines ((line ++ ['\n']) :: rest)

/-- The line has a newline at its end and no other one. -/
def Ended (line : List Char) : Prop :=
  ∃ front, line = front ++ ['\n'] ∧ '\n' ∉ front

theorem lines_cons {c : Char} (hc : c ≠ '\n') {rest line : List Char} {others : List (List Char)}
    (h : lines rest = line :: others) : lines (c :: rest) = (c :: line) :: others := by
  rw [lines, if_neg hc, h]

/-- **A text is cut into lines.** -/
theorem isLines_lines (text : List Char) : IsLines (lines text) := by
  induction text with
  | nil => exact .last List.not_mem_nil
  | cons c rest ih =>
    by_cases hc : c = '\n'
    · rw [lines, if_pos hc]
      have hline : IsLines (([] ++ ['\n']) :: lines rest) := .cons List.not_mem_nil ih
      exact hline
    · generalize hlines : lines rest = found at ih
      cases ih with
      | last h =>
        rw [lines_cons hc hlines]
        exact .last (by simp [Ne.symm hc, h])
      | @cons line others h hrest =>
        rw [lines_cons hc hlines]
        have hline : IsLines ((c :: line ++ ['\n']) :: others) :=
          .cons (by simp [Ne.symm hc, h]) hrest
        exact hline

theorem lines_of_not_mem {line : List Char} (h : '\n' ∉ line) : lines line = [line] := by
  induction line with
  | nil => rfl
  | cons c rest ih =>
    rw [List.mem_cons, not_or] at h
    exact lines_cons (Ne.symm h.1) (ih h.2)

theorem lines_append {line : List Char} (h : '\n' ∉ line) (rest : List Char) :
    lines (line ++ '\n' :: rest) = (line ++ ['\n']) :: lines rest := by
  induction line with
  | nil => rw [List.nil_append, lines, if_pos rfl, List.nil_append]
  | cons c line ih =>
    rw [List.mem_cons, not_or] at h
    exact lines_cons (Ne.symm h.1) (ih h.2)

/-- Behind a newline there are the lines of what stands there. -/
theorem exists_lines_append (text rest : List Char) :
    ∃ line above, lines (text ++ '\n' :: rest) = line :: (above ++ lines rest) := by
  induction text with
  | nil => exact ⟨['\n'], [], by rw [List.nil_append, lines, if_pos rfl, List.nil_append]⟩
  | cons c text ih =>
    obtain ⟨line, above, hlines⟩ := ih
    by_cases hc : c = '\n'
    · refine ⟨['\n'], line :: above, ?_⟩
      rw [List.cons_append, lines, if_pos hc, hlines, List.cons_append]
    · exact ⟨c :: line, above, lines_cons hc hlines⟩

/-- A text has one list of lines. -/
theorem IsLines.eq_lines {found : List (List Char)} (h : IsLines found) :
    lines found.flatten = found := by
  induction h with
  | last h => simpa using lines_of_not_mem h
  | @cons line rest h hrest ih =>
    rw [List.flatten_cons, List.append_assoc, List.singleton_append, lines_append h, ih]

/-- Of lines, those in front of another one have a newline, and the last has none. -/
theorem IsLines.of_append {earlier later : List (List Char)} {line : List Char}
    (h : IsLines (earlier ++ line :: later)) :
    (∀ other ∈ earlier, Ended other) ∧
      (later = [] ∧ '\n' ∉ line ∨ later ≠ [] ∧ Ended line) := by
  induction earlier with
  | nil =>
    refine ⟨fun _ hother => absurd hother List.not_mem_nil, ?_⟩
    rw [List.nil_append] at h
    cases h with
    | last h => exact Or.inl ⟨rfl, h⟩
    | cons h hrest =>
      refine Or.inr ⟨?_, _, rfl, h⟩
      rintro rfl
      cases hrest
  | cons other earlier ih =>
    rw [List.cons_append] at h
    generalize htail : earlier ++ line :: later = tail at h
    cases h with
    | last h => simp at htail
    | cons h hrest =>
      obtain ⟨hearlier, hline⟩ := ih (htail ▸ hrest)
      exact ⟨List.forall_mem_cons.mpr ⟨⟨_, rfl, h⟩, hearlier⟩, hline⟩

/-! ## Places among lines -/

/-- There is no line for a place exactly behind the end of the last one. -/
theorem placeIn_eq_none_iff {number position : Nat} {found : List (List Char)} (h : found ≠ []) :
    placeIn number position found = none ↔ byteLength found.flatten < position := by
  fun_induction placeIn number position found with
  | case1 => exact absurd rfl h
  | case2 number position last hle => simpa using hle
  | case3 number position last hlt => simpa using hlt
  | case4 number position line rest hrest hlt =>
    simp only [List.flatten_cons, byteLength_append, reduceCtorEq, false_iff]
    omega
  | case5 number position line rest hrest hge ih =>
    rw [ih (by simpa using hrest), List.flatten_cons, byteLength_append]
    omega

/-- The line of a place stands behind others, and the place falls in it. -/
theorem exists_split_of_placeIn {number position : Nat} {found : List (List Char)}
    {place : LinePlace} (h : placeIn number position found = some place) :
    ∃ earlier later, found = earlier ++ place.text :: later ∧
      place.number = number + earlier.length ∧
      byteLength earlier.flatten + place.offset = position ∧
      (place.offset < byteLength place.text ∨
        later = [] ∧ place.offset ≤ byteLength place.text) := by
  fun_induction placeIn number position found with
  | case1 => cases h
  | case2 number position last hle =>
    cases h
    exact ⟨[], [], rfl, rfl, Nat.zero_add _, Or.inr ⟨rfl, hle⟩⟩
  | case3 => cases h
  | case4 number position line rest hrest hlt =>
    cases h
    exact ⟨[], rest, rfl, rfl, Nat.zero_add _, Or.inl hlt⟩
  | case5 number position line rest hrest hge ih =>
    obtain ⟨earlier, later, rfl, hnumber, hposition, hoffset⟩ := ih h
    refine ⟨line :: earlier, later, rfl, ?_, ?_, hoffset⟩
    · rw [hnumber, List.length_cons]
      omega
    · rw [List.flatten_cons, byteLength_append]
      omega

/-- Where the line of a place stands among the lines of a source. -/
structure LinePlace.Splits (source : String) (position : Nat) (place : LinePlace)
    (earlier later : List (List Char)) : Prop where
  lines_eq : lines source.toList = earlier ++ place.text :: later
  number_eq : place.number = earlier.length + 1
  position_eq : byteLength earlier.flatten + place.offset = position
  offset_le : place.offset < byteLength place.text ∨
    later = [] ∧ place.offset ≤ byteLength place.text

theorem lineAt_eq_none_iff {source : String} {position : Nat} :
    lineAt source position = none ↔ source.utf8ByteSize < position := by
  rw [lineAt, placeIn_eq_none_iff (lines_ne_nil _), flatten_lines, utf8ByteSize_eq]

theorem exists_splits {source : String} {position : Nat} {place : LinePlace}
    (h : lineAt source position = some place) :
    ∃ earlier later, place.Splits source position earlier later := by
  obtain ⟨earlier, later, hlines, hnumber, hposition, hoffset⟩ := exists_split_of_placeIn h
  exact ⟨earlier, later, hlines, by omega, hposition, hoffset⟩

/-- A place that is not behind the end has a line. -/
theorem exists_lineAt {source : String} {position : Nat} (h : position ≤ source.utf8ByteSize) :
    ∃ place earlier later, lineAt source position = some place ∧
      place.Splits source position earlier later := by
  obtain ⟨place, hplace⟩ : ∃ place, lineAt source position = some place := by
    rw [← Option.ne_none_iff_exists', ne_eq, lineAt_eq_none_iff]
    omega
  obtain ⟨earlier, later, hsplits⟩ := exists_splits hplace
  exact ⟨place, earlier, later, hplace, hsplits⟩

/-! ## Places in bytes -/

/-- The byte of a newline. -/
def newline : UInt8 := 0x0a

/-- How many bytes there are behind the last newline. -/
def sinceNewline (bytes : List UInt8) : Nat :=
  (bytes.reverse.takeWhile (· != newline)).length

/-- The bytes up to the first newline and with it, or all of them. -/
def throughNewline : List UInt8 → List UInt8
  | [] => []
  | byte :: rest => if byte = newline then [byte] else byte :: throughNewline rest

theorem newline_mem_encode {chars : List Char} : newline ∈ encode chars ↔ '\n' ∈ chars :=
  mem_encode_iff (d := '\n') (by decide)

theorem encode_ended (front : List Char) : encode (front ++ ['\n']) = encode front ++ [newline] := by
  rw [encode_append]
  rfl

theorem sinceNewline_append {bytes : List UInt8} (h : newline ∉ bytes) (front : List UInt8) :
    sinceNewline (front ++ bytes) = bytes.length + sinceNewline front := by
  have hall : ∀ byte ∈ bytes.reverse, (byte != newline) = true := by
    intro byte hbyte
    rw [bne_iff_ne]
    rintro rfl
    exact h (List.mem_reverse.mp hbyte)
  unfold sinceNewline
  rw [List.reverse_append, List.takeWhile_append_of_pos hall, List.length_append,
    List.length_reverse]

theorem sinceNewline_concat (front : List UInt8) : sinceNewline (front ++ [newline]) = 0 := by
  simp [sinceNewline]

theorem throughNewline_of_not_mem {bytes : List UInt8} (h : newline ∉ bytes) :
    throughNewline bytes = bytes := by
  induction bytes with
  | nil => rfl
  | cons byte rest ih =>
    rw [List.mem_cons, not_or] at h
    rw [throughNewline, if_neg (Ne.symm h.1), ih h.2]

theorem throughNewline_append {bytes : List UInt8} (h : newline ∉ bytes) (rest : List UInt8) :
    throughNewline (bytes ++ newline :: rest) = bytes ++ [newline] := by
  induction bytes with
  | nil => rw [List.nil_append, throughNewline, if_pos rfl, List.nil_append]
  | cons byte bytes ih =>
    rw [List.mem_cons, not_or] at h
    rw [List.cons_append, throughNewline, if_neg (Ne.symm h.1), ih h.2, List.cons_append]

/-- The line of a place, as it is told by the newlines of the source. -/
structure LinePlace.IsAt (source : String) (position : Nat) (place : LinePlace) : Prop where
  number_eq : place.number = ((utf8 source).take position).count newline + 1
  offset_eq : place.offset = sinceNewline ((utf8 source).take position)
  text_eq : encode place.text = throughNewline ((utf8 source).drop (position - place.offset))

/-- Lines that are ended have as many newlines, and a newline at their end. -/
theorem encode_flatten_ended {earlier : List (List Char)} (h : ∀ line ∈ earlier, Ended line) :
    (encode earlier.flatten).count newline = earlier.length ∧
      (earlier = [] ∨ ∃ front, encode earlier.flatten = front ++ [newline]) := by
  induction earlier with
  | nil => exact ⟨rfl, Or.inl rfl⟩
  | cons line earlier ih =>
    obtain ⟨⟨front, rfl, hfront⟩, hearlier⟩ := List.forall_mem_cons.mp h
    obtain ⟨hcount, hend⟩ := ih hearlier
    have hnone : (encode front).count newline = 0 :=
      List.count_eq_zero.mpr (mt newline_mem_encode.mp hfront)
    rw [List.flatten_cons, encode_append, encode_ended]
    constructor
    · simp only [List.count_append, hnone, hcount, List.count_singleton_self, List.length_cons]
      omega
    · rcases hend with rfl | ⟨others, hothers⟩
      · exact Or.inr ⟨encode front, by simp⟩
      · exact Or.inr ⟨encode front ++ newline :: others, by rw [hothers]; simp⟩

namespace LinePlace.Splits

variable {source : String} {position : Nat} {place : LinePlace} {earlier later : List (List Char)}

theorem offset_le_byteLength (h : place.Splits source position earlier later) :
    place.offset ≤ byteLength place.text :=
  h.offset_le.elim Nat.le_of_lt And.right

theorem toList_eq (h : place.Splits source position earlier later) :
    source.toList = earlier.flatten ++ (place.text ++ later.flatten) := by
  have hlines := flatten_lines source.toList
  rw [h.lines_eq] at hlines
  simpa using hlines.symm

theorem utf8_eq (h : place.Splits source position earlier later) :
    utf8 source = encode earlier.flatten ++ (encode place.text ++ encode later.flatten) := by
  rw [utf8_eq_encode, h.toList_eq, encode_append, encode_append]

theorem of_append (h : place.Splits source position earlier later) :
    (∀ line ∈ earlier, Ended line) ∧
      (later = [] ∧ '\n' ∉ place.text ∨ later ≠ [] ∧ Ended place.text) :=
  IsLines.of_append (h.lines_eq ▸ isLines_lines source.toList)

/-- In front of a place, its line has no newline. -/
theorem newline_not_mem_take (h : place.Splits source position earlier later) :
    newline ∉ (encode place.text).take place.offset := by
  rcases h.of_append.2 with ⟨-, hnone⟩ | ⟨hlater, front, htext, hfront⟩
  · exact fun hmem => hnone (newline_mem_encode.mp (List.mem_of_mem_take hmem))
  · -- the newline is the last byte, and the place is not behind it
    have hlt := h.offset_le.resolve_right fun hlast => hlater hlast.1
    rw [htext, byteLength_append] at hlt
    have hle : place.offset ≤ (encode front).length := by
      rw [length_encode]
      exact Nat.le_of_lt_succ hlt
    rw [htext, encode_ended, List.take_append_of_le_length hle]
    exact fun hmem => hfront (newline_mem_encode.mp (List.mem_of_mem_take hmem))

theorem take_utf8 (h : place.Splits source position earlier later) :
    (utf8 source).take position =
      encode earlier.flatten ++ (encode place.text).take place.offset := by
  have hle : place.offset ≤ (encode place.text).length := by
    rw [length_encode]
    exact h.offset_le_byteLength
  rw [h.utf8_eq, ← h.position_eq, ← length_encode, List.take_length_add_append,
    List.take_append_of_le_length hle]

/-- A place before the end of the source is before the end of its line. -/
theorem offset_lt (h : place.Splits source position earlier later)
    (hlt : position < source.utf8ByteSize) : place.offset < byteLength place.text := by
  rcases h.offset_le with hoffset | ⟨rfl, -⟩
  · exact hoffset
  · have hposition := h.position_eq
    rw [utf8ByteSize_eq, h.toList_eq, List.flatten_nil, List.append_nil, byteLength_append] at hlt
    omega

/-- A byte of the line is one of the source, as far from the place as it is there. -/
theorem getElem?_utf8 (h : place.Splits source position earlier later) {i j : Nat}
    (hij : i + place.offset = position + j) (hj : j < byteLength place.text) :
    (utf8 source)[i]? = (encode place.text)[j]? := by
  have hposition := h.position_eq
  have hi : i = (encode earlier.flatten).length + j := by
    rw [length_encode]
    omega
  rw [h.utf8_eq, hi, List.getElem?_append_right (Nat.le_add_right _ _), Nat.add_sub_cancel_left,
    List.getElem?_append_left (by rwa [length_encode])]

theorem isAt (h : place.Splits source position earlier later) : place.IsAt source position := by
  obtain ⟨hearlier, hline⟩ := h.of_append
  obtain ⟨hcount, hend⟩ := encode_flatten_ended hearlier
  have htake := h.newline_not_mem_take
  have hlength : ((encode place.text).take place.offset).length = place.offset := by
    rw [List.length_take, length_encode, Nat.min_eq_left h.offset_le_byteLength]
  constructor
  · rw [h.take_utf8, List.count_append, hcount, List.count_eq_zero.mpr htake, h.number_eq,
      Nat.add_zero]
  · rw [h.take_utf8, sinceNewline_append htake, hlength]
    rcases hend with rfl | ⟨front, hfront⟩
    · rfl
    · rw [hfront, sinceNewline_concat, Nat.add_zero]
  · have hdrop : (utf8 source).drop (position - place.offset) =
        encode place.text ++ encode later.flatten := by
      have hposition := h.position_eq
      have hstart : position - place.offset = (encode earlier.flatten).length := by
        rw [length_encode]
        omega
      rw [h.utf8_eq, hstart, List.drop_left]
    rw [hdrop]
    rcases hline with ⟨rfl, hnone⟩ | ⟨-, front, htext, hfront⟩
    · rw [List.flatten_nil, encode_nil, List.append_nil,
        throughNewline_of_not_mem (mt newline_mem_encode.mp hnone)]
    · rw [htext, encode_ended, List.append_assoc, List.singleton_append,
        throughNewline_append (mt newline_mem_encode.mp hfront)]

end LinePlace.Splits

/-- **A place is found in its line.** There is no line for a place exactly if it is behind the end
of the source. Any other place, the end itself included, has the line with the number of the
newlines in front of it, and one; it stands behind the last of these, or behind the start, by its
offset; and the line goes from there to the next newline, or to the end. So the place is within the
line, and the lines in front of it and the offset lead back to it. -/
theorem lineAt_exact (source : String) (position : Nat) :
    (lineAt source position = none ↔ source.utf8ByteSize < position) ∧
      (position ≤ source.utf8ByteSize → ∃ place, lineAt source position = some place ∧
        place.IsAt source position ∧ place.offset ≤ byteLength place.text ∧
        ∃ (earlier : List (List Char)) (later : List Char),
          source.toList = earlier.flatten ++ (place.text ++ later) ∧
          (∀ line ∈ earlier, Ended line) ∧ earlier.length + 1 = place.number ∧
          (earlier.map byteLength).sum + place.offset = position) := by
  refine ⟨lineAt_eq_none_iff, fun hposition => ?_⟩
  obtain ⟨place, earlier, later, hplace, hsplits⟩ := exists_lineAt hposition
  refine ⟨place, hplace, hsplits.isAt, hsplits.offset_le_byteLength, earlier, later.flatten,
    hsplits.toList_eq, hsplits.of_append.1, hsplits.number_eq.symm, ?_⟩
  rw [← byteLength_flatten]
  exact hsplits.position_eq

/-- The end of a source behind its last newline, and a place inside of a character. -/
theorem lineAt_exact_at_end :
    8 ≤ "a\n\nbé\nc".utf8ByteSize ∧ lineAt "a\n\nbé\nc" 5 = some ⟨3, ['b', 'é', '\n'], 2⟩ ∧
      ∃ place, lineAt "a\n\nbé\nc" 8 = some place ∧ place.IsAt "a\n\nbé\nc" 8 ∧
        place.offset ≤ byteLength place.text ∧
        ∃ (earlier : List (List Char)) (later : List Char),
          "a\n\nbé\nc".toList = earlier.flatten ++ (place.text ++ later) ∧
          (∀ line ∈ earlier, Ended line) ∧ earlier.length + 1 = place.number ∧
          (earlier.map byteLength).sum + place.offset = 8 :=
  ⟨by decide, by decide, (lineAt_exact "a\n\nbé\nc" 8).2 (by decide)⟩

end MonkeySyntax
