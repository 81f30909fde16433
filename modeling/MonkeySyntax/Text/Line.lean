/-!
# MonkeySyntax — lines and places in a text

A text is cut into lines after each newline. A line holds its newline, and the last line, which has
none, may be empty: the lines together are the text, and there is always at least one.

A place in a text is counted in bytes of UTF-8 from its start, so it may fall inside a character.
`lineAt` finds the line of a place. The place right after a newline belongs to the line that begins
there, and the end of the text to the last line; a place past the end belongs to no line.
-/

namespace MonkeySyntax

/-- A line of a text and a place in it. -/
structure LinePlace where
  /-- The number of the line, from 1. -/
  number : Nat
  /-- The line with its newline. -/
  text : List Char
  /-- The place, in bytes from the start of the line. -/
  offset : Nat
  deriving DecidableEq, Repr, Inhabited

/-- The number of bytes of a text in UTF-8. -/
def byteLength : (text : List Char) → Nat
  | [] => 0
  | c :: rest => c.utf8Size + byteLength rest

/-- The lines of a text, each with its newline; the last has none. -/
def lines : List Char → List (List Char)
  | [] => [[]]
  | c :: rest =>
    if c = '\n' then
      ['\n'] :: lines rest
    else
      match lines rest with
      | [] => [[c]]
      | line :: others => (c :: line) :: others

/-- The line that a place falls in, where `number` is the number of the first of `lines` and
`position` the number of bytes from its start. -/
def placeIn (number position : Nat) : (lines : List (List Char)) → Option LinePlace
  | [] => none
  | [last] => if position ≤ byteLength last then some ⟨number, last, position⟩ else none
  | line :: rest =>
    if position < byteLength line then
      some ⟨number, line, position⟩
    else
      placeIn (number + 1) (position - byteLength line) rest

/-- The line that the place `position` of `text` falls in. -/
def lineAt (text : String) (position : Nat) : Option LinePlace :=
  placeIn 1 position (lines text.toList)

theorem lines_ne_nil (text : List Char) : lines text ≠ [] := by
  cases text with
  | nil => simp [lines]
  | cons c rest =>
    rw [lines]
    split
    · simp
    · split <;> simp

theorem flatten_lines (text : List Char) : (lines text).flatten = text := by
  induction text with
  | nil => rfl
  | cons c rest ih =>
    rw [lines]
    split
    · next hc => simp [ih, hc]
    · split
      · next hnil => exact absurd hnil (lines_ne_nil rest)
      · next line others hcons =>
        rw [hcons, List.flatten_cons] at ih
        simp [← ih]

@[simp]
theorem byteLength_append (s t : List Char) :
    byteLength (s ++ t) = byteLength s + byteLength t := by
  induction s with
  | nil => simp [byteLength]
  | cons c rest ih =>
    rw [List.cons_append, byteLength, byteLength, ih]
    omega

end MonkeySyntax
