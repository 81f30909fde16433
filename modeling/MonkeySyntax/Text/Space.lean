/-!
# MonkeySyntax — white space at the end of a line

White space in the sense of Unicode: the twenty-five characters of the property `White_Space`. A
line is shown without the white space at its end. The lexer knows blanks of its own, four bytes of
ASCII, which are among these.
-/

namespace MonkeySyntax

/-- The code points of white space, from the first of a pair to the second. -/
def whiteSpace : List (Nat × Nat) :=
  [(0x09, 0x0d), (0x20, 0x20), (0x85, 0x85), (0xa0, 0xa0), (0x1680, 0x1680), (0x2000, 0x200a),
    (0x2028, 0x2029), (0x202f, 0x202f), (0x205f, 0x205f), (0x3000, 0x3000)]

def isWhiteSpace (c : Char) : Bool :=
  whiteSpace.any fun range => range.1 ≤ c.toNat && c.toNat ≤ range.2

/-- The white space of ASCII that strings are trimmed of by default is white space here. -/
theorem isWhiteSpace_of_isWhitespace {c : Char} (h : c.isWhitespace = true) :
    isWhiteSpace c = true := by
  simp only [Char.isWhitespace, Bool.or_eq_true, decide_eq_true_eq] at h
  rcases h with ((rfl | rfl) | rfl) | rfl <;> decide

/-- The characters up to the last one that is no white space. -/
def trimEnd (text : List Char) : List Char :=
  (text.reverse.dropWhile isWhiteSpace).reverse

end MonkeySyntax
