/-!
# MonkeySyntax — decimal numbers

The value of a run of decimal digits, and the range of the integers of Monkey: those of a signed
64-bit word. A literal has no sign, so only the upper end of the range can be passed.
-/

namespace MonkeySyntax

/-- The largest integer: one less than the 63rd power of two. -/
def largestInteger : Nat :=
  9223372036854775807

/-- The value of a list of digits, the most significant first. -/
def decimalValue (digits : List Char) : Nat :=
  digits.foldl (fun value digit => 10 * value + (digit.toNat - '0'.toNat)) 0

/-- The integer that a text denotes: one or more digits whose value is in the range. -/
def integerValue? (text : String) : Option Int :=
  let digits := text.toList
  if digits ≠ [] ∧ digits.all Char.isDigit ∧ decimalValue digits ≤ largestInteger then
    some (decimalValue digits)
  else
    none

theorem integerValue?_eq_some_iff {text : String} {value : Int} :
    integerValue? text = some value ↔
      text.toList ≠ [] ∧ text.toList.all Char.isDigit = true ∧
        decimalValue text.toList ≤ largestInteger ∧ value = decimalValue text.toList := by
  simp only [integerValue?]
  split
  · next h => simp [h, eq_comm]
  · next h =>
    simp only [reduceCtorEq, false_iff]
    rintro ⟨hnil, hdigits, hrange, -⟩
    exact h ⟨hnil, hdigits, hrange⟩

theorem decimalValue_append_singleton (digits : List Char) (digit : Char) :
    decimalValue (digits ++ [digit]) = 10 * decimalValue digits + (digit.toNat - '0'.toNat) := by
  simp [decimalValue]

end MonkeySyntax
