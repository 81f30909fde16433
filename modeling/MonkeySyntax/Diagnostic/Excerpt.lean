import MonkeySyntax.Diagnostic.Basic
import MonkeySyntax.Text.Line
import MonkeySyntax.Text.Space

/-!
# MonkeySyntax — diagnostics beside the source

A diagnostic is shown with the line that it is about and a caret under the place:

```text
Error: UnexpectedToken (Expected `=`, found `INT`)
-> main.monkey
  |
1 | let x 5;
  | ------^
```

The line is shown without the blanks that it begins with and the white space that it ends with. The
caret stands as many columns from the left as there are bytes between the first byte shown and the
place, and in the first column for a place among the blanks. A diagnostic on a place that is not in
the source is shown by its message alone.
-/

namespace MonkeySyntax

def isIndent (c : Char) : Bool :=
  c = ' ' || c = '\t'

namespace LinePlace

/-- The text of the line without the indentation and the white space at the end. -/
def shown (place : LinePlace) : List Char :=
  trimEnd (place.text.dropWhile isIndent)

def indent (place : LinePlace) : Nat :=
  (place.text.takeWhile isIndent).length

def label (place : LinePlace) : List Char :=
  Nat.toDigits 10 place.number

/-- The margin beside a line without a number, as wide as the one with the number. -/
def gutter (place : LinePlace) : List Char :=
  List.replicate (place.label.length + 1) ' ' ++ ['|']

/-- The line under a gutter, and a caret under the place. -/
def excerpt (place : LinePlace) : List (List Char) :=
  [place.gutter,
    place.label ++ [' ', '|', ' '] ++ place.shown,
    place.gutter ++ [' '] ++ List.replicate (place.offset - place.indent) '-' ++ ['^']]

end LinePlace

namespace Diagnostic

def headline (diagnostic : Diagnostic) : String :=
  match diagnostic.cause.tip? with
  | none => "Error: " ++ diagnostic.cause.name
  | some tip => "Error: " ++ diagnostic.cause.name ++ " (" ++ tip ++ ")"

/-- What is shown of the place: an excerpt of the source, or the message if the place is not in
it. -/
def details (diagnostic : Diagnostic) (source : String) : List String :=
  match lineAt source diagnostic.position.toNat with
  | none => ["   " ++ diagnostic.cause.message]
  | some place => place.excerpt.map String.ofList

def reportLines (diagnostic : Diagnostic) (source file : String) : List String :=
  diagnostic.headline :: ("-> " ++ file) :: diagnostic.details source

/-- The diagnostic as text, each line ended by a newline. -/
def report (diagnostic : Diagnostic) (source file : String) : String :=
  String.join ((diagnostic.reportLines source file).map (· ++ "\n"))

end Diagnostic

end MonkeySyntax
