import MonkeySyntax.Text.Printable

/-!
# MonkeySyntax — text in quotation marks

A message shows a piece of text between quotation marks, so that its ends and its invisible
characters can be seen. A quotation mark and a backslash get a backslash before them; a newline, a
carriage return, a tab and a null are written by a letter or digit after a backslash; any other
character that is not printable is written by its code point in hexadecimal digits without leading
zeros. Everything else, an apostrophe too, stands for itself.
-/

namespace MonkeySyntax

/-- The code point of `c` between curly brackets, after a backslash and a `u`. -/
def escapeCodePoint (c : Char) : List Char :=
  ['\\', 'u', '\x7b'] ++ Nat.toDigits 16 c.toNat ++ ['\x7d']

/-- How a character is written between quotation marks. -/
def escapeChar (c : Char) : List Char :=
  if c = '"' then ['\\', '"']
  else if c = '\\' then ['\\', '\\']
  else if c = '\n' then ['\\', 'n']
  else if c = '\r' then ['\\', 'r']
  else if c = '\t' then ['\\', 't']
  else if c = '\x00' then ['\\', '0']
  else if isPrintable c then [c]
  else escapeCodePoint c

def quoted (text : String) : String :=
  "\"" ++ String.ofList (text.toList.flatMap escapeChar) ++ "\""

end MonkeySyntax
