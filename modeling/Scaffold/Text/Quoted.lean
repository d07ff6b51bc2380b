import Scaffold.Text.Printable
import Scaffold.Text.Wide

/-!
# Quoted text

How a text is shown inside a message: between quotation marks, on one line, with every character
that has no visible form written as an escape.

* **The mark** is the apostrophe, unless the text holds apostrophes and no double quote.
* **Escapes** are the shortest that fit: a letter for the line ends and the tab, otherwise two, four
  or eight hexadecimal digits.
-/

namespace Scaffold.Text

/-- The apostrophe. -/
def apostrophe : Char := '\x27'

/-- The digits of `n` in base sixteen, lower case, padded with zeros to `width`. -/
def hexPadded (width n : Nat) : List Char :=
  let digits := Nat.toDigits 16 n
  List.replicate (width - digits.length) '0' ++ digits

/-- The mark a text is quoted with. -/
def quotationMark (s : List Char) : Char :=
  if s.contains apostrophe && !s.contains '"' then '"' else apostrophe

/-- One character of a text quoted with `mark`. -/
def quoteChar (mark c : Char) : List Char :=
  if c == mark || c == '\\' then ['\\', c]
  else if c == '\n' then ['\\', 'n']
  else if c == '\r' then ['\\', 'r']
  else if c == '\t' then ['\\', 't']
  else if isPrintable c then [c]
  else if c.toNat < 0x100 then '\\' :: 'x' :: hexPadded 2 c.toNat
  else if c.toNat < 0x10000 then '\\' :: 'u' :: hexPadded 4 c.toNat
  else '\\' :: 'U' :: hexPadded 8 c.toNat

/-- One code point of a string quoted with `mark`. -/
def quotePoint (mark : Char) : CodePoint → List Char
  | .char c => quoteChar mark c
  | .half u => '\\' :: 'u' :: hexPadded 4 u

/-- The character at a place of a string, if one is there. -/
def char? : CodePoint → Option Char
  | .char c => some c
  | .half _ => none

/-- The code points between quotation marks. -/
def quotedPoints (points : List CodePoint) : List Char :=
  let mark := quotationMark (points.filterMap char?)
  mark :: points.flatMap (quotePoint mark) ++ [mark]

/-- The text between quotation marks. -/
def quoted (s : String) : String :=
  let mark := quotationMark s.toList
  String.ofList (mark :: s.toList.flatMap (quoteChar mark) ++ [mark])

end Scaffold.Text
