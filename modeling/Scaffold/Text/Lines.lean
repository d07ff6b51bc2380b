/-!
# Lines

Where a text is cut into lines, and how the line ends of a file become newlines.

* **Wide line breaks.** `breakLines` cuts at any line boundary of Unicode and drops the boundary.
* **Folding.** `foldNewlines` is what reading a file does: afterwards no carriage return is left.
-/

namespace Scaffold.Text

/-- The characters that end a line in the wide sense: newline, vertical tab, form feed, carriage
return, the file, group and record separators, next line, and the two Unicode separators. -/
def isLineBreak (c : Char) : Bool :=
  let n := c.toNat
  (0x0A ≤ n && n ≤ 0x0D) || (0x1C ≤ n && n ≤ 0x1E) || n == 0x85 || n == 0x2028 || n == 0x2029

/-- Splits at every line break, a carriage return and newline being one. `line` holds the characters
of the current line in reverse; a last line without characters is no line. -/
def breakLinesFrom (line : List Char) : List Char → List (List Char)
  | [] => if line.isEmpty then [] else [line.reverse]
  | '\r' :: '\n' :: rest => line.reverse :: breakLinesFrom [] rest
  | c :: rest =>
    if isLineBreak c then line.reverse :: breakLinesFrom [] rest
    else breakLinesFrom (c :: line) rest

/-- The lines of a text in the wide sense, without their ends. -/
def breakLines (s : List Char) : List (List Char) := breakLinesFrom [] s

/-- Reads every kind of line end as one newline: a carriage return, with the newline after it if
there is one, becomes a newline. -/
def foldNewlines : List Char → List Char
  | [] => []
  | '\r' :: '\n' :: rest => '\n' :: foldNewlines rest
  | c :: rest => (if c == '\r' then '\n' else c) :: foldNewlines rest

end Scaffold.Text
