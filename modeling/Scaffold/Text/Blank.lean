/-!
# Blank characters and trimming

The characters that count as white space, in names and in patched sources alike: the ASCII blanks
and line ends, the four information separators, and the Unicode spaces.

* **One class.** `isBlank` is the only notion of white space; it is wider than `Char.isWhitespace`.
* **Trimming** takes a class of characters off both ends of a text and nothing from its middle.
-/

namespace Scaffold.Text

/-- White space: tab to carriage return, the information separators, the space, next line, and the
spaces and separators of Unicode. -/
def isBlank (c : Char) : Bool :=
  let n := c.toNat
  (0x09 ≤ n && n ≤ 0x0D) || (0x1C ≤ n && n ≤ 0x20) || n == 0x85 || n == 0xA0 || n == 0x1680 ||
    (0x2000 ≤ n && n ≤ 0x200A) || n == 0x2028 || n == 0x2029 || n == 0x202F || n == 0x205F ||
    n == 0x3000

/-- A space or a tab: the blanks that never end a line. -/
def isSpacing (c : Char) : Bool := c == ' ' || c == '\t'

/-- The text without the characters of class `p` at its end. -/
def trimEnd (p : Char → Bool) (s : List Char) : List Char :=
  (s.reverse.dropWhile p).reverse

/-- The text without the characters of class `p` at either end. -/
def trimBy (p : Char → Bool) (s : List Char) : List Char :=
  trimEnd p (s.dropWhile p)

/-- The text without white space at either end. -/
def trim (s : String) : String :=
  String.ofList (trimBy isBlank s.toList)

end Scaffold.Text
