import Scaffold.Text.AsciiFold
import Scaffold.Text.Blank

/-!
# Slugs

A slug is a text made fit to be a package name: accents are folded away, words are joined by single
hyphens, and whatever a link could not hold is dropped.

* **Normal form.** The characters of a slug are those of `isSlugChar`, no two hyphens stand together,
  and neither end is a hyphen or a dot.
-/

namespace Scaffold.Name

/-- A lower-case ASCII letter or a digit. -/
def isLowerAlphanumeric (c : Char) : Bool := ('a' ≤ c && c ≤ 'z') || ('0' ≤ c && c ≤ '9')

/-- A character that a slug keeps. -/
def isSlugChar (c : Char) : Bool :=
  isLowerAlphanumeric c || c == '-' || c == '.' || c == '_' || c == '~'

/-- White space or an underscore: what separates words. -/
def isSeparator (c : Char) : Bool := Text.isBlank c || c == '_'

/-- A character that a slug neither begins nor ends with. -/
def isSlugEdge (c : Char) : Bool := c == '-' || c == '.' || c == '_'

/-- Puts one hyphen for each run of characters of class `p`. The flag says whether the character
before was in a run. -/
def hyphenateFrom (p : Char → Bool) (inRun : Bool) : List Char → List Char
  | [] => []
  | c :: rest =>
    if p c then (if inRun then [] else ['-']) ++ hyphenateFrom p true rest
    else c :: hyphenateFrom p false rest

/-- Puts one hyphen for each run of characters of class `p`. -/
def hyphenate (p : Char → Bool) (s : List Char) : List Char := hyphenateFrom p false s

/-- The slug of a text. Dropping characters may bring hyphens together, so the hyphens are joined
once more after it. -/
def slug (s : List Char) : List Char :=
  let folded := Text.trimBy Text.isBlank (Text.foldAscii s)
  let words := hyphenate isSeparator (folded.map Char.toLower)
  Text.trimBy isSlugEdge (hyphenate (· == '-') (words.filter isSlugChar))

/-- The slug of a text. -/
def slugOf (s : String) : String := String.ofList (slug s.toList)

end Scaffold.Name
