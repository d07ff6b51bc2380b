/-!
# Strings that need not be texts

An escape in a JSON text may name one half of a surrogate pair without the other. A string that is
read from such a text keeps the half, which stands for no character and has no encoding.

* **Texts are the usual case.** Every text is such a string, one in which no half stands alone.
* **Encoding** succeeds for texts, and is refused at the first lone half of any other string.
* **Order** is that of the code points.
* **Reading** goes letter by letter. Texts and other strings are read alike: a lone half is taken for a
  character that has no meaning of its own.
-/

namespace Scaffold

/-- The number of one half of a surrogate pair. -/
abbrev Surrogate := { n : Nat // 0xD800 ≤ n ∧ n < 0xE000 }

/-- One place of a string. -/
inductive CodePoint where
  /-- a character -/
  | char (c : Char)
  /-- a lone half of a surrogate pair -/
  | half (u : Surrogate)
  deriving DecidableEq, Repr

/-- The number of a code point. -/
def CodePoint.number : CodePoint → Nat
  | .char c => c.toNat
  | .half u => u

/-- A string in which halves of surrogate pairs may stand alone. -/
inductive Wide where
  /-- no half stands alone -/
  | text (s : String)
  /-- the text before the first lone half, the half, and what follows it -/
  | half (before : String) (u : Surrogate) (after : Wide)
  deriving DecidableEq, Repr

instance : Inhabited Wide := ⟨.text ""⟩

instance : Coe String Wide := ⟨.text⟩

/-- Halves of surrogate pairs that keep a string from being encoded. -/
structure LoneHalves where
  /-- the first of them -/
  first : Surrogate
  /-- the number of code points before it -/
  offset : Nat
  /-- how many there are, one right after another -/
  count : Nat
  deriving DecidableEq, Repr

namespace Wide

/-- The code points of a string. -/
def points : Wide → List CodePoint
  | .text s => s.toList.map .char
  | .half before u after => before.toList.map .char ++ .half u :: after.points

/-- The string of the code points, behind characters that are given in reverse. -/
def gather (chars : List Char) : List CodePoint → Wide
  | [] => .text (String.ofList chars.reverse)
  | .char c :: rest => gather (c :: chars) rest
  | .half u :: rest => .half (String.ofList chars.reverse) u (gather [] rest)

/-- The string of the code points. -/
def ofPoints (points : List CodePoint) : Wide := gather [] points

/-- The numbers of the code points. -/
def numbers (s : Wide) : List Nat := s.points.map CodePoint.number

/-- Strings are ordered by the numbers of their code points. -/
instance : LT Wide := ⟨fun s t => List.Lex (· < ·) s.numbers t.numbers⟩

instance : LE Wide := ⟨fun s t => ¬ t < s⟩

instance : DecidableLT Wide := fun s t =>
  @List.decidableLex Nat instDecidableEqNat (· < ·) Nat.decLt s.numbers t.numbers

instance : DecidableLE Wide := fun s t => inferInstanceAs (Decidable (¬ t < s))

/-- Whether a string holds nothing. -/
def isEmpty : Wide → Bool
  | .text s => s.isEmpty
  | .half _ _ _ => false

/-- Whether a string is a text. -/
def isText : Wide → Bool
  | .text _ => true
  | .half _ _ _ => false

/-- A string as reports show it: each lone half is replaced, once for each byte that it would take. -/
def shown : Wide → String
  | .text s => s
  | .half before _ after => before ++ "\uFFFD\uFFFD\uFFFD" ++ after.shown

/-- The number of lone halves at the start of a string. -/
def leadingHalves : Wide → Nat
  | .text _ => 0
  | .half before _ after => if before.isEmpty then after.leadingHalves + 1 else 0

/-- The text that a string is, or the lone halves that keep it from being one. -/
def asText : Wide → Except LoneHalves String
  | .text s => .ok s
  | .half before u after => .error ⟨u, before.length, after.leadingHalves + 1⟩

end Wide

/-- What strings are read from, one after another. -/
class Letter (γ : Type) where
  /-- the character that it is taken for -/
  char : γ → Char
  /-- the code point that it is -/
  point : γ → CodePoint

instance : Letter Char := ⟨id, .char⟩

instance : Letter CodePoint where
  char
    | .char c => c
    | .half _ => '\uFFFD'
  point := id

/-- The characters that letters are taken for. -/
def Letter.chars {γ : Type} [Letter γ] (s : List γ) : List Char := s.map Letter.char

end Scaffold
