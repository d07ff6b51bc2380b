import Scaffold.Decimal.Layout
import Scaffold.Json.Basic
import Scaffold.Text.Quoted

/-!
# Writing JSON values

One writer lays out a value; a style gives it its words, its quotation and its spacing.

* **Files** have one member or item a line, indented by two spaces a level, and end with a newline.
* **Lines** keep a value on one line, with a space after each comma and colon.
* **Messages** show a value with quoted text and capitalised words.
-/

namespace Scaffold.Json

/-- How values are written, with characters or with what else stands at the places of a text. -/
structure Style (γ : Type) where
  /-- how the characters of the layout are written -/
  chars : List Char → List γ
  /-- how strings and keys are written -/
  text : Wide → List γ
  /-- the word for the null value -/
  null : String
  /-- the words for the truth values -/
  truth : Bool → String
  /-- how numbers that are not integers are written -/
  number : Decimal.Layout
  /-- what stands inside a bracket, at each end of a list or object; the argument is the depth -/
  edge : Nat → List Char
  /-- what follows a comma; the argument is the depth -/
  gap : Nat → List Char

/-- An integer in decimal. -/
def writeInt (i : Int) : List Char :=
  let digits := Nat.toDigits 10 i.natAbs
  if i < 0 then '-' :: digits else digits

variable {γ : Type}

mutual
/-- Writes a value that stands at the given depth. -/
def write (st : Style γ) (depth : Nat) : Json → List γ
  | .null => st.chars st.null.toList
  | .bool b => st.chars (st.truth b).toList
  | .int i => st.chars (writeInt i)
  | .float x => st.chars (st.number.write x)
  | .str s => st.text s
  | .arr [] => st.chars ['[', ']']
  | .arr (x :: xs) =>
    st.chars ('[' :: st.edge (depth + 1)) ++ write st (depth + 1) x ++
      writeItems st (depth + 1) xs ++ st.chars (st.edge depth ++ [']'])
  | .obj [] => st.chars ['\x7b', '\x7d']
  | .obj ((k, v) :: ms) =>
    st.chars ('\x7b' :: st.edge (depth + 1)) ++ st.text k ++ st.chars [':', ' '] ++
      write st (depth + 1) v ++ writeMembers st (depth + 1) ms ++ st.chars (st.edge depth ++ ['\x7d'])

/-- Writes the items after the first. -/
def writeItems (st : Style γ) (depth : Nat) : List Json → List γ
  | [] => []
  | x :: xs => st.chars (',' :: st.gap depth) ++ write st depth x ++ writeItems st depth xs

/-- Writes the members after the first. -/
def writeMembers (st : Style γ) (depth : Nat) : List (Wide × Json) → List γ
  | [] => []
  | (k, v) :: ms =>
    st.chars (',' :: st.gap depth) ++ st.text k ++ st.chars [':', ' '] ++ write st depth v ++
      writeMembers st depth ms
end

/-- A character of a string in a JSON text. Only what has to be is escaped: the quotation mark, the
backslash and the control characters. -/
def writeChar (c : Char) : List Char :=
  if c == '"' then ['\\', '"']
  else if c == '\\' then ['\\', '\\']
  else if c == '\n' then ['\\', 'n']
  else if c == '\r' then ['\\', 'r']
  else if c == '\t' then ['\\', 't']
  else if c == '\x0c' then ['\\', 'f']
  else if c == '\x08' then ['\\', 'b']
  else if c.toNat < 0x20 then '\\' :: 'u' :: Text.hexPadded 4 c.toNat
  else [c]

/-- A code point of a string in a JSON text. A lone half is not escaped. -/
def writePoint : CodePoint → List CodePoint
  | .char c => (writeChar c).map .char
  | .half u => [.half u]

/-- A string in a JSON text. -/
def writeText (s : Wide) : List CodePoint :=
  .char '"' :: s.points.flatMap writePoint ++ [.char '"']

/-- A new line, indented by two spaces a level. -/
def newLine (depth : Nat) : List Char := '\n' :: List.replicate (2 * depth) ' '

/-- The style of JSON on one line. -/
def Style.line : Style CodePoint :=
  ⟨List.map .char, writeText, "null", fun b => if b then "true" else "false", .json, fun _ => [],
    fun _ => [' ']⟩

/-- The style of JSON files. -/
def Style.file : Style CodePoint :=
  ⟨List.map .char, writeText, "null", fun b => if b then "true" else "false", .json, newLine, newLine⟩

/-- The style of values in messages. -/
def Style.message : Style Char :=
  ⟨id, fun s => Text.quotedPoints s.points, "None", fun b => if b then "True" else "False", .message,
    fun _ => [], fun _ => [' ']⟩

/-- A value on one line. -/
def toLine (v : Json) : Wide := .ofPoints (write .line 0 v)

/-- A value as the content of a file. -/
def toFile (v : Json) : Wide := .ofPoints (write .file 0 v ++ [.char '\n'])

/-- A value as a message shows it. -/
def shown (v : Json) : String := String.ofList (write .message 0 v)

end Scaffold.Json
