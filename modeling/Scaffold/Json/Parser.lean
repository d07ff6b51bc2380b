import Scaffold.Json.Token

/-!
# Reading a JSON text

The grammar of JSON as a machine that takes one token at a time. Its state says what may come next
and which lists and objects are still open, so a value is read without recursion on the text.

* **A fault is a place and a problem.** The machine refuses the first token that cannot continue a
  JSON text, and names what it expected instead.
* **Repeated keys.** Of several members with one key the last value counts, at the first position.
* **What is left out.** Integers of any number of digits and values of any depth are read. The limits
  that a running program sets on both are no part of the grammar.
-/

namespace Scaffold.Json

open Letter

/-- What is wrong at one place of a JSON text. -/
inductive Problem where
  /-- the text begins with a byte order mark -/
  | byteOrderMark
  /-- no value begins here -/
  | expectedValue
  /-- no key begins here -/
  | expectedKey
  /-- no colon follows the key -/
  | expectedColon
  /-- neither a comma nor a closing mark follows the value -/
  | expectedComma
  /-- something follows the whole value -/
  | extraData
  /-- a string is broken -/
  | badString (fault : StringFault)
  deriving DecidableEq, Repr

/-- A problem and its place in a text. -/
structure SyntaxFault where
  /-- what is wrong -/
  problem : Problem
  /-- the number of characters before the place -/
  offset : Nat
  /-- the line of the place, counted from one -/
  line : Nat
  /-- its column in the line, counted from one -/
  column : Nat
  deriving DecidableEq, Repr

/-- A list or object that is still open, with the values before the one being read. -/
inductive Frame where
  /-- a list, with its items so far in reverse -/
  | items (before : List Json)
  /-- an object, with its members so far and the key of the value being read -/
  | member (before : Entries Json Wide) (key : Wide)

/-- What may come next. -/
inductive Mode where
  /-- a value -/
  | value
  /-- the first item of a list, or its end -/
  | itemOrEnd
  /-- a key, or, if the object may end here, its end -/
  | key (before : Entries Json Wide) (mayEnd : Bool)
  /-- the colon after a key -/
  | colon (before : Entries Json Wide) (key : Wide)
  /-- what follows a complete value -/
  | after (v : Json)

/-- The state of the machine. -/
structure Reading where
  /-- the open lists and objects, the innermost first -/
  frames : List Frame
  /-- what may come next -/
  mode : Mode

/-- A problem with the number of characters before it, counted from the start of the token that
shows it or from the start of the text. -/
abbrev Refusal := Problem × Nat

/-- The state before the first token. -/
def Reading.start : Reading := ⟨[], .value⟩

/-- Takes a token where a value begins. -/
def beginValue (frames : List Frame) : Token → Except Refusal Reading
  | .atom v => .ok ⟨frames, .after v⟩
  | .text s => .ok ⟨frames, .after (.str s)⟩
  | .openBracket => .ok ⟨frames, .itemOrEnd⟩
  | .openBrace => .ok ⟨frames, .key [] true⟩
  | .broken fault offset => .error (.badString fault, offset)
  | _ => .error (.expectedValue, 0)

/-- Takes a token after a complete value. -/
def endValue (v : Json) : List Frame → Token → Except Refusal Reading
  | [], _ => .error (.extraData, 0)
  | .items before :: frames, .comma => .ok ⟨.items (v :: before) :: frames, .value⟩
  | .items before :: frames, .closeBracket => .ok ⟨frames, .after (.arr (v :: before).reverse)⟩
  | .member before key :: frames, .comma => .ok ⟨frames, .key (before.insert key v) false⟩
  | .member before key :: frames, .closeBrace =>
    .ok ⟨frames, .after (.obj (before.insert key v))⟩
  | _ :: _, _ => .error (.expectedComma, 0)

/-- Takes one token. Blanks change nothing. -/
def Reading.step (r : Reading) (t : Token) : Except Refusal Reading :=
  match t, r.mode with
  | .blanks, _ => .ok r
  | t, .value => beginValue r.frames t
  | .closeBracket, .itemOrEnd => .ok ⟨r.frames, .after (.arr [])⟩
  | t, .itemOrEnd => beginValue (.items [] :: r.frames) t
  | .text k, .key before _ => .ok ⟨r.frames, .colon before k⟩
  | .closeBrace, .key _ true => .ok ⟨r.frames, .after (.obj [])⟩
  | .broken fault offset, .key _ _ => .error (.badString fault, offset)
  | _, .key _ _ => .error (.expectedKey, 0)
  | .colon, .colon before k => .ok ⟨.member before k :: r.frames, .value⟩
  | _, .colon _ _ => .error (.expectedColon, 0)
  | t, .after v => endValue v r.frames t

/-- The value that has been read when the text ends, or what is missing. -/
def Reading.finish (r : Reading) : Except Problem Json :=
  match r.mode, r.frames with
  | .after v, [] => .ok v
  | .after _, _ :: _ => .error .expectedComma
  | .value, _ => .error .expectedValue
  | .itemOrEnd, _ => .error .expectedValue
  | .key _ _, _ => .error .expectedKey
  | .colon _ _, _ => .error .expectedColon

/-- Runs the machine over tokens that begin after `offset` characters. -/
def Reading.run (r : Reading) (offset : Nat) : List (Nat × Token) → Except Refusal Json
  | [] => r.finish.mapError (·, offset)
  | (size, t) :: rest =>
    match r.step t with
    | .ok next => next.run (offset + size) rest
    | .error (problem, distance) => .error (problem, offset + distance)

/-- The line of the character after `before`. -/
def lineAfter (before : List Char) : Nat := before.count '\n' + 1

/-- The column of the character after `before`. -/
def columnAfter (before : List Char) : Nat := (before.reverse.takeWhile (· != '\n')).length + 1

/-- A refusal with the line and the column of its place in the text. -/
def locate (s : List Char) (r : Refusal) : SyntaxFault :=
  let before := s.take r.2
  ⟨r.1, r.2, lineAfter before, columnAfter before⟩

/-- The value of a JSON text, or the first problem and its offset. -/
def parseLetters {γ : Type} [Letter γ] (s : List γ) : Except Refusal Json :=
  if (chars s).head? == some '\uFEFF' then .error (.byteOrderMark, 0)
  else Reading.start.run 0 (tokens s)

/-- The value of a JSON text. -/
def parse (s : Wide) : Except SyntaxFault Json :=
  (parseLetters s.points).mapError (locate (chars s.points))

/-! ## Messages -/

/-- A problem in words. -/
def Problem.message : Problem → String
  | .byteOrderMark => "Unexpected UTF-8 BOM (decode using utf-8-sig)"
  | .expectedValue => "Expecting value"
  | .expectedKey => "Expecting property name enclosed in double quotes"
  | .expectedColon => "Expecting ':' delimiter"
  | .expectedComma => "Expecting ',' delimiter"
  | .extraData => "Extra data"
  | .badString .unterminated => "Unterminated string starting at"
  | .badString .control => "Invalid control character at"
  | .badString .escape => "Invalid \\escape"
  | .badString .unicodeEscape => "Invalid \\uXXXX escape"

/-- A fault in words, with its line, its column and its offset. -/
def SyntaxFault.message (f : SyntaxFault) : String :=
  s!"{f.problem.message}: line {f.line} column {f.column} (char {f.offset})"

end Scaffold.Json
