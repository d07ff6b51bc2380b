import Scaffold.Json.Basic

/-!
# The tokens of a JSON text

A JSON text is cut into tokens from left to right: runs of blanks, punctuation marks, the three
words, numbers and strings. What is no token ends the cutting.

* **Sizes, not places.** Each token comes with the number of characters it was cut from, so the
  place of a token is the sum of the sizes before it.
* **Broken strings are tokens.** A quotation mark that begins no proper string yields a token that
  carries the fault; whether the fault matters is decided by what the grammar expects there.
-/

namespace Scaffold.Json

open Letter

variable {γ : Type} [Letter γ]

/-- What is wrong with a string. -/
inductive StringFault where
  /-- the closing quotation mark is missing -/
  | unterminated
  /-- a control character stands unescaped -/
  | control
  /-- an unknown letter follows a backslash -/
  | escape
  /-- four hexadecimal digits should follow, and the text should go on after them -/
  | unicodeEscape
  deriving DecidableEq, Repr

/-- A token of a JSON text. -/
inductive Token where
  /-- a run of spaces, tabs and line ends -/
  | blanks
  /-- an opening brace -/
  | openBrace
  /-- a closing brace -/
  | closeBrace
  /-- an opening bracket -/
  | openBracket
  /-- a closing bracket -/
  | closeBracket
  /-- a colon -/
  | colon
  /-- a comma -/
  | comma
  /-- a word or a number, with the value it stands for -/
  | atom (value : Json)
  /-- a string -/
  | text (s : Wide)
  /-- a quotation mark that begins no string, with the fault and its distance from the mark -/
  | broken (fault : StringFault) (offset : Nat)
  /-- a character that begins no token -/
  | unknown
  deriving Repr

/-- Whether the cutting goes on after a token. -/
def Token.continues : Token → Bool
  | .broken _ _ => false
  | .unknown => false
  | _ => true

/-- The blanks of JSON. -/
def isJsonBlank (c : Char) : Bool := c == ' ' || c == '\t' || c == '\n' || c == '\r'

/-! ## Strings -/

/-- The value of a hexadecimal digit of either case. -/
def hexValue? (c : Char) : Option Nat :=
  if '0' ≤ c ∧ c ≤ '9' then some (c.toNat - 48)
  else if 'a' ≤ c ∧ c ≤ 'f' then some (c.toNat - 87)
  else if 'A' ≤ c ∧ c ≤ 'F' then some (c.toNat - 55)
  else none

/-- The number that four hexadecimal digits stand for. -/
def hex4? (a b c d : Char) : Option Nat := do
  return 4096 * (← hexValue? a) + 256 * (← hexValue? b) + 16 * (← hexValue? c) + (← hexValue? d)

/-- The character that a letter after a backslash stands for. -/
def escaped? : Char → Option Char
  | '"' => some '"'
  | '\\' => some '\\'
  | '/' => some '/'
  | 'b' => some '\x08'
  | 'f' => some '\x0c'
  | 'n' => some '\n'
  | 'r' => some '\r'
  | 't' => some '\t'
  | _ => none

/-- Whether a number is the first half of a surrogate pair. -/
def isHighSurrogate (n : Nat) : Bool := 0xD800 ≤ n && n < 0xDC00

/-- Whether a number is the second half of a surrogate pair. -/
def isLowSurrogate (n : Nat) : Bool := 0xDC00 ≤ n && n < 0xE000

/-- The character of a surrogate pair. -/
def joinSurrogates (high low : Nat) : Char :=
  Char.ofNat (0x10000 + (high - 0xD800) * 0x400 + (low - 0xDC00))

/-- The code point of a code unit: a character, or a half of a surrogate pair that stands alone. -/
def ofUnit (n : Nat) : CodePoint :=
  if h : 0xD800 ≤ n ∧ n < 0xE000 then .half ⟨n, h⟩ else .char (Char.ofNat n)

/-- Reads four hexadecimal digits that are not the last characters of the text. -/
def readUnit? : List Char → Option Nat
  | a :: b :: c :: d :: _ :: _ => hex4? a b c d
  | _ => none

/-- Reads the second half of a surrogate pair where an escape for it stands: nothing if no escape
stands there, and a failure if its digits are wrong. -/
def readLowSurrogate (s : List Char) : Option (Option Nat) :=
  match s with
  | '\\' :: 'u' :: digits =>
    if digits.length < 5 then some none
    else (readUnit? digits).map fun n => if isLowSurrogate n then some n else none
  | _ => some none

/-- Reads an escape after its backslash: the code point and the number of characters read, or the
fault and its distance from the backslash. -/
def readEscape : List Char → Except (StringFault × Nat) (CodePoint × Nat)
  | 'u' :: digits =>
    match readUnit? digits with
    | none => .error (.unicodeEscape, 1)
    | some n =>
      if isHighSurrogate n then
        match readLowSurrogate (digits.drop 4) with
        | none => .error (.unicodeEscape, 7)
        | some none => .ok (ofUnit n, 5)
        | some (some low) => .ok (.char (joinSurrogates n low), 11)
      else .ok (ofUnit n, 5)
  | e :: _ =>
    match escaped? e with
    | some c => .ok (.char c, 1)
    | none => .error (.escape, 0)
  | [] => .error (.escape, 0)

/-- Reads the rest of a string, `size` characters after its opening mark, of which `acc` are the
code points read so far in reverse. Gives the size of the string without its opening mark. -/
def readText (size : Nat) (acc : List CodePoint) (s : List γ) : Nat × Token :=
  match s with
  | [] => (0, .broken .unterminated 0)
  | c :: rest =>
    if char c == '"' then (size + 1, .text (.ofPoints acc.reverse))
    else if char c == '\\' then
      if rest.isEmpty then (0, .broken .unterminated 0)
      else match readEscape (chars rest) with
        | .ok (e, n) => readText (size + 1 + n) (e :: acc) (rest.drop n)
        | .error (fault, distance) => (0, .broken fault (size + 1 + distance))
    else if (char c).toNat < 0x20 then (0, .broken .control (size + 1))
    else readText (size + 1) (point c :: acc) rest
termination_by s.length
decreasing_by
  · simp only [List.length_drop, List.length_cons]; omega
  · simp only [List.length_cons]; omega

/-! ## Numbers -/

/-- The whole part at the start of a text: a zero, or digits that do not begin with one. -/
def wholePart : List Char → List Char
  | '0' :: _ => ['0']
  | s => s.takeWhile Char.isDigit

/-- The digits after the mark at the start of a text; none if there is no mark with a digit. -/
def fractionPart : List Char → List Char
  | '.' :: s => s.takeWhile Char.isDigit
  | _ => []

/-- The exponent at the start of a text: the number of its characters, and its value. -/
def exponentPart : List Char → Option (Nat × Int)
  | e :: s =>
    if e == 'e' || e == 'E' then
      let (sign, digits) := match s with
        | '-' :: t => (some true, t.takeWhile Char.isDigit)
        | '+' :: t => (some false, t.takeWhile Char.isDigit)
        | t => (none, t.takeWhile Char.isDigit)
      if digits.isEmpty then none
      else
        let n : Int := Nat.ofDigitChars 10 digits 0
        some (1 + (if sign.isSome then 1 else 0) + digits.length, if sign == some true then -n else n)
    else none
  | [] => none

/-- Reads a number that is known not to begin with a sign: its size and its token. -/
def readMagnitude (negative : Bool) (s : List Char) : Nat × Token :=
  let whole := wholePart s
  if whole.isEmpty then (0, .unknown)
  else
    let afterWhole := s.drop whole.length
    let fraction := fractionPart afterWhole
    let markSize := if fraction.isEmpty then 0 else 1 + fraction.length
    let exponent := exponentPart (afterWhole.drop markSize)
    let size := whole.length + markSize + (exponent.map Prod.fst).getD 0
    let digits := Nat.ofDigitChars 10 (whole ++ fraction) 0
    if fraction.isEmpty && exponent.isNone then
      (size, .atom (.int (if negative then -(digits : Int) else digits)))
    else
      let power := (exponent.map Prod.snd).getD 0 - (fraction.length : Int)
      (size, .atom (.float (Binary64.ofDecimal negative digits power)))

/-- The words and the values they stand for. -/
def words : List (List Char × Json) :=
  [("null".toList, .null), ("true".toList, .bool true), ("false".toList, .bool false),
   ("NaN".toList, .float .notANumber), ("Infinity".toList, .float (.infinity false)),
   ("-Infinity".toList, .float (.infinity true))]

/-- Reads a word: its size and its token. -/
def readWord (s : List Char) : Option (Nat × Token) :=
  (words.find? fun w => w.1.isPrefixOf s).map fun w => (w.1.length, .atom w.2)

/-- Reads a word or a number. -/
def readAtom (s : List Char) : Nat × Token :=
  match readWord s with
  | some r => r
  | none =>
    match s with
    | '-' :: digits =>
      let (size, token) := readMagnitude true digits
      (size + 1, token)
    | digits => readMagnitude false digits

/-! ## Cutting -/

/-- Reads the token that begins with `c`: how many letters of `rest` belong to it, and the token. -/
def readToken (c : γ) (rest : List γ) : Nat × Token :=
  if isJsonBlank (char c) then (((chars rest).takeWhile isJsonBlank).length, .blanks)
  else match char c with
    | '\x7b' => (0, .openBrace)
    | '\x7d' => (0, .closeBrace)
    | '[' => (0, .openBracket)
    | ']' => (0, .closeBracket)
    | ':' => (0, .colon)
    | ',' => (0, .comma)
    | '"' => readText 0 [] rest
    | _ =>
      let (size, token) := readAtom (chars (c :: rest))
      (size - 1, token)

/-- Cuts a string into tokens, each with its size. The last token is one that does not continue, or
the string is used up. -/
def tokens : List γ → List (Nat × Token)
  | [] => []
  | c :: rest =>
    let (size, token) := readToken c rest
    (size + 1, token) :: if token.continues then tokens (rest.drop size) else []
termination_by s => s.length
decreasing_by simp only [List.length_drop, List.length_cons]; omega

end Scaffold.Json
