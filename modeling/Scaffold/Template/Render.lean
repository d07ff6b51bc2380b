import Scaffold.Entries
import Scaffold.Template.Placeholder

/-!
# Rendering templates

A template is a text with placeholders. Rendering replaces each placeholder by the value its name is
bound to; a placeholder that has a line to itself decides whether the line is there at all.

* **Conditional lines.** A line of blanks, one placeholder and blanks goes away, line end included,
  when the name is unbound or its value is empty. Otherwise the value takes the placeholder's place.
* **Tokens.** Anywhere else an unbound placeholder stays as it is written.
* **One pass.** Values are inserted as they are and never looked at again.
-/

namespace Scaffold.Template

/-- What a name may be bound to. -/
inductive Value where
  /-- nothing -/
  | absent
  /-- a switch: on keeps a line without its placeholder, off removes it -/
  | flag (on : Bool)
  /-- a text -/
  | text (s : String)
  /-- a number -/
  | number (n : Int)
  deriving DecidableEq, Repr

/-- The values of the names that a template may mention. -/
abbrev Context := Entries Value

/-- The text that stands for a value, or nothing if the value is empty: an absent value, a switch
that is off, an empty text or a zero. -/
def Value.shown? : Value → Option (List Char)
  | .absent => none
  | .flag on => if on then some [] else none
  | .text s => if s.isEmpty then none else some s.toList
  | .number n => if n == 0 then none else some (toString n).toList

/-- A line that consists of one placeholder between blanks. -/
structure ConditionalLine where
  /-- the blanks before the placeholder -/
  indent : List Char
  /-- the body of the placeholder -/
  body : List Char
  /-- the blanks and the line end after it -/
  trail : List Char
  deriving DecidableEq, Repr

/-- The text of a conditional line. -/
def ConditionalLine.chars (l : ConditionalLine) : List Char :=
  l.indent ++ braced l.body ++ l.trail

/-- The line end at the start of a text, and what follows it. The end of the text is one too. -/
def lineEnd? : List Char → Option (List Char × List Char)
  | [] => some ([], [])
  | '\n' :: rest => some (['\n'], rest)
  | '\r' :: '\n' :: rest => some (['\r', '\n'], rest)
  | _ => none

/-- The conditional line at the start of a text, and what follows it. -/
def conditionalLine? (s : List Char) : Option (ConditionalLine × List Char) :=
  let indent := s.takeWhile Text.isSpacing
  match placeholder? (s.dropWhile Text.isSpacing) with
  | none => none
  | some (body, rest) =>
    let blanks := rest.takeWhile Text.isSpacing
    match lineEnd? (rest.dropWhile Text.isSpacing) with
    | none => none
    | some (ending, rest) => some (⟨indent, body, blanks ++ ending⟩, rest)

theorem lineEnd?_eq {s ending rest : List Char} (h : lineEnd? s = some (ending, rest)) :
    s = ending ++ rest := by
  unfold lineEnd? at h
  split at h <;> simp_all [eq_comm]

theorem conditionalLine?_eq {s rest : List Char} {l : ConditionalLine}
    (h : conditionalLine? s = some (l, rest)) : s = l.chars ++ rest := by
  unfold conditionalLine? at h
  simp only at h
  split at h
  · cases h
  · rename_i body after hp
    split at h
    · cases h
    · rename_i ending rest' he
      simp only [Option.some.injEq, Prod.mk.injEq] at h
      obtain ⟨rfl, rfl⟩ := h
      conv => lhs; rw [← List.takeWhile_append_dropWhile (p := Text.isSpacing) (l := s)]
      rw [placeholder?_eq hp]
      conv => lhs; rw [← List.takeWhile_append_dropWhile (p := Text.isSpacing) (l := after)]
      rw [lineEnd?_eq he]
      simp [ConditionalLine.chars]

theorem length_lt_of_conditionalLine? {s rest : List Char} {l : ConditionalLine}
    (h : conditionalLine? s = some (l, rest)) : rest.length < s.length := by
  rw [conditionalLine?_eq h]
  simp only [ConditionalLine.chars, braced, List.length_append, List.length_cons]
  omega

/-- What becomes of a conditional line. -/
def lineText (ctx : Context) (l : ConditionalLine) : List Char :=
  match (ctx.get? (nameOf l.body)).bind Value.shown? with
  | none => []
  | some text => l.indent ++ text ++ l.trail

/-- What becomes of a placeholder that shares its line. -/
def inlineText (ctx : Context) (body : List Char) : List Char :=
  match ctx.get? (nameOf body) with
  | none => braced body
  | some value => value.shown?.getD []

/-- Renders the rest of a template. A conditional line is looked for only where a line starts. -/
def renderFrom (ctx : Context) (lineStart : Bool) (s : List Char) : List Char :=
  match _hl : (if lineStart then conditionalLine? s else none) with
  | some (line, rest) => lineText ctx line ++ renderFrom ctx true rest
  | none =>
    match _hp : placeholder? s with
    | some (body, rest) => inlineText ctx body ++ renderFrom ctx false rest
    | none =>
      match s with
      | [] => []
      | c :: rest => c :: renderFrom ctx (c == '\n') rest
termination_by s.length
decreasing_by
  · split at _hl
    · exact length_lt_of_conditionalLine? _hl
    · cases _hl
  · exact length_lt_of_placeholder? _hp
  · simp

/-- Renders a template. -/
def renderChars (ctx : Context) (template : List Char) : List Char :=
  renderFrom ctx true template

/-- Renders a template. -/
def render (ctx : Context) (template : String) : String :=
  String.ofList (renderChars ctx template.toList)

/-- The bodies of the placeholders of a text, from left to right. -/
def bodies (s : List Char) : List (List Char) :=
  match _h : placeholder? s with
  | some (body, rest) => body :: bodies rest
  | none =>
    match s with
    | [] => []
    | _ :: rest => bodies rest
termination_by s.length
decreasing_by
  · exact length_lt_of_placeholder? _h
  · simp

/-- The names that a template mentions, each once, in ascending order. -/
def names (template : String) : List String :=
  ((bodies template.toList).map nameOf).eraseDups.mergeSort (· ≤ ·)

end Scaffold.Template
