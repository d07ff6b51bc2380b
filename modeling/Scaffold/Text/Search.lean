/-!
# Searching a text

Patches to source files look for an anchor: a stretch of text that a recogniser accepts. The search
goes from left to right and never looks inside a stretch it has already accepted.

* **Exactly one.** `unique?` is how every patch finds its place: it gives the text before the anchor,
  what was read there, and the text after it, or else how many anchors there are.
-/

namespace Scaffold.Text

/-- Reads something at the start of a text, and gives what follows it. -/
abbrev Recogniser (α : Type) := List Char → Option (α × List Char)

/-- The first place that a recogniser accepts: the text before it, what was read, the text after. -/
def find? {α : Type} (p : Recogniser α) : List Char → Option (List Char × α × List Char)
  | [] => none
  | c :: rest =>
    match p (c :: rest) with
    | some (value, after) => some ([], value, after)
    | none => (find? p rest).map fun (before, value, after) => (c :: before, value, after)

/-- How many places a recogniser accepts. -/
def count {α : Type} (p : Recogniser α) (s : List Char) : Nat :=
  match find? p s with
  | none => 0
  | some (_, _, after) => if _h : after.length < s.length then count p after + 1 else 1
termination_by s.length

/-- The only place that a recogniser accepts, or the number of places if it is not one. -/
def unique? {α : Type} (p : Recogniser α) (s : List Char) :
    Except Nat (List Char × α × List Char) :=
  match find? p s with
  | none => .error 0
  | some (before, value, after) =>
    match count p after with
    | 0 => .ok (before, value, after)
    | n + 1 => .error (n + 2)

/-- Whether a text occurs in another. -/
def occursIn (needle : List Char) : List Char → Bool
  | [] => needle.isEmpty
  | c :: rest => needle.isPrefixOf (c :: rest) || occursIn needle rest

/-- Reads a fixed text. -/
def literal? (text : String) (s : List Char) : Option (List Char) :=
  text.toList.isPrefixOf? s

/-- A text after its last occurrence of `needle`: what goes up to and with it, and what follows. -/
def splitAfterLast? (needle : List Char) : List Char → Option (List Char × List Char)
  | [] => none
  | c :: rest =>
    match splitAfterLast? needle rest with
    | some (before, after) => some (c :: before, after)
    | none => (needle.isPrefixOf? (c :: rest)).map fun after => (needle, after)

/-- Why a patch found no place: the anchor is not there exactly once. -/
structure AnchorFault where
  /-- how the anchor is described -/
  pattern : String
  /-- how many times it is there -/
  found : Nat
  deriving DecidableEq, Repr

/-- The only place of an anchor, described as `pattern`. -/
def anchor {α : Type} (pattern : String) (p : Recogniser α) (s : List Char) :
    Except AnchorFault (List Char × α × List Char) :=
  (unique? p s).mapError (⟨pattern, ·⟩)

end Scaffold.Text
