import Scaffold.Text.Blank

/-!
# Placeholders

A placeholder is a name between two pairs of braces, `{{ name }}`, on one line.

* **The body** is everything between the pairs; it holds neither braces nor a newline.
* **The name** is the body without the spaces and tabs around it. A body of nothing but spaces and
  tabs names its last character.
-/

namespace Scaffold.Template

/-- A character that may stand in the body of a placeholder. -/
def isBodyChar (c : Char) : Bool := c != '\x7b' && c != '\x7d' && c != '\n'

/-- The name that a body stands for. -/
def nameOf (body : List Char) : String :=
  match Text.trimBy Text.isSpacing body with
  | [] => String.ofList (body.drop (body.length - 1))
  | name => String.ofList name

/-- A placeholder with its braces. -/
def braced (body : List Char) : List Char := '\x7b' :: '\x7b' :: body ++ ['\x7d', '\x7d']

/-- The body of the placeholder at the start of a text, and what follows the placeholder. -/
def placeholder? : List Char → Option (List Char × List Char)
  | '\x7b' :: '\x7b' :: s =>
    match s.dropWhile isBodyChar with
    | '\x7d' :: '\x7d' :: rest =>
      if (s.takeWhile isBodyChar).isEmpty then none else some (s.takeWhile isBodyChar, rest)
    | _ => none
  | _ => none

theorem placeholder?_eq {s body rest : List Char} (h : placeholder? s = some (body, rest)) :
    s = braced body ++ rest := by
  unfold placeholder? at h
  split at h
  · rename_i t
    split at h
    · rename_i after hafter
      split at h
      · cases h
      · simp only [Option.some.injEq, Prod.mk.injEq] at h
        obtain ⟨rfl, rfl⟩ := h
        have := List.takeWhile_append_dropWhile (p := isBodyChar) (l := t)
        rw [hafter] at this
        simp only [braced, List.cons_append, List.append_assoc, List.nil_append, this]
    · cases h
  · cases h

theorem length_lt_of_placeholder? {s body rest : List Char}
    (h : placeholder? s = some (body, rest)) : rest.length < s.length := by
  rw [placeholder?_eq h]
  simp only [braced, List.length_append, List.length_cons]
  omega

end Scaffold.Template
