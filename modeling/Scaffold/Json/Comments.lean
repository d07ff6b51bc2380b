import Scaffold.Json.Parser

/-!
# Comments in JSON files

Configuration files are often JSON with comments. The comments are taken out before the text is
read as JSON.

* **Strings come first.** A comment opener inside a string is text, so a link survives.
* **What is unfinished stays.** A quotation mark without its partner is an ordinary character, and a
  block comment without its end is no comment.
-/

namespace Scaffold.Json

open Letter

variable {γ : Type} [Letter γ]

/-- The rest of a string after its opening mark, closing mark included: its letters, and what follows
it. A backslash takes the next letter with it. -/
def stringRest : List γ → Option (List γ × List γ)
  | [] => none
  | c :: rest =>
    if char c == '"' then some ([c], rest)
    else if char c == '\\' then
      match rest with
      | [] => none
      | e :: rest => (stringRest rest).map fun r => (c :: e :: r.1, r.2)
    else (stringRest rest).map fun r => (c :: r.1, r.2)

/-- What follows the first end of a block comment. -/
def afterBlock : List γ → Option (List γ)
  | c :: d :: rest =>
    if char c == '*' && char d == '/' then some rest else afterBlock (d :: rest)
  | _ => none

/-- What follows the comment that begins a string. A line comment leaves its line end. -/
def afterComment : List γ → Option (List γ)
  | c :: d :: rest =>
    if char c == '/' && char d == '/' then some (rest.dropWhile (char · != '\n'))
    else if char c == '/' && char d == '*' then afterBlock rest
    else none
  | _ => none

theorem stringRest_append {s body rest : List γ} (h : stringRest s = some (body, rest)) :
    s = body ++ rest := by
  fun_induction stringRest s generalizing body rest with
  | case1 => cases h
  | case2 c after hquote =>
    cases h
    rfl
  | case3 => cases h
  | case4 c _ _ e after ih =>
    obtain ⟨r, hr, h⟩ := Option.map_eq_some_iff.1 h
    cases h
    simp [ih hr]
  | case5 c after _ _ ih =>
    obtain ⟨r, hr, h⟩ := Option.map_eq_some_iff.1 h
    cases h
    simp [ih hr]

theorem length_afterBlock_lt {s rest : List γ} (h : afterBlock s = some rest) :
    rest.length < s.length := by
  fun_induction afterBlock s generalizing rest <;> grind

theorem length_afterComment_lt {s rest : List γ} (h : afterComment s = some rest) :
    rest.length < s.length := by
  unfold afterComment at h
  split at h
  · rename_i c d more
    split at h
    · cases h
      have := (List.dropWhile_suffix (l := more) (char · != '\n')).length_le
      simp only [List.length_cons]
      omega
    split at h
    · have := length_afterBlock_lt h
      simp only [List.length_cons]
      omega
    · cases h
  · cases h

/-- The string without its comments. -/
def stripComments (s : List γ) : List γ :=
  match s with
  | [] => []
  | c :: rest =>
    if char c == '"' then
      match _h : stringRest rest with
      | some (body, after) => c :: body ++ stripComments after
      | none => c :: stripComments rest
    else
      match _h : afterComment (c :: rest) with
      | some after => stripComments after
      | none => c :: stripComments rest
termination_by s.length
decreasing_by
  all_goals simp only [List.length_cons]
  · have := congrArg List.length (stringRest_append _h)
    simp only [List.length_append] at this
    omega
  · omega
  · exact length_afterComment_lt _h
  · omega

/-- The value of a text that is JSON with comments. -/
def parseCommented (text : Wide) : Except SyntaxFault Json :=
  parse (.ofPoints (stripComments text.points))

end Scaffold.Json
