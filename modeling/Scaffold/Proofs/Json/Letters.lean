import Scaffold.Json.Comments
import Scaffold.Proofs.Text.Wide

/-!
# Reading letter by letter

* **Comments** are taken out one letter, string or comment after another; there is an equation for each.
* **Texts** may be read character by character. The reader sees the same tokens, and what it leaves of
  the text without its comments is the same, as when it reads the code points of the text.
-/

namespace Scaffold.Json

open Letter

/-! ## Taking out comments -/

section Letters

variable {γ : Type} [Letter γ] {c : γ} {rest body after : List γ}

theorem stringRest_quote (hquote : char c = '"') : stringRest (c :: rest) = some ([c], rest) := by
  cases rest <;> simp [stringRest, hquote]

theorem stringRest_escape (hslash : char c = '\\') (e : γ) (rest : List γ) :
    stringRest (c :: e :: rest) = (stringRest rest).map fun r => (c :: e :: r.1, r.2) := by
  simp [stringRest, hslash]

theorem stringRest_plain (hquote : char c ≠ '"') (hslash : char c ≠ '\\') :
    stringRest (c :: rest) = (stringRest rest).map fun r => (c :: r.1, r.2) := by
  cases rest <;> simp [stringRest, hquote, hslash]

/-- A string is kept. -/
theorem stripComments_string (hquote : char c = '"') (h : stringRest rest = some (body, after)) :
    stripComments (c :: rest) = c :: body ++ stripComments after := by
  rw [stripComments, if_pos (by simpa using hquote)]
  split
  · rename_i hsome
    rw [h] at hsome
    cases hsome
    rfl
  · rename_i hnone
    rw [h] at hnone
    cases hnone

/-- So is a quotation mark without a partner. -/
theorem stripComments_quote (hquote : char c = '"') (h : stringRest rest = none) :
    stripComments (c :: rest) = c :: stripComments rest := by
  rw [stripComments, if_pos (by simpa using hquote)]
  split
  · rename_i hsome
    rw [h] at hsome
    cases hsome
  · rfl

/-- A comment is left out. -/
theorem stripComments_comment (hquote : char c ≠ '"') (h : afterComment (c :: rest) = some after) :
    stripComments (c :: rest) = stripComments after := by
  rw [stripComments, if_neg (by simpa using hquote)]
  split
  · rename_i hsome
    rw [h] at hsome
    cases hsome
    rfl
  · rename_i hnone
    rw [h] at hnone
    cases hnone

/-- What begins neither a string nor a comment is kept. -/
theorem stripComments_other (hquote : char c ≠ '"') (h : afterComment (c :: rest) = none) :
    stripComments (c :: rest) = c :: stripComments rest := by
  rw [stripComments, if_neg (by simpa using hquote)]
  split
  · rename_i hsome
    rw [h] at hsome
    cases hsome
  · rfl

theorem stripComments_cons (hquote : char c ≠ '"') (hslash : char c ≠ '/') (rest : List γ) :
    stripComments (c :: rest) = c :: stripComments rest := by
  refine stripComments_other hquote ?_
  cases rest <;> simp [afterComment, hslash]

end Letters

/-! ## Tokens -/

theorem readText_map (size : Nat) (acc : List CodePoint) (s : List Char) :
    readText size acc (s.map CodePoint.char) = readText size acc s := by
  fun_induction readText size acc s with
  | case1 => simp [readText]
  | case2 size acc c rest hquote => simp_all [readText]
  | case3 size acc c rest hquote hslash hempty => simp_all [readText]
  | case4 size acc c rest hquote hslash hempty e n hescape ih =>
    rw [List.map_cons, readText]
    simp_all [List.map_drop]
  | case5 size acc c rest hquote hslash hempty fault distance hescape =>
    rw [List.map_cons, readText]
    simp_all
  | case6 size acc c rest hquote hslash hcontrol =>
    rw [List.map_cons, readText]
    simp_all
  | case7 size acc c rest hquote hslash hcontrol ih =>
    rw [List.map_cons, readText]
    simp_all [Nat.not_lt.2]

theorem readToken_map (c : Char) (rest : List Char) :
    readToken (CodePoint.char c) (rest.map CodePoint.char) = readToken c rest := by
  simp only [readToken, readText_map, chars_cons, chars_map_char, chars_chars, char_point, char_char]

theorem tokens_map (s : List Char) : tokens (s.map CodePoint.char) = tokens s := by
  fun_induction tokens s with
  | case1 => simp [tokens]
  | case2 c rest size token hread ih =>
    rw [List.map_cons, tokens, readToken_map, hread]
    simp only [← List.map_drop, ih]

theorem parse_text (s : String) : parse s = (parseLetters s.toList).mapError (locate s.toList) := by
  unfold parse parseLetters
  rw [Wide.points, tokens_map, chars_map_char, chars_chars]

/-! ## Comments -/

theorem stringRest_map (s : List Char) :
    stringRest (s.map CodePoint.char) =
      (stringRest s).map fun r => (r.1.map .char, r.2.map .char) := by
  fun_induction stringRest s with
  | case1 => rfl
  | case2 c rest hquote => cases rest <;> simp_all [stringRest]
  | case3 c hquote hslash => simp_all [stringRest]
  | case4 c hquote hslash e rest ih => simp_all [stringRest, Function.comp_def]
  | case5 c rest hquote hslash ih => cases rest <;> simp_all [stringRest, Function.comp_def]

theorem afterBlock_map (s : List Char) :
    afterBlock (s.map CodePoint.char) = (afterBlock s).map (List.map .char) := by
  fun_induction afterBlock s with
  | case1 c d rest hend => simp_all [afterBlock]
  | case2 c d rest hend ih => simp_all [afterBlock]
  | case3 s hshort =>
    rcases s with _ | ⟨c, _ | ⟨d, s⟩⟩
    · rfl
    · rfl
    · exact absurd rfl (hshort c d s)

theorem afterComment_map (s : List Char) :
    afterComment (s.map CodePoint.char) = (afterComment s).map (List.map .char) := by
  rcases s with _ | ⟨c, _ | ⟨d, s⟩⟩
  · rfl
  · rfl
  · simp only [List.map_cons, afterComment, char_point, char_char, afterBlock_map]
    split_ifs
    · simp [List.dropWhile_map, Function.comp_def]
    · rfl
    · rfl

theorem stripComments_map (s : List Char) :
    stripComments (s.map CodePoint.char) = (stripComments s).map .char := by
  fun_induction stripComments s with
  | case1 => simp [stripComments]
  | case2 c rest hquote body after hstring ih =>
    have hstring' : stringRest (rest.map CodePoint.char) = some (body.map .char, after.map .char) := by
      rw [stringRest_map, hstring, Option.map_some]
    have hquote' : char (CodePoint.char c) = '"' := by simpa using hquote
    rw [List.map_cons, stripComments_string hquote' hstring', ih]
    simp
  | case3 c rest hquote hstring ih =>
    have hstring' : stringRest (rest.map CodePoint.char) = none := by
      rw [stringRest_map, hstring, Option.map_none]
    have hquote' : char (CodePoint.char c) = '"' := by simpa using hquote
    rw [List.map_cons, stripComments_quote hquote' hstring', ih, List.map_cons]
  | case4 c rest hquote after hcomment ih =>
    have hcomment' : afterComment ((c :: rest).map CodePoint.char) = some (after.map .char) := by
      rw [afterComment_map, hcomment, Option.map_some]
    have hquote' : char (CodePoint.char c) ≠ '"' := by simpa using hquote
    rw [List.map_cons, stripComments_comment hquote' hcomment', ih]
  | case5 c rest hquote hcomment ih =>
    have hcomment' : afterComment ((c :: rest).map CodePoint.char) = none := by
      rw [afterComment_map, hcomment, Option.map_none]
    have hquote' : char (CodePoint.char c) ≠ '"' := by simpa using hquote
    rw [List.map_cons, stripComments_other hquote' hcomment', ih, List.map_cons]

theorem parseCommented_text (s : String) :
    parseCommented s = parse (String.ofList (stripComments s.toList)) := by
  rw [parseCommented, Wide.points, stripComments_map, Wide.ofPoints_map_char]

end Scaffold.Json
