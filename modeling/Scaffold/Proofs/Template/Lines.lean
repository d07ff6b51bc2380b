import Scaffold.Proofs.Template.Grammar
import Mathlib.Data.List.Forall2
import Mathlib.Data.List.SplitBy

/-!
# Rendering line by line

Rendering is one scan over the template. It comes to the same as cutting the template into lines and
rendering each line on its own.

* **A conditional line** goes away as a whole, or keeps everything but its placeholder.
* **Any other line** has its placeholders filled from left to right; all other characters are copied.
* **Nothing else.** `Rendered` says so without the scan and leaves no choice: each template and
  context have exactly one rendering.
-/

namespace Scaffold.Template

open Text

variable {s t rest line out indent trail : List Char} {n : String} {l : ConditionalLine}
  {c : Char} {ctx : Context}

/-! ## Values -/

/-- Whether a value is empty: nothing, a switch that is off, an empty text, or a zero. -/
def Value.isFalsy : Value → Bool
  | .absent => true
  | .flag on => !on
  | .text s => s.isEmpty
  | .number n => n == 0

/-- The text of a value; a switch has none. -/
def Value.chars : Value → List Char
  | .absent => []
  | .flag _ => []
  | .text s => s.toList
  | .number n => (toString n).toList

theorem Value.shown?_eq (v : Value) : v.shown? = if v.isFalsy then none else some v.chars := by
  cases v with
  | flag on => cases on <;> rfl
  | _ => rfl

/-! ## The reference -/

/-- The lines of a text, each with its newline. -/
def linesOf (s : List Char) : List (List Char) := s.splitBy fun c _ => c != '\n'

/-- A text with its placeholders filled from left to right: the text of a bound name takes the place
of the placeholder, and an unbound name leaves it as it is. -/
inductive Filled (ctx : Context) : List Char → List Char → Prop
  /-- nothing is left -/
  | done : Filled ctx [] []
  /-- the name is unbound -/
  | unbound {text rest out : List Char} {n : String} (htext : IsPlaceholder text n)
      (hn : ctx.get? n = none) (hrest : Filled ctx rest out) : Filled ctx (text ++ rest) (text ++ out)
  /-- the name has an empty value -/
  | falsy {text rest out : List Char} {n : String} {v : Value} (htext : IsPlaceholder text n)
      (hn : ctx.get? n = some v) (hv : v.isFalsy = true) (hrest : Filled ctx rest out) :
      Filled ctx (text ++ rest) out
  /-- the name has a value -/
  | bound {text rest out : List Char} {n : String} {v : Value} (htext : IsPlaceholder text n)
      (hn : ctx.get? n = some v) (hv : v.isFalsy = false) (hrest : Filled ctx rest out) :
      Filled ctx (text ++ rest) (v.chars ++ out)
  /-- no placeholder begins here -/
  | plain {c : Char} {rest out : List Char}
      (hc : ∀ text n, IsPlaceholder text n → ¬ text <+: c :: rest) (hrest : Filled ctx rest out) :
      Filled ctx (c :: rest) (c :: out)

/-- What becomes of a line. -/
inductive Rendered (ctx : Context) : List Char → List Char → Prop
  /-- a conditional line whose name is unbound -/
  | unbound {line indent trail : List Char} {n : String} (hline : IsConditional line indent n trail)
      (hn : ctx.get? n = none) : Rendered ctx line []
  /-- a conditional line whose name has an empty value -/
  | falsy {line indent trail : List Char} {n : String} {v : Value}
      (hline : IsConditional line indent n trail) (hn : ctx.get? n = some v)
      (hv : v.isFalsy = true) : Rendered ctx line []
  /-- a conditional line whose name has a value -/
  | bound {line indent trail : List Char} {n : String} {v : Value}
      (hline : IsConditional line indent n trail) (hn : ctx.get? n = some v)
      (hv : v.isFalsy = false) : Rendered ctx line (indent ++ v.chars ++ trail)
  /-- any other line -/
  | other {line out : List Char} (hline : ∀ indent n trail, ¬ IsConditional line indent n trail)
      (hfilled : Filled ctx line out) : Rendered ctx line out

/-! ## Lines -/

theorem linesOf_append (hs : '\n' ∉ s) (rest : List Char) :
    linesOf (s ++ ['\n'] ++ rest) = (s ++ ['\n']) :: linesOf rest := by
  have hchain : (s ++ ['\n']).IsChain fun c _ => (c != '\n') = true := by
    induction s with
    | nil => exact .singleton _
    | cons c s ih =>
      rw [List.mem_cons, not_or] at hs
      rw [List.cons_append, List.isChain_cons]
      exact ⟨fun _ _ => by simpa using Ne.symm hs.1, ih hs.2⟩
  rw [linesOf, List.splitBy_append, List.splitBy_of_isChain (by simp) hchain]
  · rfl
  · intro c hc _ _
    rw [List.getLast?_concat] at hc
    cases hc
    rfl

theorem linesOf_last (hne : s ≠ []) (hs : '\n' ∉ s) : linesOf s = [s] := by
  refine List.splitBy_of_isChain hne ?_
  induction s with
  | nil => exact .nil
  | cons c s ih =>
    rw [List.mem_cons, not_or] at hs
    rw [List.isChain_cons]
    refine ⟨fun _ _ => by simpa using Ne.symm hs.1, ?_⟩
    cases s with
    | nil => exact .nil
    | cons d s => exact ih (List.cons_ne_nil _ _) hs.2

/-- A text that is not empty has a first line, and then the lines of what follows it. -/
theorem exists_line (hs : s ≠ []) :
    ∃ line rest, s = line ++ rest ∧ line ≠ [] ∧ IsLine line rest ∧ linesOf s = line :: linesOf rest := by
  by_cases hmem : '\n' ∈ s
  · obtain ⟨u, rest, rfl, hu⟩ := List.eq_append_cons_of_mem hmem
    have heq : u ++ '\n' :: rest = u ++ ['\n'] ++ rest := by simp
    refine ⟨u ++ ['\n'], rest, heq, by simp, .ended hu, ?_⟩
    rw [heq, linesOf_append hu]
  · exact ⟨s, [], by simp, hs, .last hmem, linesOf_last hs hmem⟩

/-! ## The scan against the reference -/

/-- Every text is filled. -/
theorem exists_filled (ctx : Context) (s : List Char) : ∃ out, Filled ctx s out := by
  induction hlen : s.length using Nat.strong_induction_on generalizing s with
  | _ k ih =>
    subst hlen
    cases hplaceholder : placeholder? s with
    | some p =>
      obtain ⟨body, rest⟩ := p
      obtain ⟨out, hout⟩ := ih _ (length_lt_of_placeholder? hplaceholder) rest rfl
      have htext := isPlaceholder_of_placeholder? hplaceholder
      rw [placeholder?_eq hplaceholder]
      cases hn : ctx.get? (nameOf body) with
      | none => exact ⟨_, .unbound htext hn hout⟩
      | some v =>
        cases hv : v.isFalsy with
        | true => exact ⟨_, .falsy htext hn hv hout⟩
        | false => exact ⟨_, .bound htext hn hv hout⟩
    | none =>
      cases s with
      | nil => exact ⟨[], .done⟩
      | cons c rest =>
        obtain ⟨out, hout⟩ := ih _ (Nat.lt_succ_self _) rest rfl
        refine ⟨c :: out, .plain (fun text n htext hprefix => ?_) hout⟩
        obtain ⟨after, hafter⟩ := hprefix
        obtain ⟨body, -, -, hread⟩ := placeholder?_of_isPlaceholder htext after
        rw [hafter, hplaceholder] at hread
        cases hread

theorem Filled.eq_nil (h : Filled ctx [] out) : out = [] := by
  generalize hs : ([] : List Char) = s at h
  cases h with
  | done => rfl
  | unbound htext => exact absurd (List.append_eq_nil_iff.1 hs.symm).1 htext.ne_nil
  | falsy htext => exact absurd (List.append_eq_nil_iff.1 hs.symm).1 htext.ne_nil
  | bound htext => exact absurd (List.append_eq_nil_iff.1 hs.symm).1 htext.ne_nil
  | plain => cases hs

theorem inlineText_eq {body : List Char} (h : nameOf body = n) :
    inlineText ctx body =
      match ctx.get? n with
      | none => braced body
      | some v => if v.isFalsy then [] else v.chars := by
  rw [inlineText, h]
  cases ctx.get? n with
  | none => rfl
  | some v =>
    simp only [Value.shown?_eq]
    cases v.isFalsy <;> rfl

theorem lineText_eq (h : nameOf l.body = n) :
    lineText ctx l =
      match ctx.get? n with
      | none => []
      | some v => if v.isFalsy then [] else l.indent ++ v.chars ++ l.trail := by
  rw [lineText, h]
  cases ctx.get? n with
  | none => rfl
  | some v =>
    simp only [Option.bind_some, Value.shown?_eq]
    cases v.isFalsy <;> rfl

/-- A placeholder that begins in a line ends in it. -/
theorem isPrefix_of_isLine {text after : List Char} (hline : IsLine line rest)
    (htext : IsPlaceholder text n) (h : text ++ after = line ++ rest) : text <+: line := by
  have hprefix : text <+: line ++ rest := ⟨after, h⟩
  cases hline with
  | @ended s rest hs =>
    rw [List.append_assoc] at hprefix
    exact (prefix_of_prefix_append_cons htext.not_mem hprefix).trans (List.prefix_append _ _)
  | last hs => rwa [List.append_nil] at hprefix

/-- The scan fills a line that it does not look at as a whole, and goes on with the next line. -/
theorem renderFrom_of_filled (h : Filled ctx line out) (hline : IsLine line rest) :
    renderFrom ctx false (line ++ rest) = out ++ renderFrom ctx true rest := by
  induction h with
  | done =>
    rw [hline.eq_nil List.not_mem_nil, List.append_nil, renderFrom_nil, renderFrom_nil]
    rfl
  | @unbound text tail out n htext hn _ ih =>
    obtain ⟨body, rfl, hbody, hread⟩ := placeholder?_of_isPlaceholder htext (tail ++ rest)
    rw [List.append_assoc, renderFrom_of_placeholder? rfl hread, ih (hline.of_append htext.not_mem),
      inlineText_eq hbody, hn, List.append_assoc]
  | @falsy text tail out n v htext hn hv _ ih =>
    obtain ⟨body, rfl, hbody, hread⟩ := placeholder?_of_isPlaceholder htext (tail ++ rest)
    rw [List.append_assoc, renderFrom_of_placeholder? rfl hread, ih (hline.of_append htext.not_mem),
      inlineText_eq hbody, hn]
    simp only [hv, if_true, List.nil_append]
  | @bound text tail out n v htext hn hv _ ih =>
    obtain ⟨body, rfl, hbody, hread⟩ := placeholder?_of_isPlaceholder htext (tail ++ rest)
    rw [List.append_assoc, renderFrom_of_placeholder? rfl hread, ih (hline.of_append htext.not_mem),
      inlineText_eq hbody, hn]
    simp only [hv, List.append_assoc]
    rfl
  | @plain c tail out hc hrest ih =>
    have hread : placeholder? (c :: tail ++ rest) = none := by
      by_contra hne
      obtain ⟨⟨body, after⟩, hread⟩ := Option.ne_none_iff_exists'.1 hne
      have htext := isPlaceholder_of_placeholder? hread
      exact hc _ _ htext (isPrefix_of_isLine hline htext (placeholder?_eq hread).symm)
    rw [List.cons_append] at hread ⊢
    rw [renderFrom_cons rfl hread]
    by_cases hnewline : c = '\n'
    · -- the newline is the end of the line, so that nothing is left to fill
      subst hnewline
      obtain rfl : tail = [] := hline.tail_eq_nil
      rw [hrest.eq_nil]
      rfl
    · rw [show (c == '\n') = false by simpa using hnewline,
        ih (hline.of_append (u := [c]) (by simpa using Ne.symm hnewline))]
      rfl

/-- **A line is rendered on its own.** -/
theorem renderFrom_of_rendered (h : Rendered ctx line out) (hline : IsLine line rest) :
    renderFrom ctx true (line ++ rest) = out ++ renderFrom ctx true rest := by
  cases h with
  | unbound hconditional hn =>
    obtain ⟨body, hbody, hread⟩ := conditionalLine?_of_isConditional hline hconditional
    rw [renderFrom_of_conditionalLine? hread, lineText_eq hbody, hn]
  | falsy hconditional hn hv =>
    obtain ⟨body, hbody, hread⟩ := conditionalLine?_of_isConditional hline hconditional
    rw [renderFrom_of_conditionalLine? hread, lineText_eq hbody, hn]
    simp only [hv, if_true]
  | bound hconditional hn hv =>
    obtain ⟨body, hbody, hread⟩ := conditionalLine?_of_isConditional hline hconditional
    rw [renderFrom_of_conditionalLine? hread, lineText_eq hbody, hn]
    simp only [hv]
    rfl
  | other hother hfilled =>
    have hread : conditionalLine? (line ++ rest) = none := by
      by_contra hne
      obtain ⟨⟨l, after⟩, hread⟩ := Option.ne_none_iff_exists'.1 hne
      obtain ⟨hconditional, hfirst⟩ := isConditional_of_conditionalLine? hread
      -- a text has one first line
      obtain ⟨rfl, -⟩ := hfirst.unique hline (conditionalLine?_eq hread).symm
      exact hother _ _ _ hconditional
    rw [renderFrom_true hread, renderFrom_of_filled hfilled hline]

theorem exists_rendered (ctx : Context) (line : List Char) : ∃ out, Rendered ctx line out := by
  by_cases h : ∃ indent n trail, IsConditional line indent n trail
  · obtain ⟨indent, n, trail, h⟩ := h
    cases hn : ctx.get? n with
    | none => exact ⟨_, .unbound h hn⟩
    | some v =>
      cases hv : v.isFalsy with
      | true => exact ⟨_, .falsy h hn hv⟩
      | false => exact ⟨_, .bound h hn hv⟩
  · obtain ⟨out, hout⟩ := exists_filled ctx line
    exact ⟨out, .other (fun indent n trail hline => h ⟨indent, n, trail, hline⟩) hout⟩

/-- The renderings of the lines, one after another, are the rendering of the text. -/
theorem renderFrom_lines (ctx : Context) (s : List Char) :
    (∃ parts, List.Forall₂ (Rendered ctx) (linesOf s) parts) ∧
      ∀ parts, List.Forall₂ (Rendered ctx) (linesOf s) parts →
        renderFrom ctx true s = parts.flatten := by
  induction hlen : s.length using Nat.strong_induction_on generalizing s with
  | _ k ih =>
    subst hlen
    by_cases hs : s = []
    · subst hs
      refine ⟨⟨[], .nil⟩, fun parts hparts => ?_⟩
      cases hparts
      rw [renderFrom_nil]
      rfl
    · obtain ⟨line, rest, rfl, hne, hline, hlines⟩ := exists_line hs
      have hshorter : rest.length < (line ++ rest).length := by
        rw [List.length_append]
        exact Nat.lt_add_of_pos_left (List.length_pos_iff.2 hne)
      obtain ⟨⟨parts, hparts⟩, hall⟩ := ih _ hshorter rest rfl
      obtain ⟨out, hout⟩ := exists_rendered ctx line
      rw [hlines]
      refine ⟨⟨out :: parts, .cons hout hparts⟩, fun parts hparts => ?_⟩
      cases hparts with
      | cons hfirst hothers =>
        rw [renderFrom_of_rendered hfirst hline, hall _ hothers]
        rfl

/-- **Rendering is rendering line by line.** A text is the rendering of a template exactly if it is
made of renderings of the template's lines. -/
theorem eq_render_iff (ctx : Context) (template out : String) :
    out = render ctx template ↔
      ∃ parts, List.Forall₂ (Rendered ctx) (linesOf template.toList) parts ∧
        out.toList = parts.flatten := by
  obtain ⟨⟨parts, hparts⟩, hall⟩ := renderFrom_lines ctx template.toList
  constructor
  · rintro rfl
    exact ⟨parts, hparts, by rw [render, String.toList_ofList, renderChars, hall parts hparts]⟩
  · rintro ⟨parts, hparts, hout⟩
    rw [render, renderChars, hall parts hparts, ← hout, String.ofList_toList]

end Scaffold.Template
