import Scaffold.Proofs.Template.Grammar
import Scaffold.Proofs.Entries
import Mathlib.Algebra.Order.BigOperators.Group.List
import Mathlib.Algebra.Order.Group.Nat

/-!
# The names a template depends on

Where a template is cut into conditional lines, placeholders and other characters does not depend on
the values. So a rendering depends on the values of the names that the template mentions, and on
nothing else.

* **Pieces.** A template is one list of pieces for all contexts; the names of the pieces are those of
  the template's placeholders, from left to right.
* **Every name counts.** Of two texts, the empty one and another, the second always makes the
  rendering longer.
-/

namespace Scaffold.Template

open Text

variable {s rest : List Char} {l : ConditionalLine} {c : Char} {ctx ctx' : Context} {n : String}

/-! ## The placeholders of a text -/

theorem bodies_of_placeholder? {body : List Char} (h : placeholder? s = some (body, rest)) :
    bodies s = body :: bodies rest := by
  rw [bodies]
  split
  · rename_i heq
    rw [h] at heq
    cases heq
    rfl
  · rename_i heq
    rw [h] at heq
    cases heq

theorem bodies_cons (h : placeholder? (c :: s) = none) : bodies (c :: s) = bodies s := by
  rw [bodies]
  split
  · rename_i heq
    rw [h] at heq
    cases heq
  · rfl

theorem bodies_nil : bodies [] = [] := by
  rw [bodies]
  rfl

/-- No placeholder begins in a text without opening braces. -/
theorem bodies_append {u : List Char} (hu : '\x7b' ∉ u) (s : List Char) :
    bodies (u ++ s) = bodies s := by
  induction u with
  | nil => rfl
  | cons c u ih =>
    rw [List.mem_cons, not_or] at hu
    rw [List.cons_append, bodies_cons (placeholder?_cons_of_ne (Ne.symm hu.1) _), ih hu.2]

theorem bodies_of_conditionalLine? (h : conditionalLine? s = some (l, rest)) :
    bodies s = l.body :: bodies rest := by
  obtain ⟨hindent, htoken, blanks, ending, hblanks, hending, htrail, -⟩ := parts_of_conditionalLine? h
  have hbrace {u : List Char} (hu : Blanks u) : '\x7b' ∉ u :=
    fun hmem => absurd (hu _ hmem) (by decide)
  have hafter : '\x7b' ∉ l.trail := by
    rw [htrail, List.mem_append, not_or]
    refine ⟨hbrace hblanks, ?_⟩
    rcases hending with rfl | rfl | rfl <;> decide
  obtain ⟨body, heq, -, hread⟩ := placeholder?_of_isPlaceholder htoken (l.trail ++ rest)
  obtain rfl : l.body = body := by simpa [braced] using heq
  rw [conditionalLine?_eq h, ConditionalLine.chars, List.append_assoc, List.append_assoc,
    bodies_append (hbrace hindent), bodies_of_placeholder? hread, bodies_append hafter]

theorem mem_names_iff {template : String} :
    n ∈ names template ↔ ∃ body ∈ bodies template.toList, nameOf body = n := by
  rw [names, List.mem_mergeSort, List.mem_eraseDups, List.mem_map]

/-! ## Pieces -/

/-- A piece of a template. -/
inductive Piece where
  /-- a conditional line -/
  | line (l : ConditionalLine)
  /-- a placeholder that shares its line -/
  | token (body : List Char)
  /-- any other character -/
  | plain (c : Char)
  deriving DecidableEq

/-- What becomes of a piece. -/
def Piece.text (ctx : Context) : Piece → List Char
  | .line l => lineText ctx l
  | .token body => inlineText ctx body
  | .plain c => [c]

/-- The placeholder of a piece, if it has one. -/
def Piece.body? : Piece → Option (List Char)
  | .line l => some l.body
  | .token body => some body
  | .plain _ => none

/-- The name that a piece mentions, if it mentions one. -/
def Piece.name? (p : Piece) : Option String := p.body?.map nameOf

/-- The pieces of the rest of a template, from left to right. They are the same in every context. -/
def pieces (lineStart : Bool) (s : List Char) : List Piece :=
  match _hl : (if lineStart then conditionalLine? s else none) with
  | some (line, rest) => .line line :: pieces true rest
  | none =>
    match _hp : placeholder? s with
    | some (body, rest) => .token body :: pieces false rest
    | none =>
      match s with
      | [] => []
      | c :: rest => .plain c :: pieces (c == '\n') rest
termination_by s.length
decreasing_by
  · split at _hl
    · exact length_lt_of_conditionalLine? _hl
    · cases _hl
  · exact length_lt_of_placeholder? _hp
  · simp

/-- **Rendering is putting texts in the places of the pieces**, whose placeholders are the template's
own. -/
theorem renderFrom_eq_flatMap_pieces (lineStart : Bool) (s : List Char) :
    (∀ ctx, renderFrom ctx lineStart s = (pieces lineStart s).flatMap (Piece.text ctx)) ∧
      bodies s = (pieces lineStart s).filterMap Piece.body? := by
  fun_induction pieces lineStart s with
  | case1 lineStart s l rest hline ih =>
    obtain ⟨htext, hbodies⟩ := ih
    cases lineStart with
    | false => cases hline
    | true =>
      rw [dif_pos rfl] at hline
      refine ⟨fun ctx => ?_, ?_⟩
      · rw [renderFrom_of_conditionalLine? hline, htext]
        rfl
      · rw [bodies_of_conditionalLine? hline, hbodies]
        rfl
  | case2 lineStart s hline body rest hplaceholder ih =>
    obtain ⟨htext, hbodies⟩ := ih
    refine ⟨fun ctx => ?_, ?_⟩
    · rw [renderFrom_of_placeholder? hline hplaceholder, htext]
      rfl
    · rw [bodies_of_placeholder? hplaceholder, hbodies]
      rfl
  | case3 lineStart hline hplaceholder =>
    exact ⟨fun ctx => renderFrom_nil ctx _, bodies_nil⟩
  | case4 lineStart c rest hline hplaceholder ih =>
    obtain ⟨htext, hbodies⟩ := ih
    refine ⟨fun ctx => ?_, ?_⟩
    · rw [renderFrom_cons hline hplaceholder, htext]
      rfl
    · rw [bodies_cons hplaceholder, hbodies]
      rfl

theorem toList_render (ctx : Context) (template : String) :
    (render ctx template).toList = (pieces true template.toList).flatMap (Piece.text ctx) := by
  rw [render, String.toList_ofList, renderChars, (renderFrom_eq_flatMap_pieces true _).1]

/-- A template has the same pieces in every context; the names of the pieces are the template's. -/
theorem exists_pieces_render (template : String) :
    ∃ pieces : List Piece,
      (∀ ctx, (render ctx template).toList = pieces.flatMap (Piece.text ctx)) ∧
        ∀ n, n ∈ names template ↔ ∃ p ∈ pieces, p.name? = some n := by
  refine ⟨pieces true template.toList, fun ctx => toList_render ctx template, fun n => ?_⟩
  rw [mem_names_iff, (renderFrom_eq_flatMap_pieces true _).2]
  constructor
  · rintro ⟨body, hbody, rfl⟩
    obtain ⟨p, hp, hpbody⟩ := List.mem_filterMap.1 hbody
    exact ⟨p, hp, by rw [Piece.name?, hpbody]; rfl⟩
  · rintro ⟨p, hp, hname⟩
    obtain ⟨body, hbody, rfl⟩ := Option.map_eq_some_iff.1 hname
    exact ⟨body, List.mem_filterMap.2 ⟨p, hp, hbody⟩, rfl⟩

/-! ## What a piece depends on -/

/-- A piece depends on the value of its name only. -/
theorem Piece.text_congr {p : Piece} (h : ∀ n, p.name? = some n → ctx.get? n = ctx'.get? n) :
    p.text ctx = p.text ctx' := by
  cases p with
  | line l => rw [text, text, lineText, lineText, h _ rfl]
  | token body => rw [text, text, inlineText, inlineText, h _ rfl]
  | plain c => rfl

/-- An empty value leaves nothing of a piece that mentions the name. -/
theorem Piece.text_falsy {p : Piece} (hname : p.name? = some n) {v : Value} (hn : ctx.get? n = some v)
    (hv : v.shown? = none) : p.text ctx = [] := by
  cases p with
  | line l =>
    cases hname
    rw [text, lineText, hn, Option.bind_some, hv]
  | token body =>
    cases hname
    rw [text, inlineText, hn]
    simp only [hv]
    rfl
  | plain c => cases hname

/-- A text that is not empty is seen in a piece that mentions the name. -/
theorem Piece.text_shown {p : Piece} (hname : p.name? = some n) {v : Value} {shown : List Char}
    (hn : ctx.get? n = some v) (hv : v.shown? = some shown) (hne : shown ≠ []) :
    p.text ctx ≠ [] := by
  cases p with
  | line l =>
    cases hname
    rw [text, lineText, hn, Option.bind_some, hv]
    simp [hne]
  | token body =>
    cases hname
    rw [text, inlineText, hn]
    simp only [hv]
    exact hne
  | plain c => cases hname

/-- Of two contexts that give a name nothing and a text, the second lets every piece be at least as
long, and a piece that mentions the name longer. -/
theorem Piece.length_text (p : Piece) (ctx : Context) (n : String) :
    (p.text (ctx.insert n (.text ""))).length ≤ (p.text (ctx.insert n (.text "x"))).length ∧
      (p.name? = some n →
        (p.text (ctx.insert n (.text ""))).length < (p.text (ctx.insert n (.text "x"))).length) := by
  have hinsert (v : Value) : (ctx.insert n v).get? n = some v := by
    rw [Entries.get?_insert, if_pos rfl]
  by_cases hname : p.name? = some n
  · have hnothing := text_falsy hname (hinsert (.text "")) rfl
    have hshown := text_shown hname (hinsert (.text "x")) rfl (List.cons_ne_nil _ _)
    rw [hnothing]
    exact ⟨Nat.zero_le _, fun _ => List.length_pos_iff.2 hshown⟩
  · have hother : p.text (ctx.insert n (.text "")) = p.text (ctx.insert n (.text "x")) := by
      apply text_congr
      intro m hm
      have hne : n ≠ m := by
        rintro rfl
        exact hname hm
      rw [Entries.get?_insert, Entries.get?_insert, if_neg hne, if_neg hne]
    exact ⟨(congrArg List.length hother).le, fun h => absurd h hname⟩

/-- **A rendering depends on the names of its template, and on nothing else.** Contexts that agree on
them give the same rendering; and for each of them two texts give different renderings, whatever the
other names are bound to. -/
theorem render_depends_on_names (template : String) :
    (∀ ctx ctx' : Context, (∀ n ∈ names template, ctx.get? n = ctx'.get? n) →
      render ctx template = render ctx' template) ∧
    ∀ n ∈ names template, ∀ ctx : Context, ∃ v v' : String,
      render (ctx.insert n (.text v)) template ≠ render (ctx.insert n (.text v')) template := by
  obtain ⟨pieces, htext, hnames⟩ := exists_pieces_render template
  constructor
  · intro ctx ctx' hagree
    apply String.toList_injective
    rw [htext, htext]
    apply List.flatMap_congr
    intro p hp
    exact Piece.text_congr fun n hn => hagree n ((hnames n).2 ⟨p, hp, hn⟩)
  · intro n hn ctx
    obtain ⟨p, hp, hname⟩ := (hnames n).1 hn
    refine ⟨"", "x", fun heq => ?_⟩
    -- the second rendering is longer
    have hlt : ((render (ctx.insert n (.text "")) template).toList).length <
        ((render (ctx.insert n (.text "x")) template).toList).length := by
      rw [htext, htext, List.length_flatMap, List.length_flatMap]
      apply List.sum_lt_sum
      · exact fun q _ => (q.length_text ctx n).1
      · exact ⟨p, hp, (p.length_text ctx n).2 hname⟩
    rw [heq] at hlt
    exact lt_irrefl _ hlt

/-- A placeholder on a line of its own, and two on a line that they share. -/
def sharedTemplate : String := "  \x7b\x7b a \x7d\x7d\n[\x7b\x7b a \x7d\x7d] \x7b\x7b b \x7d\x7d"

theorem render_depends_on_names_shared :
    render [("a", .text "x")] sharedTemplate =
        render [("c", .flag true), ("a", .text "x")] sharedTemplate ∧
      ∃ v v' : String,
        render (Entries.insert "b" (.text v) [("c", .flag true)]) sharedTemplate ≠
          render (Entries.insert "b" (.text v') [("c", .flag true)]) sharedTemplate := by
  have hbodies : (bodies sharedTemplate.toList).map nameOf = ["a", "a", "b"] := by decide +kernel
  have hnames (n : String) : n ∈ names sharedTemplate ↔ n ∈ ["a", "a", "b"] := by
    rw [mem_names_iff, ← List.mem_map, hbodies]
  obtain ⟨hagree, hdiffer⟩ := render_depends_on_names sharedTemplate
  refine ⟨hagree _ _ fun n hn => ?_, hdiffer "b" ?_ _⟩
  · revert n
    simp only [hnames]
    decide
  · rw [hnames]
    decide

end Scaffold.Template
