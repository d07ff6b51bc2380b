import Scaffold.Text.Lines
import Scaffold.Proofs.Text.Search

/-!
# Whole lines

A text has a line if the line stands in it between two line breaks, or between one and an end of the
text.

* **The lines of `breakLines`** are these, as far as they are not empty.
* **Insertions** at a line break, before or after it, keep every line. This is how a patch does not
  hide what an earlier one looks for.
-/

namespace Scaffold.Text

variable {l s a b p q x : List Char} {c d : Char}

/-- The text is empty or ends with a line break, so that a line may begin after it. -/
def EndsLine (s : List Char) : Prop := ∀ c ∈ s.getLast?, isLineBreak c = true

/-- The text is empty or begins with a line break, so that a line may end before it. -/
def BeginsBreak (s : List Char) : Prop := ∀ c ∈ s.head?, isLineBreak c = true

/-- A line of a text. -/
structure IsLine (l s : List Char) : Prop where
  /-- the line does not go on over a line break -/
  unbroken : ∀ c ∈ l, isLineBreak c = false
  /-- the line stands in the text between line breaks or ends -/
  place : ∃ a b, s = a ++ (l ++ b) ∧ EndsLine a ∧ BeginsBreak b

/-! ## Line ends of files -/

theorem foldNewlines_of_not_mem (h : '\r' ∉ s) : foldNewlines s = s := by
  fun_induction foldNewlines s with
  | case1 => rfl
  | case2 rest ih => simp at h
  | case3 c rest hc ih =>
    simp only [List.mem_cons, not_or] at h
    have hne : c ≠ '\r' := fun e => h.1 e.symm
    simp [hne, ih h.2]

theorem not_mem_foldNewlines (s : List Char) : '\r' ∉ foldNewlines s := by
  fun_induction foldNewlines s with
  | case1 => simp
  | case2 rest ih => simp [ih]
  | case3 c rest hc ih =>
    by_cases h : c = '\r'
    · simp [h, ih]
    · simp [h, ih, Ne.symm h]

/-! ## Ends of texts -/

@[simp]
theorem endsLine_nil : EndsLine [] := nofun

@[simp]
theorem beginsBreak_nil : BeginsBreak [] := nofun

@[simp]
theorem endsLine_concat : EndsLine (s ++ [c]) ↔ isLineBreak c = true := by
  simp [EndsLine]

@[simp]
theorem beginsBreak_cons : BeginsBreak (c :: s) ↔ isLineBreak c = true := by
  simp [BeginsBreak]

theorem endsLine_append (hne : b ≠ []) : EndsLine (a ++ b) ↔ EndsLine b := by
  simp [EndsLine, List.getLast?_append_of_ne_nil _ hne]

theorem beginsBreak_append (hne : a ≠ []) : BeginsBreak (a ++ b) ↔ BeginsBreak a := by
  simp [BeginsBreak, List.head?_append_of_ne_nil _ hne]

theorem EndsLine.append (ha : EndsLine a) (hb : EndsLine b) : EndsLine (a ++ b) := by
  by_cases hne : b = []
  · rwa [hne, List.append_nil]
  · exact (endsLine_append hne).2 hb

theorem BeginsBreak.append (ha : BeginsBreak a) (hb : BeginsBreak b) : BeginsBreak (a ++ b) := by
  by_cases hne : a = []
  · rwa [hne, List.nil_append]
  · exact (beginsBreak_append hne).2 ha

/-- No line ends a text in the middle. -/
theorem not_endsLine (hne : l ≠ []) (hl : ∀ c ∈ l, isLineBreak c = false) : ¬ EndsLine (a ++ l) := by
  intro h
  have hlast := (endsLine_append hne).1 h (l.getLast hne) (List.getLast?_eq_some_getLast hne)
  rw [hl _ (List.getLast_mem hne)] at hlast
  cases hlast

theorem not_beginsBreak (hne : l ≠ []) (hl : ∀ c ∈ l, isLineBreak c = false) :
    ¬ BeginsBreak (l ++ b) := by
  intro h
  have hfirst := (beginsBreak_append hne).1 h (l.head hne) (List.head?_eq_some_head hne)
  rw [hl _ (List.head_mem hne)] at hfirst
  cases hfirst

/-- What is left of a text after its first line. -/
theorem dropWhile_newline (s : List Char) :
    s.dropWhile (· != '\n') = [] ∨ ∃ rest, s.dropWhile (· != '\n') = '\n' :: rest := by
  have hhead := List.head?_dropWhile_not (· != '\n') s
  cases h : s.dropWhile (· != '\n') with
  | nil => exact .inl rfl
  | cons c rest =>
    rw [h] at hhead
    obtain rfl : c = '\n' := by simpa using hhead
    exact .inr ⟨rest, rfl⟩

/-! ## The lines of a text -/

/-- Nothing but the start of a text without line breaks may be followed by a line. -/
theorem EndsLine.eq_nil (h : EndsLine a) (ha : ∀ c ∈ a, isLineBreak c = false) : a = [] := by
  by_contra hne
  exact not_endsLine (a := []) hne ha h

theorem BeginsBreak.eq_nil (h : BeginsBreak b) (hb : ∀ c ∈ b, isLineBreak c = false) : b = [] := by
  by_contra hne
  exact not_beginsBreak (b := []) hne hb (by rwa [List.append_nil])

/-! ## The lines of a text -/

/-- A text without line breaks has one line. -/
theorem isLine_of_unbroken (hs : ∀ c ∈ s, isLineBreak c = false) : IsLine l s ↔ l = s := by
  constructor
  · rintro ⟨-, a, b, rfl, ha, hb⟩
    have ha' := ha.eq_nil fun c hc => hs c (by simp [hc])
    have hb' := hb.eq_nil fun c hc => hs c (by simp [hc])
    rw [ha', hb', List.nil_append, List.append_nil]
  · rintro rfl
    exact ⟨hs, [], [], by simp, endsLine_nil, beginsBreak_nil⟩

/-- The lines of a text are its first line and the lines after it. -/
theorem isLine_append_cons (hne : l ≠ []) (hx : ∀ c ∈ x, isLineBreak c = false)
    (hc : isLineBreak c = true) : IsLine l (x ++ c :: s) ↔ l = x ∨ IsLine l s := by
  constructor
  · rintro ⟨hl, a, b, h, ha, hb⟩
    have hnot (hmem : c ∈ l) : False := by
      rw [hl c hmem] at hc
      cases hc
    rcases List.append_eq_append_iff.1 h with ⟨a', rfl, hrest⟩ | ⟨x', rfl, hrest⟩
    · cases a' with
      | nil =>
        obtain ⟨c', l', rfl⟩ := List.exists_cons_of_ne_nil hne
        obtain rfl : c = c' := (List.cons.inj hrest).1
        exact (hnot (.head _)).elim
      | cons c' a' =>
        obtain ⟨rfl, rfl⟩ := List.cons.inj hrest
        refine .inr ⟨hl, a', b, rfl, ?_, hb⟩
        by_cases ha' : a' = []
        · rw [ha']
          exact endsLine_nil
        · rwa [← List.singleton_append, ← List.append_assoc, endsLine_append ha'] at ha
    · have ha' := ha.eq_nil fun c hc => hx c (by simp [hc])
      subst ha'
      rcases List.append_eq_append_iff.1 hrest with ⟨x'', rfl, rfl⟩ | ⟨l', rfl, hbreak⟩
      · by_cases hx'' : x'' = []
        · exact .inl (by simp [hx''])
        · exact absurd hb (not_beginsBreak hx'' fun c hc => hx c (by simp [hc]))
      · cases l' with
        | nil => exact .inl (by simp)
        | cons c' l' =>
          obtain rfl : c = c' := (List.cons.inj hbreak).1
          exact (hnot (by simp)).elim
  · rintro (rfl | ⟨hl, a, b, rfl, ha, hb⟩)
    · exact ⟨hx, [], c :: s, rfl, endsLine_nil, beginsBreak_cons.2 hc⟩
    · refine ⟨hl, (x ++ [c]) ++ a, b, by simp, ?_, hb⟩
      exact (endsLine_concat.2 hc).append ha

theorem mem_breakLinesFrom_iff (hne : l ≠ []) (hx : ∀ c ∈ x, isLineBreak c = false) :
    l ∈ breakLinesFrom x s ↔ IsLine l (x.reverse ++ s) := by
  have hreverse {x : List Char} (hx : ∀ c ∈ x, isLineBreak c = false) :
      ∀ c ∈ x.reverse, isLineBreak c = false := fun c hc => hx c (List.mem_reverse.1 hc)
  have hnone : ∀ c ∈ ([] : List Char), isLineBreak c = false := by simp
  fun_induction breakLinesFrom x s with
  | case1 x hnil =>
    obtain rfl := List.isEmpty_iff.1 hnil
    rw [List.reverse_nil, List.append_nil, isLine_of_unbroken hnone]
    simp [hne]
  | case2 x hnil =>
    rw [List.append_nil, isLine_of_unbroken (hreverse hx), List.mem_singleton]
  | case3 x rest ih =>
    have hrest : l ∈ breakLinesFrom [] rest ↔ IsLine l rest := ih hnone
    have hfeed : IsLine l ([] ++ '\n' :: rest) ↔ l = [] ∨ IsLine l rest :=
      isLine_append_cons hne hnone (by decide)
    rw [isLine_append_cons hne (hreverse hx) (by decide), List.mem_cons, hrest]
    rw [List.nil_append] at hfeed
    simp [hfeed, hne]
  | case4 x c rest hcr hbreak ih =>
    have hrest : l ∈ breakLinesFrom [] rest ↔ IsLine l rest := ih hnone
    rw [isLine_append_cons hne (hreverse hx) hbreak, List.mem_cons, hrest]
  | case5 x c rest hcr hbreak ih =>
    have hlonger : ∀ d ∈ c :: x, isLineBreak d = false :=
      List.forall_mem_cons.2 ⟨by simpa using hbreak, hx⟩
    have hrest : l ∈ breakLinesFrom (c :: x) rest ↔ IsLine l ((c :: x).reverse ++ rest) :=
      ih hlonger
    rw [hrest]
    simp

/-- **The lines of a text stand in it whole.** -/
theorem mem_breakLines_iff (hne : l ≠ []) : l ∈ breakLines s ↔ IsLine l s :=
  mem_breakLinesFrom_iff (x := []) hne (by simp)

theorem breakLinesFrom_ne_nil (h : x ≠ [] ∨ s ≠ []) : breakLinesFrom x s ≠ [] := by
  fun_induction breakLinesFrom x s with
  | case1 x hnil => simp_all
  | case2 => simp
  | case3 => simp
  | case4 => simp
  | case5 x c rest hcr hbreak ih => exact ih (.inl (List.cons_ne_nil _ _))

theorem breakLines_ne_nil (hs : s ≠ []) : breakLines s ≠ [] := breakLinesFrom_ne_nil (.inr hs)

theorem exists_lineFrom_of_infix (hne : l ≠ []) (hl : ∀ c ∈ l, isLineBreak c = false)
    (h : l <:+: x.reverse ++ s) : ∃ line ∈ breakLinesFrom x s, l <:+: line := by
  have hnot {c : Char} (hc : isLineBreak c = true) : c ∉ l := fun hmem => by
    rw [hl c hmem] at hc
    cases hc
  have hnil : ¬ l <:+: [] := fun h => hne (List.infix_nil.1 h)
  fun_induction breakLinesFrom x s with
  | case1 x hx =>
    obtain rfl := List.isEmpty_iff.1 hx
    exact absurd h hnil
  | case2 x hx => exact ⟨x.reverse, .head _, by simpa using h⟩
  | case3 x rest ih =>
    rcases infix_append_cons (hnot (by decide)) h with hx | hrest
    · exact ⟨x.reverse, .head _, hx⟩
    · rcases infix_append_cons (a := []) (hnot (by decide)) hrest with hempty | hrest
      · exact absurd hempty hnil
      · obtain ⟨line, hline, hin⟩ := ih hrest
        exact ⟨line, .tail _ hline, hin⟩
  | case4 x c rest hcr hbreak ih =>
    rcases infix_append_cons (hnot hbreak) h with hx | hrest
    · exact ⟨x.reverse, .head _, hx⟩
    · obtain ⟨line, hline, hin⟩ := ih hrest
      exact ⟨line, .tail _ hline, hin⟩
  | case5 x c rest hcr hbreak ih => exact ih (by simpa using h)

/-- A word without line breaks stands on one line of the text. -/
theorem exists_line_of_infix (hne : l ≠ []) (hl : ∀ c ∈ l, isLineBreak c = false) (h : l <:+: s) :
    ∃ line ∈ breakLines s, l <:+: line :=
  exists_lineFrom_of_infix (x := []) hne hl h

/-! ## Insertions -/

/-- A line is kept by what is inserted before a line break. -/
theorem IsLine.insert_before (h : IsLine l (p ++ q)) (hne : l ≠ []) (hx : BeginsBreak x)
    (hq : BeginsBreak q) : IsLine l (p ++ (x ++ q)) := by
  obtain ⟨hl, a, b, h, ha, hb⟩ := h
  rcases List.append_eq_append_iff.1 h with ⟨a', rfl, rfl⟩ | ⟨p', rfl, hrest⟩
  · by_cases ha' : a' = []
    · subst ha'
      exact absurd hq (by rw [List.nil_append]; exact not_beginsBreak hne hl)
    · refine ⟨hl, p ++ (x ++ a'), b, by simp, ?_, hb⟩
      rw [← List.append_assoc, endsLine_append ha']
      rwa [endsLine_append ha'] at ha
  · rcases List.append_eq_append_iff.1 hrest with ⟨b', rfl, rfl⟩ | ⟨l', rfl, rfl⟩
    · refine ⟨hl, a, b' ++ (x ++ q), by simp, ha, ?_⟩
      by_cases hb' : b' = []
      · rw [hb', List.nil_append]
        exact hx.append hq
      · rw [beginsBreak_append hb'] at hb ⊢
        exact hb
    · by_cases hl' : l' = []
      · subst hl'
        exact ⟨hl, a, x ++ ([] ++ b), by simp, ha, hx.append hq⟩
      · exact absurd hq (not_beginsBreak hl' fun c hc => hl c (by simp [hc]))

/-- A line is kept by what is inserted after a line break. -/
theorem IsLine.insert_after (h : IsLine l (p ++ q)) (hne : l ≠ []) (hp : EndsLine p)
    (hx : EndsLine x) : IsLine l (p ++ (x ++ q)) := by
  obtain ⟨hl, a, b, h, ha, hb⟩ := h
  rcases List.append_eq_append_iff.1 h with ⟨a', rfl, rfl⟩ | ⟨p', rfl, hrest⟩
  · refine ⟨hl, p ++ (x ++ a'), b, by simp, ?_, hb⟩
    by_cases ha' : a' = []
    · rw [ha', List.append_nil]
      exact hp.append hx
    · rw [← List.append_assoc, endsLine_append ha']
      rwa [endsLine_append ha'] at ha
  · rcases List.append_eq_append_iff.1 hrest with ⟨b', rfl, rfl⟩ | ⟨l', rfl, rfl⟩
    · by_cases hb' : b' = []
      · subst hb'
        rw [List.append_nil] at hp
        exact absurd hp (not_endsLine hne hl)
      · refine ⟨hl, a, b' ++ (x ++ q), by simp, ha, ?_⟩
        rw [beginsBreak_append hb'] at hb ⊢
        exact hb
    · by_cases hp' : p' = []
      · subst hp'
        rw [List.append_nil] at hp ⊢
        exact ⟨hl, a ++ x, b, by simp, hp.append hx, hb⟩
      · exact absurd hp (not_endsLine hp' fun c hc => hl c (by simp [hc]))

/-- A line without the character `d` stands before or after each one. -/
theorem IsLine.cases_cons (h : IsLine l (a ++ d :: b)) (hmem : d ∉ l) (hd : isLineBreak d = false) :
    (∃ a₁ a₂, a = a₁ ++ (l ++ a₂) ∧ a₂ ≠ [] ∧ EndsLine a₁ ∧ BeginsBreak a₂) ∨
      ∃ b₁ b₂, b = b₁ ++ (l ++ b₂) ∧ b₁ ≠ [] ∧ EndsLine b₁ ∧ BeginsBreak b₂ := by
  obtain ⟨hl, a₁, b₂, h, ha, hb⟩ := h
  have hnot {s : List Char} : ¬ BeginsBreak (d :: s) := by simp [hd]
  rcases List.append_eq_append_iff.1 h with ⟨b₁, rfl, hrest⟩ | ⟨l₁, rfl, hrest⟩
  · rcases List.cons_eq_append_iff.1 hrest with ⟨rfl, hstart⟩ | ⟨b₁, rfl, rfl⟩
    · rcases List.append_eq_cons_iff.1 hstart with ⟨rfl, rfl⟩ | ⟨l', rfl, -⟩
      · exact absurd hb hnot
      · exact absurd List.mem_cons_self hmem
    · refine .inr ⟨b₁, b₂, rfl, ?_, ?_, hb⟩
      · rintro rfl
        simp [hd] at ha
      · by_cases hb₁ : b₁ = []
        · rw [hb₁]
          exact endsLine_nil
        · rwa [← List.singleton_append, ← List.append_assoc, endsLine_append hb₁] at ha
  · rcases List.append_eq_append_iff.1 hrest with ⟨a₂, rfl, rfl⟩ | ⟨l₂, rfl, hend⟩
    · by_cases ha₂ : a₂ = []
      · subst ha₂
        exact absurd hb hnot
      · exact .inl ⟨a₁, a₂, rfl, ha₂, ha, (beginsBreak_append ha₂).1 hb⟩
    · rcases List.cons_eq_append_iff.1 hend with ⟨rfl, rfl⟩ | ⟨l₂, rfl, -⟩
      · exact absurd hb hnot
      · exact absurd (by simp) hmem

/-- The lines that are inserted, each behind a newline, stand there whole. -/
theorem isLine_flatMap {lines : List (List Char)} (hl : ∀ c ∈ l, isLineBreak c = false)
    (hmem : l ∈ lines) (hq : BeginsBreak q) : IsLine l (p ++ (lines.flatMap ('\n' :: ·) ++ q)) := by
  obtain ⟨lines₁, lines₂, rfl⟩ := List.append_of_mem hmem
  refine ⟨hl, p ++ lines₁.flatMap ('\n' :: ·) ++ ['\n'], lines₂.flatMap ('\n' :: ·) ++ q,
    by simp, endsLine_concat.2 (by decide), BeginsBreak.append ?_ hq⟩
  cases lines₂ with
  | nil => exact beginsBreak_nil
  | cons line lines₂ => exact beginsBreak_cons.2 (by decide)

theorem cons_intercalate {lines : List (List Char)} (hne : lines ≠ []) :
    '\n' :: ['\n'].intercalate lines = lines.flatMap ('\n' :: ·) := by
  induction lines with
  | nil => exact absurd rfl hne
  | cons line lines ih =>
    cases lines with
    | nil => simp
    | cons second lines =>
      rw [List.intercalate_cons_cons, List.flatMap_cons, ← ih (by simp)]
      simp

end Scaffold.Text
