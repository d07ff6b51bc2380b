import Scaffold.Template.Render
import Scaffold.Proofs.Lists
import Scaffold.Proofs.Text.Search
import Mathlib.Data.List.TakeWhile

/-!
# The grammar of templates

What the recognisers of a template read, said without them: a placeholder is braces around a body that
mentions a name, and a conditional line is blanks, one placeholder, blanks and a line end.

* **Names.** The blanks around a name do not belong to it. A body of blanks alone mentions the last of
  them.
* **One reading.** Each recogniser accepts exactly the texts of its grammar, and in one way only: no
  brace stands inside a body, and a newline only at the end of a line.
-/

namespace Scaffold.Template

open Text

variable {s t rest body name text indent trail : List Char} {n : String} {l : ConditionalLine}
  {c : Char} {ctx : Context}

/-! ## Names -/

/-- A text of spaces and tabs. -/
def Blanks (s : List Char) : Prop := ∀ c ∈ s, isSpacing c = true

/-- A name: it is not empty, and neither begins nor ends with a blank. -/
structure Bare (name : List Char) : Prop where
  /-- it has characters -/
  ne_nil : name ≠ []
  /-- it begins with something else than a blank -/
  head : ∀ c ∈ name.head?, isSpacing c = false
  /-- it ends with something else than a blank -/
  last : ∀ c ∈ name.getLast?, isSpacing c = false

/-- A body mentions the name between its blanks, or its last blank if it has nothing else. -/
inductive Mentions : List Char → List Char → Prop
  /-- a name between blanks -/
  | bare {before name after : List Char} (hbefore : Blanks before) (hname : Bare name)
      (hafter : Blanks after) : Mentions (before ++ name ++ after) name
  /-- nothing but blanks -/
  | blank {before : List Char} {c : Char} (hbefore : Blanks before) (hc : isSpacing c = true) :
      Mentions (before ++ [c]) [c]

/-- A placeholder with the name that it mentions. -/
def IsPlaceholder (text : List Char) (n : String) : Prop :=
  ∃ body name, text = braced body ∧ (∀ c ∈ body, isBodyChar c = true) ∧ Mentions body name ∧
    n = String.ofList name

theorem blanks_takeWhile (s : List Char) : Blanks (s.takeWhile isSpacing) :=
  fun _ hc => List.mem_takeWhile_imp hc

theorem trimBy_blanks (hs : Blanks s) : trimBy isSpacing s = [] := by
  have h := dropWhile_append_of_stop (t := []) hs nofun
  rw [List.append_nil] at h
  rw [trimBy, h]
  rfl

theorem trimBy_bare {before after : List Char} (hbefore : Blanks before) (hname : Bare name)
    (hafter : Blanks after) : trimBy isSpacing (before ++ name ++ after) = name := by
  have hhead : ∀ c ∈ (name ++ after).head?, isSpacing c = false := by
    intro c hc
    obtain ⟨d, rest, rfl⟩ := List.exists_cons_of_ne_nil hname.ne_nil
    exact hname.head c hc
  have hlast : ∀ c ∈ name.reverse.head?, isSpacing c = false := by
    intro c hc
    rw [List.head?_reverse] at hc
    exact hname.last c hc
  have hblanks : Blanks after.reverse := fun c hc => hafter c (List.mem_reverse.1 hc)
  rw [List.append_assoc, trimBy, dropWhile_append_of_stop hbefore hhead, trimEnd, List.reverse_append,
    dropWhile_append_of_stop hblanks hlast, List.reverse_reverse]

/-- The name of a body is the one that it mentions. -/
theorem nameOf_of_mentions (h : Mentions body name) : nameOf body = String.ofList name := by
  cases h with
  | bare hbefore hname hafter =>
    rw [nameOf, trimBy_bare hbefore hname hafter]
    split
    · exact absurd rfl hname.ne_nil
    · rfl
  | @blank before c hbefore hc =>
    have hblanks : Blanks (before ++ [c]) := by
      intro d hd
      rcases List.mem_append.1 hd with hd | hd
      · exact hbefore d hd
      · rwa [List.mem_singleton.1 hd]
    rw [nameOf, trimBy_blanks hblanks]
    simp

/-- A text is blanks and then something that does not begin with one. -/
theorem exists_blanks_append (s : List Char) :
    ∃ before core, s = before ++ core ∧ Blanks before ∧ ∀ c ∈ core.head?, isSpacing c = false := by
  refine ⟨s.takeWhile isSpacing, s.dropWhile isSpacing, List.takeWhile_append_dropWhile.symm,
    blanks_takeWhile s, fun c hc => ?_⟩
  have h := List.head?_dropWhile_not isSpacing s
  rw [hc] at h
  simpa using h

/-- Every body mentions a name. -/
theorem exists_mentions (hbody : body ≠ []) : ∃ name, Mentions body name := by
  obtain ⟨before, core, rfl, hbefore, hhead⟩ := exists_blanks_append body
  by_cases hcore : core = []
  · -- only blanks: the last of them is the name
    subst hcore
    rw [List.append_nil] at hbody ⊢
    obtain ⟨init, c, rfl⟩ := (List.eq_nil_or_concat before).resolve_left hbody
    rw [List.concat_eq_append] at hbefore ⊢
    exact ⟨[c], .blank (fun d hd => hbefore d (by simp [hd])) (hbefore c (by simp))⟩
  · -- the blanks behind the name are the first ones of the reversed text
    obtain ⟨after, name, hname, hafter, hlast⟩ := exists_blanks_append core.reverse
    have heq : core = name.reverse ++ after.reverse := by
      rw [← List.reverse_append, ← hname, List.reverse_reverse]
    obtain ⟨c, u, hu⟩ := List.exists_cons_of_ne_nil hcore
    have hc : isSpacing c = false := hhead c (by rw [hu]; rfl)
    have hne : name.reverse ≠ [] := by
      intro hnil
      rw [hnil, List.nil_append] at heq
      have hmem : c ∈ after.reverse := by
        rw [← heq, hu]
        exact .head _
      exact Bool.false_ne_true (hc.symm.trans (hafter c (List.mem_reverse.1 hmem)))
    have hbare : Bare name.reverse := by
      refine ⟨hne, fun d hd => ?_, fun d hd => ?_⟩
      · apply hhead d
        rw [heq, List.head?_append_of_ne_nil _ hne]
        exact hd
      · apply hlast d
        rwa [List.getLast?_reverse] at hd
    refine ⟨name.reverse, ?_⟩
    rw [heq, ← List.append_assoc]
    exact .bare hbefore hbare fun d hd => hafter d (List.mem_reverse.1 hd)

theorem Mentions.ne_nil (h : Mentions body name) : body ≠ [] := by
  cases h with
  | bare hbefore hname hafter => simp [hname.ne_nil]
  | blank hbefore hc => simp

/-! ## Placeholders -/

theorem placeholder?_eq_some_iff :
    placeholder? s = some (body, rest) ↔
      s = braced body ++ rest ∧ body ≠ [] ∧ ∀ c ∈ body, isBodyChar c = true := by
  constructor
  · intro h
    refine ⟨placeholder?_eq h, ?_⟩
    unfold placeholder? at h
    split at h
    · split at h
      · split at h
        · cases h
        · rename_i hne
          cases h
          refine ⟨by simpa using hne, fun c hc => List.mem_takeWhile_imp hc⟩
      · cases h
    · cases h
  · rintro ⟨rfl, hne, hbody⟩
    have hclose : ∀ c ∈ ('\x7d' :: '\x7d' :: rest).head?, isBodyChar c = false := by
      rintro _ ⟨⟩
      decide
    have htake := takeWhile_append_of_stop hbody hclose
    have hdrop := dropWhile_append_of_stop hbody hclose
    simp [placeholder?, braced, htake, hdrop, hne]

/-- A placeholder is read as what stands between its braces. -/
theorem placeholder?_of_isPlaceholder (h : IsPlaceholder text n) (rest : List Char) :
    ∃ body, text = braced body ∧ nameOf body = n ∧ placeholder? (text ++ rest) = some (body, rest) := by
  obtain ⟨body, name, rfl, hbody, hname, rfl⟩ := h
  exact ⟨body, rfl, nameOf_of_mentions hname, placeholder?_eq_some_iff.2 ⟨rfl, hname.ne_nil, hbody⟩⟩

/-- What is read as a placeholder is one. -/
theorem isPlaceholder_of_placeholder? (h : placeholder? s = some (body, rest)) :
    IsPlaceholder (braced body) (nameOf body) := by
  obtain ⟨-, hne, hbody⟩ := placeholder?_eq_some_iff.1 h
  obtain ⟨name, hname⟩ := exists_mentions hne
  exact ⟨body, name, rfl, hbody, hname, nameOf_of_mentions hname⟩

theorem not_mem_braced (hbody : ∀ c ∈ body, isBodyChar c = true) : '\n' ∉ braced body := by
  have hnot : '\n' ∉ body := fun h => absurd (hbody _ h) (by decide)
  simp [braced, hnot]

theorem placeholder?_cons_of_ne (hc : c ≠ '\x7b') (s : List Char) : placeholder? (c :: s) = none := by
  unfold placeholder?
  split
  · rename_i heq
    exact absurd (List.cons.inj heq).1 hc
  · rfl

/-! ## Conditional lines -/

/-- The ends of a line: nothing, a newline, or a carriage return and a newline. -/
def IsLineEnd (ending : List Char) : Prop :=
  ending = [] ∨ ending = ['\n'] ∨ ending = ['\r', '\n']

/-- A line of blanks, one placeholder, blanks and a line end. -/
def IsConditional (line indent : List Char) (n : String) (trail : List Char) : Prop :=
  ∃ text blanks ending, Blanks indent ∧ IsPlaceholder text n ∧ Blanks blanks ∧ IsLineEnd ending ∧
    trail = blanks ++ ending ∧ line = indent ++ text ++ trail

/-- A line with what follows it: it goes up to its first newline, or to the end of the text. -/
inductive IsLine : List Char → List Char → Prop
  /-- a line with its newline -/
  | ended {s rest : List Char} (hs : '\n' ∉ s) : IsLine (s ++ ['\n']) rest
  /-- the rest of the text -/
  | last {s : List Char} (hs : '\n' ∉ s) : IsLine s []

/-- A text has one first line. -/
theorem IsLine.unique {line other : List Char} (h : IsLine line s) (hother : IsLine other t)
    (heq : line ++ s = other ++ t) : line = other ∧ s = t := by
  have hne {u : List Char} (hu : '\n' ∉ u) : ∀ c ∈ u, ¬ c = '\n' :=
    fun c hc hnewline => hu (hnewline ▸ hc)
  cases h with
  | @ended u s hu =>
    cases hother with
    | @ended w t hw =>
      rw [List.append_assoc, List.append_assoc] at heq
      obtain ⟨rfl, -, rfl⟩ := append_cons_inj_of_first heq (hne hu) (hne hw) rfl rfl
      exact ⟨rfl, rfl⟩
    | last hother =>
      rw [List.append_nil] at heq
      exact absurd (heq ▸ by simp) hother
  | last hu =>
    cases hother with
    | ended hw =>
      rw [List.append_nil] at heq
      exact absurd (heq ▸ by simp) hu
    | last hw => exact ⟨by simpa using heq, rfl⟩

/-- Nothing of a line follows its newline. -/
theorem IsLine.tail_eq_nil (h : IsLine ('\n' :: s) rest) : s = [] := by
  generalize hline : '\n' :: s = line at h
  cases h with
  | @ended u rest hu =>
    cases u with
    | nil => exact (List.cons.inj hline).2
    | cons c u => exact absurd ((List.cons.inj hline).1 ▸ .head _) hu
  | last hs => exact absurd (hline ▸ .head _) hs

/-- What stands before a line's newline can be left out. -/
theorem IsLine.of_append {u : List Char} (h : IsLine (u ++ s) rest) (hu : '\n' ∉ u) :
    IsLine s rest := by
  generalize hline : u ++ s = line at h
  cases h with
  | @ended w rest hw =>
    rcases s.eq_nil_or_concat with rfl | ⟨v, c, rfl⟩
    · rw [List.append_nil] at hline
      exact absurd (hline ▸ by simp) hu
    · rw [List.concat_eq_append, ← List.append_assoc] at hline
      obtain ⟨hv, hc⟩ := List.append_inj' hline rfl
      obtain rfl := List.singleton_inj.1 hc
      rw [List.concat_eq_append]
      exact .ended fun hmem => hw (hv ▸ List.mem_append_right _ hmem)
  | last hw => exact .last fun hmem => hw (hline ▸ List.mem_append_right _ hmem)

/-- Nothing follows a line without a newline. -/
theorem IsLine.eq_nil {line : List Char} (h : IsLine line rest) (hline : '\n' ∉ line) :
    rest = [] := by
  cases h with
  | ended hs => simp at hline
  | last hs => rfl

theorem not_mem_blanks (h : Blanks s) : '\n' ∉ s :=
  fun hmem => absurd (h _ hmem) (by decide)

theorem IsPlaceholder.not_mem (h : IsPlaceholder text n) : '\n' ∉ text := by
  obtain ⟨body, -, rfl, hbody, -⟩ := h
  exact not_mem_braced hbody

theorem IsPlaceholder.ne_nil (h : IsPlaceholder text n) : text ≠ [] := by
  obtain ⟨body, -, rfl, -⟩ := h
  exact List.cons_ne_nil _ _

theorem IsPlaceholder.head? (h : IsPlaceholder text n) : text.head? = some '\x7b' := by
  obtain ⟨body, -, rfl, -⟩ := h
  rfl

/-- The end of a line with what follows it. -/
theorem lineEnd?_eq_some_iff {ending : List Char} :
    lineEnd? s = some (ending, rest) ↔
      s = ending ++ rest ∧ IsLineEnd ending ∧ (ending = [] → rest = []) := by
  constructor
  · intro h
    refine ⟨lineEnd?_eq h, ?_⟩
    unfold lineEnd? at h
    split at h <;> cases h <;> simp [IsLineEnd]
  · rintro ⟨rfl, rfl | rfl | rfl, hrest⟩
    · rw [hrest rfl]
      rfl
    · rfl
    · rfl

/-- The parts of a conditional line that was read. -/
theorem parts_of_conditionalLine? (h : conditionalLine? s = some (l, rest)) :
    Blanks l.indent ∧ IsPlaceholder (braced l.body) (nameOf l.body) ∧
      ∃ blanks ending, Blanks blanks ∧ IsLineEnd ending ∧ l.trail = blanks ++ ending ∧
        (ending = [] → rest = []) := by
  unfold conditionalLine? at h
  simp only at h
  split at h
  · cases h
  rename_i body after hplaceholder
  split at h
  · cases h
  rename_i ending rest' hend
  cases h
  obtain ⟨-, hending, hrest⟩ := lineEnd?_eq_some_iff.1 hend
  exact ⟨blanks_takeWhile s, isPlaceholder_of_placeholder? hplaceholder, _, _, blanks_takeWhile after,
    hending, rfl, hrest⟩

/-- A line end ends a line. -/
theorem IsLineEnd.isLine {ending : List Char} (h : IsLineEnd ending) (hs : '\n' ∉ s)
    (hrest : ending = [] → rest = []) : IsLine (s ++ ending) rest := by
  rcases h with rfl | rfl | rfl
  · rw [hrest rfl, List.append_nil]
    exact .last hs
  · exact .ended hs
  · have hline : IsLine (s ++ ['\r'] ++ ['\n']) rest := .ended (by simpa using hs)
    rwa [List.append_assoc] at hline

theorem not_mem_before_lineEnd {blanks : List Char} (hindent : Blanks indent)
    (htext : IsPlaceholder text n) (hblanks : Blanks blanks) : '\n' ∉ indent ++ text ++ blanks := by
  simp only [List.mem_append, not_or]
  exact ⟨⟨not_mem_blanks hindent, htext.not_mem⟩, not_mem_blanks hblanks⟩

/-- **What is read as a conditional line** is one, and the first line of the text. -/
theorem isConditional_of_conditionalLine? (h : conditionalLine? s = some (l, rest)) :
    IsConditional l.chars l.indent (nameOf l.body) l.trail ∧ IsLine l.chars rest := by
  obtain ⟨hindent, htoken, blanks, ending, hblanks, hending, htrail, hrest⟩ :=
    parts_of_conditionalLine? h
  refine ⟨⟨_, blanks, ending, hindent, htoken, hblanks, hending, htrail, rfl⟩, ?_⟩
  rw [ConditionalLine.chars, htrail, ← List.append_assoc]
  exact hending.isLine (not_mem_before_lineEnd hindent htoken hblanks) hrest

/-- **A conditional line at the start of a text** is read as one. -/
theorem conditionalLine?_of_isConditional {line : List Char} (hline : IsLine line rest)
    (h : IsConditional line indent n trail) :
    ∃ body, nameOf body = n ∧ conditionalLine? (line ++ rest) = some (⟨indent, body, trail⟩, rest) := by
  obtain ⟨text, blanks, ending, hindent, htoken, hblanks, hending, rfl, rfl⟩ := h
  have hrest : ending = [] → rest = [] := by
    rintro rfl
    apply hline.eq_nil
    rw [List.append_nil]
    exact not_mem_before_lineEnd hindent htoken hblanks
  have hend : lineEnd? (ending ++ rest) = some (ending, rest) :=
    lineEnd?_eq_some_iff.2 ⟨rfl, hending, hrest⟩
  have hendHead : ∀ c ∈ (ending ++ rest).head?, isSpacing c = false := by
    intro c hc
    rcases hending with rfl | rfl | rfl
    · rw [hrest rfl] at hc
      cases hc
    · cases hc
      rfl
    · cases hc
      rfl
  have htextHead : ∀ after, ∀ c ∈ (text ++ after).head?, isSpacing c = false := by
    intro after c hc
    rw [List.head?_append, htoken.head?] at hc
    cases hc
    rfl
  obtain ⟨body, rfl, hname, hread⟩ := placeholder?_of_isPlaceholder htoken (blanks ++ (ending ++ rest))
  refine ⟨body, hname, ?_⟩
  simp only [conditionalLine?, List.append_assoc]
  rw [takeWhile_append_of_stop hindent (htextHead _), dropWhile_append_of_stop hindent (htextHead _),
    hread]
  simp only
  rw [takeWhile_append_of_stop hblanks hendHead, dropWhile_append_of_stop hblanks hendHead, hend]

/-! ## Steps of the scan -/

/-- One step of the scan. -/
theorem renderFrom_eq (ctx : Context) (lineStart : Bool) (s : List Char) :
    renderFrom ctx lineStart s =
      match if lineStart then conditionalLine? s else none with
      | some (line, rest) => lineText ctx line ++ renderFrom ctx true rest
      | none =>
        match placeholder? s with
        | some (body, rest) => inlineText ctx body ++ renderFrom ctx false rest
        | none =>
          match s with
          | [] => []
          | c :: rest => c :: renderFrom ctx (c == '\n') rest := by
  rw [renderFrom]
  split
  · rename_i hline
    simp only [hline]
  · rename_i hline
    simp only [hline]
    split
    · rename_i hplaceholder
      simp only [hplaceholder]
    · rename_i hplaceholder
      simp only [hplaceholder]
      cases s <;> rfl

theorem renderFrom_nil (ctx : Context) (lineStart : Bool) : renderFrom ctx lineStart [] = [] := by
  cases lineStart <;> rw [renderFrom_eq] <;> rfl

theorem renderFrom_of_conditionalLine? (h : conditionalLine? s = some (l, rest)) :
    renderFrom ctx true s = lineText ctx l ++ renderFrom ctx true rest := by
  rw [renderFrom_eq, if_pos rfl, h]

/-- Where no conditional line begins, the start of a line is a place like any other. -/
theorem renderFrom_true (h : conditionalLine? s = none) :
    renderFrom ctx true s = renderFrom ctx false s := by
  rw [renderFrom_eq, if_pos rfl, h, renderFrom_eq ctx false, if_neg Bool.false_ne_true]

theorem renderFrom_of_placeholder? {lineStart : Bool}
    (hline : (if lineStart then conditionalLine? s else none) = none)
    (h : placeholder? s = some (body, rest)) :
    renderFrom ctx lineStart s = inlineText ctx body ++ renderFrom ctx false rest := by
  rw [renderFrom_eq, hline, h]

theorem renderFrom_cons {lineStart : Bool}
    (hline : (if lineStart then conditionalLine? (c :: s) else none) = none)
    (h : placeholder? (c :: s) = none) :
    renderFrom ctx lineStart (c :: s) = c :: renderFrom ctx (c == '\n') s := by
  rw [renderFrom_eq, hline, h]

end Scaffold.Template
