import Scaffold.Proofs.Template.Names
import Scaffold.Proofs.Template.Lines
import Scaffold.Proofs.Text.Pattern

/-!
# Templates as search patterns

Rendering and listing names are searches for two patterns, with repetitions that give back what they
have read. The recognisers of a template find the same without going back.

* **A placeholder** is read in one way, whichever blanks are given back: the name begins behind the
  blanks unless there is nothing else.
* **A line** is tried first where one starts. If it cannot be read, the placeholder can still be.
-/

namespace Scaffold.Template

open Text Pattern

/-! ## The patterns -/

/-- A placeholder whose name is remembered. -/
def placeholderPattern (group : String) : Pattern :=
  seqs [literal ['\x7b', '\x7b'], .most isSpacing,
    .group group (seqs [.one isBodyChar, .fewest isBodyChar]), .most isSpacing,
    literal ['\x7d', '\x7d']]

/-- A line end, perhaps with a carriage return, or else the end of a line. -/
def lineEndPattern : Pattern :=
  .alt (seqs [.alt (literal ['\r']) .empty, literal ['\n']]) .lineEnd

/-- A placeholder alone on its line. -/
def linePattern : Pattern :=
  seqs [.lineStart, .group "indent" (.most isSpacing), placeholderPattern "line_name",
    .group "trail" (seqs [.most isSpacing, lineEndPattern])]

/-- What rendering searches for. -/
def renderPattern : Pattern := .alt linePattern (placeholderPattern "name")

/-- What is put in the place of what was found. -/
def replacement (ctx : Context) (m : Found) : List Char :=
  match m.groups.get? "line_name" with
  | some name =>
    match ctx.get? (String.ofList name) with
    | none => []
    | some v =>
      if v.isFalsy then []
      else (m.groups.get? "indent").getD [] ++ v.chars ++ (m.groups.get? "trail").getD []
  | none =>
    match ctx.get? (String.ofList ((m.groups.get? "name").getD [])) with
    | none => m.text
    | some v => if v.isFalsy then [] else v.chars

variable {α : Type} {s t rest body name : List Char} {lineStart : Bool} {l : ConditionalLine}
  {groups : Entries (List Char)} {go : Place → Entries (List Char) → Option α} {x : α}
  {group : String}

/-! ## Placeholders -/

/-- How the pattern goes on behind the name: with blanks and braces. -/
def closing (go : Place → Entries (List Char) → Option α) (groups : Entries (List Char))
    (s : Place) : Option α :=
  readMost isSpacing (fun s => (literal ['\x7d', '\x7d']).read s groups go) s.lineStart s.rest

/-- How the pattern goes on behind the first blanks: with the name. -/
def naming (group : String) (go : Place → Entries (List Char) → Option α)
    (groups : Entries (List Char)) (s : Place) : Option α :=
  match s.rest with
  | [] => none
  | c :: rest =>
    if isBodyChar c then
      readFewest isBodyChar (fun t => closing go (groups.insert group (s.upTo t)) t)
        (c == '\n') rest
    else none

theorem read_placeholder (s : List Char) :
    (placeholderPattern group).read ⟨lineStart, '\x7b' :: '\x7b' :: s⟩ groups go =
      readMost isSpacing (naming group go groups) false s := rfl

theorem isBodyChar_of_isSpacing {c : Char} (h : isSpacing c = true) : isBodyChar c = true := by
  rw [isSpacing, Bool.or_eq_true, beq_iff_eq, beq_iff_eq] at h
  rcases h with rfl | rfl <;> rfl

theorem exists_of_closing (h : closing go groups ⟨lineStart, s⟩ = some x) :
    ∃ blanks rest, s = blanks ++ '\x7d' :: '\x7d' :: rest ∧ Blanks blanks ∧
      go ⟨false, rest⟩ groups = some x := by
  obtain ⟨blanks, t, rfl, hblanks, h⟩ := exists_of_readMost h
  obtain ⟨rest, rfl, hgo⟩ := exists_of_read_literal h
  exact ⟨blanks, rest, rfl, hblanks, hgo⟩

theorem closing_eq_some (hblanks : Blanks s) (h : go ⟨false, rest⟩ groups = some x) :
    closing go groups ⟨lineStart, s ++ '\x7d' :: '\x7d' :: rest⟩ = some x := by
  refine readMost_of_stop hblanks ?_ ((read_literal_append ['\x7d', '\x7d']).trans h)
  -- a brace is no blank
  rintro _ ⟨⟩
  decide

theorem exists_of_naming (h : naming group go groups ⟨lineStart, s⟩ = some x) :
    ∃ name blanks rest, s = name ++ (blanks ++ '\x7d' :: '\x7d' :: rest) ∧ name ≠ [] ∧
      (∀ c ∈ name, isBodyChar c = true) ∧ Blanks blanks ∧
      go ⟨false, rest⟩ (groups.insert group name) = some x := by
  cases s with
  | nil => cases h
  | cons c s =>
    rw [naming] at h
    simp only at h
    split at h
    · rename_i hc
      obtain ⟨u, t, rfl, hu, h⟩ := exists_of_readFewest h
      obtain ⟨blanks, rest, rfl, hblanks, hgo⟩ := exists_of_closing h
      refine ⟨c :: u, blanks, rest, rfl, List.cons_ne_nil _ _, List.forall_mem_cons.2 ⟨hc, hu⟩,
        hblanks, ?_⟩
      have hupTo : Place.upTo ⟨lineStart, c :: (u ++ (blanks ++ '\x7d' :: '\x7d' :: rest))⟩
          (behind (c == '\n') u (blanks ++ '\x7d' :: '\x7d' :: rest)) = c :: u :=
        Place.upTo_of_eq_append _ rfl
      rwa [hupTo] at hgo
    · cases h

/-- A name is read up to its end if no part of it that is left consists of blanks. -/
theorem naming_eq_some {after : List Char} (hne : name ≠ [])
    (hname : ∀ c ∈ name, isBodyChar c = true)
    (hlast : ∀ u w, name = u ++ w → u ≠ [] → w ≠ [] → ¬ Blanks w) (hafter : Blanks after)
    (h : go ⟨false, rest⟩ (groups.insert group name) = some x) :
    naming group go groups ⟨lineStart, name ++ (after ++ '\x7d' :: '\x7d' :: rest)⟩ = some x := by
  obtain ⟨c, u, rfl⟩ := List.exists_cons_of_ne_nil hne
  obtain ⟨hc, hu⟩ := List.forall_mem_cons.1 hname
  rw [List.cons_append, naming]
  simp only
  rw [if_pos hc]
  refine readFewest_eq_some hu ?_ ?_
  · intro v w hsplit hw
    by_contra hread
    obtain ⟨y, hy⟩ := Option.ne_none_iff_exists'.1 hread
    obtain ⟨blanks, rest', heq, hblanks, -⟩ := exists_of_closing hy
    -- up to the braces there would be nothing but blanks
    have hbrace {text : List Char} (htext : ∀ c ∈ text, isBodyChar c = true) :
        ∀ c ∈ text, ¬ c = '\x7d' := by
      rintro d hd rfl
      exact absurd (htext _ hd) (by decide)
    have hbody : ∀ d ∈ w ++ after, isBodyChar d = true := by
      intro d hd
      rcases List.mem_append.1 hd with hd | hd
      · exact hu d (hsplit ▸ List.mem_append_right _ hd)
      · exact isBodyChar_of_isSpacing (hafter d hd)
    rw [← List.append_assoc] at heq
    obtain ⟨hall, -⟩ := append_cons_inj_of_first heq (hbrace hbody)
      (hbrace fun d hd => isBodyChar_of_isSpacing (hblanks d hd)) rfl rfl
    refine hlast (c :: v) w (congrArg (c :: ·) hsplit) (List.cons_ne_nil _ _) hw fun d hd => ?_
    exact hblanks d (hall ▸ List.mem_append_left _ hd)
  · rw [Place.upTo_of_eq_append (c :: u) rfl]
    exact closing_eq_some hafter h

/-- What the pattern reads is a placeholder. -/
theorem exists_of_read_placeholder
    (h : (placeholderPattern group).read ⟨lineStart, s⟩ groups go = some x) :
    ∃ body rest name, placeholder? s = some (body, rest) ∧
      go ⟨false, rest⟩ (groups.insert group name) = some x := by
  obtain ⟨s₁, rfl, h⟩ := exists_of_read_literal h
  obtain ⟨before, s₂, rfl, hbefore, h⟩ := exists_of_readMost h
  obtain ⟨name, blanks, rest, rfl, hne, hname, hblanks, hgo⟩ := exists_of_naming h
  refine ⟨before ++ name ++ blanks, rest, name, ?_, hgo⟩
  refine placeholder?_eq_some_iff.2 ⟨?_, ?_, ?_⟩
  · simp [braced]
  · simp [hne]
  · intro c hc
    rw [List.mem_append, List.mem_append] at hc
    rcases hc with (hc | hc) | hc
    · exact isBodyChar_of_isSpacing (hbefore c hc)
    · exact hname c hc
    · exact isBodyChar_of_isSpacing (hblanks c hc)

/-- A placeholder is read with its name. -/
theorem read_placeholder_eq_some (h : placeholder? s = some (body, rest))
    (hgo : go ⟨false, rest⟩ (groups.insert group (nameOf body).toList) = some x) :
    (placeholderPattern group).read ⟨lineStart, s⟩ groups go = some x := by
  obtain ⟨rfl, hne, hbody⟩ := placeholder?_eq_some_iff.1 h
  obtain ⟨name, hmentions⟩ := exists_mentions hne
  rw [nameOf_of_mentions hmentions, String.toList_ofList] at hgo
  cases hmentions with
  | @bare before name after hbefore hname hafter =>
    have heq : braced (before ++ name ++ after) ++ rest =
        '\x7b' :: '\x7b' :: (before ++ (name ++ (after ++ '\x7d' :: '\x7d' :: rest))) := by
      simp [braced]
    rw [heq, read_placeholder]
    refine readMost_of_stop hbefore ?_ ?_
    · -- the name does not begin with a blank
      rw [List.head?_append_of_ne_nil _ hname.ne_nil]
      exact hname.head
    · refine naming_eq_some hname.ne_nil ?_ ?_ hafter hgo
      · intro c hc
        exact hbody c (by simp [hc])
      · -- nor does it end with one
        intro u w hsplit _ hw hblanks
        obtain ⟨w, c, rfl⟩ := (List.eq_nil_or_concat w).resolve_left hw
        have hlast := hname.last c (by rw [hsplit]; simp)
        rw [hblanks c (by simp)] at hlast
        cases hlast
  | @blank before c hbefore hc =>
    have heq : braced (before ++ [c]) ++ rest =
        '\x7b' :: '\x7b' :: (before ++ ([c] ++ ([] ++ '\x7d' :: '\x7d' :: rest))) := by
      simp [braced]
    rw [heq, read_placeholder]
    refine readMost_eq_some hbefore ?_ ?_
    · -- without the last blank there is no name
      intro v w hsplit hv hblanks
      obtain ⟨d, v, rfl⟩ := List.exists_cons_of_ne_nil hv
      obtain ⟨rfl, hrest⟩ := List.cons.inj hsplit
      cases v with
      | nil =>
        cases hrest
        rfl
      | cons e v =>
        obtain rfl := (List.cons.inj hrest).1
        exact absurd (hblanks _ (.tail _ (.head _))) (by decide)
    · refine naming_eq_some (List.cons_ne_nil _ _) ?_ ?_ (List.forall_mem_nil _) hgo
      · intro d hd
        exact hbody d (by simp [List.mem_singleton.1 hd])
      · intro u w hsplit hu hw
        have hlength := congrArg List.length hsplit
        have hu' := List.length_pos_iff.2 hu
        have hw' := List.length_pos_iff.2 hw
        rw [List.length_append, List.length_singleton] at hlength
        omega

/-! ## Lines -/

theorem exists_of_lineEnd (h : lineEndPattern.read ⟨lineStart, s⟩ groups go = some x) :
    ∃ ending rest, lineEnd? s = some (ending, rest) := by
  rcases Option.or_eq_some_iff.1 h with h | ⟨-, h⟩
  · rcases Option.or_eq_some_iff.1 h with h | ⟨-, h⟩
    · obtain ⟨t, rfl, hnewline⟩ := exists_of_read_literal h
      obtain ⟨u, rfl, -⟩ := exists_of_read_literal hnewline
      exact ⟨_, _, rfl⟩
    · obtain ⟨t, rfl, -⟩ := exists_of_read_literal h
      exact ⟨_, _, rfl⟩
  · cases s with
    | nil => exact ⟨_, _, rfl⟩
    | cons c s =>
      -- behind the place stands a newline, which is a line end itself
      obtain ⟨hc, -⟩ := Option.ite_none_right_eq_some.1 h
      obtain rfl := eq_of_beq hc
      exact ⟨_, _, rfl⟩

theorem lineEnd_eq_some {ending : List Char} (h : lineEnd? s = some (ending, rest))
    (hgo : go (behind lineStart ending rest) groups = some x) :
    lineEndPattern.read ⟨lineStart, s⟩ groups go = some x := by
  obtain ⟨rfl, rfl | rfl | rfl, hrest⟩ := lineEnd?_eq_some_iff.1 h
  · rw [hrest rfl] at hgo ⊢
    exact hgo
  · have hgo' : go ⟨true, rest⟩ groups = some x := hgo
    simp [lineEndPattern, seqs, literal, Pattern.read, hgo']
  · have hgo' : go ⟨true, rest⟩ groups = some x := hgo
    simp [lineEndPattern, seqs, literal, Pattern.read, hgo']

/-- How the pattern of a line goes on behind the placeholder: with blanks and a line end. -/
def trailing (go : Place → Entries (List Char) → Option α) (s : Place)
    (groups : Entries (List Char)) : Option α :=
  readMost isSpacing
    (fun t => lineEndPattern.read t groups fun t groups => go t (groups.insert "trail" (s.upTo t)))
    s.lineStart s.rest

theorem read_line (s : List Char) :
    linePattern.read ⟨true, s⟩ groups go =
      readMost isSpacing
        (fun t => (placeholderPattern "line_name").read t
          (groups.insert "indent" (Place.upTo ⟨true, s⟩ t)) (trailing go)) true s := rfl

theorem exists_of_trailing (h : trailing go ⟨lineStart, s⟩ groups = some x) :
    ∃ blanks ending rest, s = blanks ++ (ending ++ rest) ∧ Blanks blanks ∧ IsLineEnd ending ∧
      (ending = [] → rest = []) := by
  obtain ⟨blanks, t, rfl, hblanks, hend⟩ := exists_of_readMost h
  obtain ⟨ending, rest, hread⟩ := exists_of_lineEnd hend
  obtain ⟨rfl, hending, hrest⟩ := lineEnd?_eq_some_iff.1 hread
  exact ⟨blanks, ending, rest, rfl, hblanks, hending, hrest⟩

theorem trailing_eq_some {blanks ending : List Char} (hblanks : Blanks blanks)
    (h : lineEnd? t = some (ending, rest))
    (hgo : go (behind lineStart (blanks ++ ending) rest)
      (groups.insert "trail" (blanks ++ ending)) = some x) :
    trailing go ⟨lineStart, blanks ++ t⟩ groups = some x := by
  obtain ⟨rfl, hending, hrest⟩ := lineEnd?_eq_some_iff.1 h
  refine readMost_of_stop hblanks ?_ ?_
  · -- a line end does not begin with a blank
    rcases hending with rfl | rfl | rfl
    · simp [hrest rfl]
    · rintro _ ⟨⟩
      rfl
    · rintro _ ⟨⟩
      rfl
  · refine lineEnd_eq_some h ?_
    rw [Place.upTo_of_eq_append (blanks ++ ending) (by simp [behind])]
    rwa [behind_append] at hgo

/-- What the pattern of a line reads is a conditional line. -/
theorem exists_of_read_line (h : linePattern.read ⟨lineStart, s⟩ groups go = some x) :
    lineStart = true ∧ conditionalLine? s ≠ none := by
  cases lineStart with
  | false => cases h
  | true =>
    refine ⟨rfl, ?_⟩
    rw [read_line] at h
    obtain ⟨indent, t, rfl, hindent, hread⟩ := exists_of_readMost h
    obtain ⟨body, after, name, hplaceholder, htrail⟩ := exists_of_read_placeholder hread
    obtain ⟨blanks, ending, rest, rfl, hblanks, hending, hrest⟩ := exists_of_trailing htrail
    have htoken := isPlaceholder_of_placeholder? hplaceholder
    have hline : IsLine (indent ++ braced body ++ blanks ++ ending) rest :=
      hending.isLine (not_mem_before_lineEnd hindent htoken hblanks) hrest
    obtain ⟨body', -, hline⟩ := conditionalLine?_of_isConditional hline
      ⟨_, blanks, ending, hindent, htoken, hblanks, hending, rfl, List.append_assoc _ _ _⟩
    have heq : indent ++ t = indent ++ braced body ++ blanks ++ ending ++ rest := by
      simp [placeholder?_eq hplaceholder]
    rw [heq, hline]
    nofun

/-- A conditional line is read with its parts; behind it a line starts, or nothing follows. -/
theorem exists_read_line (h : conditionalLine? s = some (l, rest)) :
    ∃ b, (b = true ∨ rest = []) ∧ ∀ {groups} {go : Place → Entries (List Char) → Option α} {x},
      go ⟨b, rest⟩ (((groups.insert "indent" l.indent).insert "line_name"
        (nameOf l.body).toList).insert "trail" l.trail) = some x →
      linePattern.read ⟨true, s⟩ groups go = some x := by
  obtain ⟨hindent, htoken, blanks, ending, hblanks, hending, htrail, hrest⟩ :=
    parts_of_conditionalLine? h
  refine ⟨(behind false (blanks ++ ending) rest).lineStart, ?_, ?_⟩
  · rcases hending with rfl | rfl | rfl
    · exact .inr (hrest rfl)
    · left
      simp [behind]
    · left
      simp [behind]
  · intro groups go x hgo
    obtain ⟨body, hbody, -, hread⟩ :=
      placeholder?_of_isPlaceholder htoken (blanks ++ (ending ++ rest))
    obtain rfl : l.body = body := by simpa [braced] using hbody
    have heq : s = l.indent ++ (braced l.body ++ (blanks ++ (ending ++ rest))) := by
      rw [conditionalLine?_eq h, ConditionalLine.chars, htrail]
      simp
    rw [heq, read_line]
    refine readMost_of_stop hindent ?_ ?_
    · -- a brace is no blank
      rintro _ ⟨⟩
      rfl
    · refine read_placeholder_eq_some hread ?_
      rw [Place.upTo_of_eq_append l.indent rfl]
      refine trailing_eq_some hblanks (lineEnd?_eq_some_iff.2 ⟨rfl, hending, hrest⟩) ?_
      rw [← htrail] at hgo ⊢
      exact hgo

/-! ## Searches -/

/-- What becomes of a stretch of a template. -/
def stretchText (ctx : Context) : Stretch → List Char
  | .found m => replacement ctx m
  | .plain c => [c]

/-- The name that was found in a stretch of a template, if one was. -/
def stretchName? : Stretch → Option String
  | .found m => (m.groups.get? "name").map String.ofList
  | .plain _ => none

theorem renderPattern_of_conditionalLine? (h : conditionalLine? s = some (l, rest)) :
    ∃ m, renderPattern.at? ⟨true, s⟩ = some m ∧ m.text = l.chars ∧ m.after.rest = rest ∧
      (m.after.lineStart = true ∨ rest = []) ∧ ∀ ctx, replacement ctx m = lineText ctx l := by
  obtain ⟨b, hb, hread⟩ := exists_read_line (α := Found) h
  refine ⟨_, Option.or_eq_some_iff.2 (.inl (hread rfl)), ?_, rfl, hb, fun ctx => ?_⟩
  · exact Place.upTo_of_eq_append _ (conditionalLine?_eq h)
  · simp only [replacement, Entries.get?_insert, lineText_eq]
    cases hn : ctx.get? (nameOf l.body) <;> simp [hn]

theorem replacement_placeholder (ctx : Context) (body rest : List Char) :
    replacement ctx ⟨braced body, [("name", (nameOf body).toList)], ⟨false, rest⟩⟩ =
      inlineText ctx body := by
  rw [inlineText_eq rfl]
  simp only [replacement, Entries.get?]
  cases hn : ctx.get? (nameOf body) <;> simp [hn]

/-- Where the pattern of a line is not read, the placeholder is. -/
theorem renderPattern_eq (hline : (if lineStart then conditionalLine? s else none) = none) :
    renderPattern.at? ⟨lineStart, s⟩ = (placeholderPattern "name").at? ⟨lineStart, s⟩ := by
  have hnone {go : Place → Entries (List Char) → Option Found} :
      linePattern.read ⟨lineStart, s⟩ [] go = none := by
    by_contra hread
    obtain ⟨m, hm⟩ := Option.ne_none_iff_exists'.1 hread
    obtain ⟨rfl, hne⟩ := exists_of_read_line hm
    exact hne hline
  rw [at?, renderPattern, Pattern.read, hnone, Option.none_or]
  rfl

theorem placeholderPattern_of_placeholder? (group : String) (lineStart : Bool)
    (h : placeholder? s = some (body, rest)) :
    (placeholderPattern group).at? ⟨lineStart, s⟩ =
      some ⟨braced body, [(group, (nameOf body).toList)], ⟨false, rest⟩⟩ := by
  refine read_placeholder_eq_some h ?_
  rw [Place.upTo_of_eq_append _ (placeholder?_eq h)]
  rfl

theorem placeholderPattern_eq_none (group : String) (lineStart : Bool) (h : placeholder? s = none) :
    (placeholderPattern group).at? ⟨lineStart, s⟩ = none := by
  by_contra hread
  obtain ⟨m, hm⟩ := Option.ne_none_iff_exists'.1 hread
  obtain ⟨body, rest, name, hplaceholder, -⟩ := exists_of_read_placeholder hm
  rw [h] at hplaceholder
  cases hplaceholder

/-- Nothing is found at the end of a template. -/
theorem cut_nil (lineStart : Bool) : Cut renderPattern ⟨lineStart, []⟩ [] := by
  have hline : (if lineStart then conditionalLine? [] else none) = none := by
    cases lineStart <;> rfl
  refine .done ?_
  rw [renderPattern_eq hline]
  exact placeholderPattern_eq_none _ _ rfl

/-- The search that renders finds the lines and placeholders that the scan does. -/
theorem exists_cut_renderPattern (lineStart : Bool) (s : List Char) :
    ∃ pieces, Cut renderPattern ⟨lineStart, s⟩ pieces ∧
      ∀ ctx, renderFrom ctx lineStart s = pieces.flatMap (stretchText ctx) := by
  induction lineStart, s using renderFrom.induct with
  | case1 lineStart s l rest hline ih =>
    obtain ⟨pieces, hcut, htext⟩ := ih
    cases lineStart with
    | false => cases hline
    | true =>
      rw [dif_pos rfl] at hline
      obtain ⟨m, hm, hmtext, hafter, hstart, hreplacement⟩ :=
        renderPattern_of_conditionalLine? hline
      have hne : m.text ≠ [] := by
        rw [hmtext]
        simp [ConditionalLine.chars, braced]
      have hcut' : Cut renderPattern m.after pieces := by
        obtain ⟨_, _, b, after⟩ := m
        obtain rfl : after = rest := hafter
        rcases hstart with rfl | rfl
        · exact hcut
        · -- at the end it does not matter whether a line starts
          rw [hcut.unique (cut_nil true)]
          exact cut_nil b
      refine ⟨.found m :: pieces, .found hm hne hcut', fun ctx => ?_⟩
      rw [renderFrom_of_conditionalLine? hline, htext, List.flatMap_cons, stretchText, hreplacement]
  | case2 lineStart s hline body rest hplaceholder ih =>
    obtain ⟨pieces, hcut, htext⟩ := ih
    have hm := placeholderPattern_of_placeholder? "name" lineStart hplaceholder
    rw [← renderPattern_eq hline] at hm
    refine ⟨.found _ :: pieces, .found hm (List.cons_ne_nil _ _) hcut, fun ctx => ?_⟩
    rw [renderFrom_of_placeholder? hline hplaceholder, htext, List.flatMap_cons, stretchText,
      replacement_placeholder]
  | case3 lineStart hline hplaceholder =>
    have hnone := placeholderPattern_eq_none "name" lineStart hplaceholder
    rw [← renderPattern_eq hline] at hnone
    exact ⟨[], .done hnone, fun ctx => renderFrom_nil ctx _⟩
  | case4 lineStart c rest hline hplaceholder ih =>
    obtain ⟨pieces, hcut, htext⟩ := ih
    have hnone := placeholderPattern_eq_none "name" lineStart hplaceholder
    rw [← renderPattern_eq hline] at hnone
    refine ⟨.plain c :: pieces, .plain hnone hcut, fun ctx => ?_⟩
    rw [renderFrom_cons hline hplaceholder, htext]
    rfl

/-- **Rendering is a search** for lines and placeholders, and a replacement of what was found. -/
theorem render_eq_search (template : String) :
    ∃ pieces, Cut renderPattern ⟨true, template.toList⟩ pieces ∧
      ∀ ctx, (render ctx template).toList = pieces.flatMap (stretchText ctx) := by
  obtain ⟨pieces, hcut, htext⟩ := exists_cut_renderPattern true template.toList
  exact ⟨pieces, hcut, fun ctx => by rw [render, String.toList_ofList, renderChars, htext]⟩

theorem exists_cut_placeholderPattern (lineStart : Bool) (s : List Char) :
    ∃ pieces, Cut (placeholderPattern "name") ⟨lineStart, s⟩ pieces ∧
      (bodies s).map nameOf = pieces.filterMap stretchName? := by
  induction s using bodies.induct generalizing lineStart with
  | case1 s body rest hplaceholder ih =>
    obtain ⟨pieces, hcut, hnames⟩ := ih false
    refine ⟨.found _ :: pieces, .found (placeholderPattern_of_placeholder? _ _ hplaceholder)
      (List.cons_ne_nil _ _) hcut, ?_⟩
    rw [bodies_of_placeholder? hplaceholder, List.map_cons, hnames]
    simp [stretchName?, Entries.get?]
  | case2 hplaceholder =>
    exact ⟨[], .done (placeholderPattern_eq_none _ _ hplaceholder), by rw [bodies_nil]; rfl⟩
  | case3 c rest hplaceholder ih =>
    obtain ⟨pieces, hcut, hnames⟩ := ih (c == '\n')
    refine ⟨.plain c :: pieces, .plain (placeholderPattern_eq_none _ _ hplaceholder) hcut, ?_⟩
    rw [bodies_cons hplaceholder, hnames]
    rfl

/-- **The names of a template** are those that a search for placeholders finds. -/
theorem names_eq_search (template : String) :
    ∃ pieces, Cut (placeholderPattern "name") ⟨true, template.toList⟩ pieces ∧
      ∀ n, n ∈ names template ↔ ∃ piece ∈ pieces, stretchName? piece = some n := by
  obtain ⟨pieces, hcut, hnames⟩ := exists_cut_placeholderPattern true template.toList
  refine ⟨pieces, hcut, fun n => ?_⟩
  rw [mem_names_iff, ← List.mem_map, hnames, List.mem_filterMap]

end Scaffold.Template
