import Scaffold.BuildConfig
import Scaffold.Proofs.Lists
import Scaffold.Proofs.Text.Lines
import Mathlib.Data.List.TakeWhile

/-!
# Insertions into the build configuration

What a patch to the build configuration looks for, and what it leaves of the text.

* **What was inserted is found again.** The lines of an import, the call of a plugin and the marker
  of a block are there afterwards, and a patch that finds them changes nothing.
* **What was there is still found.** Every insertion keeps the lines of the text, as far as they have
  no bracket, and those at a line break keep all words of a line.
-/

namespace Scaffold.BuildConfig

open Text

variable {content text call block marker : String} {lines : List String}
  {l s before after head gap w : List Char}

/-! ## Imports -/

theorem importLine?_eq_some (h : importLine? s = some (before, after)) :
    s = before ++ after ∧ (after = [] ∨ ∃ rest, after = '\n' :: rest) := by
  unfold importLine? at h
  split at h
  · rename_i c rest hword
    split at h
    · cases h
      rw [literal?_eq_some] at hword
      refine ⟨?_, dropWhile_newline rest⟩
      rw [hword, List.append_assoc, List.cons_append, List.takeWhile_append_dropWhile]
    · cases h
  · cases h

theorem importLine?_of_lineStart {lineStart : Bool}
    (h : (if lineStart then importLine? s else none) = some (before, after)) :
    s = before ++ after ∧ (after = [] ∨ ∃ rest, after = '\n' :: rest) := by
  split at h
  · exact importLine?_eq_some h
  · cases h

/-- The import lines end at a newline or at the end of the text. -/
theorem splitAfterImports?_eq_some {lineStart : Bool}
    (h : splitAfterImports? lineStart s = some (before, after)) :
    s = before ++ after ∧ (after = [] ∨ ∃ rest, after = '\n' :: rest) := by
  fun_induction splitAfterImports? lineStart s generalizing before after with
  | case1 lineStart s line rest himport hlt before' after' hmore ih =>
    cases h
    obtain ⟨hrest, hafter⟩ := ih hmore
    obtain ⟨hs, -⟩ := importLine?_of_lineStart himport
    exact ⟨by rw [hs, hrest, List.append_assoc], hafter⟩
  | case2 lineStart s line rest himport hlt hmore ih =>
    cases h
    exact importLine?_of_lineStart himport
  | case3 lineStart s line rest himport hlt => cases h
  | case4 lineStart himport => cases h
  | case5 lineStart c rest himport ih =>
    obtain ⟨⟨before', after'⟩, hmore, heq⟩ := Option.map_eq_some_iff.1 h
    cases heq
    obtain ⟨hrest, hafter⟩ := ih hmore
    exact ⟨by rw [hrest, List.cons_append], hafter⟩

/-- An insertion before a line break, or after one. -/
inductive Inserted (s text : List Char) : Prop where
  /-- nothing is inserted -/
  | none : text = s → Inserted s text
  /-- what is inserted begins with a newline and stands before one, or at the end of the text -/
  | before (p x q : List Char) : s = p ++ q → text = p ++ ('\n' :: x ++ q) →
      (q = [] ∨ ∃ rest, q = '\n' :: rest) → Inserted s text
  /-- what is inserted ends with a newline and stands after one -/
  | after (p x q : List Char) : s = p ++ '\n' :: q → text = p ++ '\n' :: (x ++ q) →
      EndsLine x → Inserted s text

/-- An insertion keeps the lines of the text. -/
theorem Inserted.isLine {text : List Char} (h : Inserted s text) (hne : l ≠ [])
    (hl : IsLine l s) : IsLine l text := by
  cases h with
  | none h => rwa [h]
  | before p x q hs htext hq =>
    rw [hs] at hl
    rw [htext]
    refine hl.insert_before hne (beginsBreak_cons.2 (by decide)) ?_
    rcases hq with rfl | ⟨rest, rfl⟩
    · exact beginsBreak_nil
    · exact beginsBreak_cons.2 (by decide)
  | after p x q hs htext hx =>
    have hs' : s = (p ++ ['\n']) ++ q := by simp [hs]
    have htext' : text = (p ++ ['\n']) ++ (x ++ q) := by simp [htext]
    rw [hs'] at hl
    rw [htext']
    exact hl.insert_after hne (endsLine_concat.2 (by decide)) hx

/-- An insertion keeps the words of a line. -/
theorem Inserted.contains {text : List Char} (h : Inserted s text) (hw : '\n' ∉ w) (hin : w <:+: s) :
    w <:+: text := by
  cases h with
  | none h => rwa [h]
  | before p x q hs htext hq =>
    have hcases : w <:+: p ∨ w <:+: q := by
      rw [hs] at hin
      rcases hq with rfl | ⟨rest, rfl⟩
      · exact .inl (by simpa using hin)
      · exact (infix_append_cons hw hin).imp_right fun h => h.trans (List.suffix_cons _ _).isInfix
    rw [htext]
    rcases hcases with hp | hq
    · exact hp.trans (List.prefix_append _ _).isInfix
    · exact hq.trans ((List.suffix_append _ _).trans (List.suffix_append _ _)).isInfix
  | after p x q hs htext hx =>
    rw [hs] at hin
    rw [htext]
    rcases infix_append_cons hw hin with hp | hq
    · exact hp.trans (List.prefix_append _ _).isInfix
    · refine hq.trans (List.IsSuffix.isInfix ?_)
      exact ((List.suffix_append x q).trans (List.suffix_cons _ _)).trans (List.suffix_append _ _)

/-- A line that is found again: it is not empty, and has no line break in it. -/
def Findable (line : String) : Prop :=
  line.toList ≠ [] ∧ ∀ c ∈ line.toList, isLineBreak c = false

instance (line : String) : Decidable (Findable line) := inferInstanceAs (Decidable (_ ∧ _))

/-- The lines that are missing in the text. -/
def missing (content : String) (lines : List String) : List String :=
  lines.filter fun line => !(breakLines content.toList).contains line.toList

/-- The lines that are missing in the text, each behind a newline. -/
def insertion (content : String) (lines : List String) : List Char :=
  (missing content lines).flatMap fun line => '\n' :: line.toList

theorem mem_missing_iff {line : String} :
    line ∈ missing content lines ↔ line ∈ lines ∧ line.toList ∉ breakLines content.toList := by
  rw [missing, List.mem_filter]
  simp

theorem insertion_eq (content : String) (lines : List String) :
    insertion content lines = ((missing content lines).map String.toList).flatMap ('\n' :: ·) := by
  rw [List.flatMap_map]
  rfl

theorem insertImports_of_nothing_missing (h : missing content lines = []) :
    insertImports content lines = .ok content := by
  unfold insertImports
  change (if (missing content lines).isEmpty then _ else _) = _
  rw [h]
  rfl

/-- Behind the last import line, or nowhere. -/
theorem insertImports_eq (h : missing content lines ≠ []) :
    insertImports content lines =
      match splitAfterImports? true content.toList with
      | none => .error ⟨importPattern, 0⟩
      | some (before, rest) => .ok (String.ofList (before ++ (insertion content lines ++ rest))) := by
  have hnewline : "\n".toList = ['\n'] := rfl
  have hne : (missing content lines).map String.toList ≠ [] := by simpa using h
  unfold insertImports
  change (if (missing content lines).isEmpty then _ else _) = _
  rw [if_neg (by simpa using h)]
  cases splitAfterImports? true content.toList with
  | none => rfl
  | some found =>
    obtain ⟨before, rest⟩ := found
    refine congrArg _ (String.toList_injective ?_)
    rw [insertion_eq, ← cons_intercalate hne]
    change (String.ofList before ++ "\n" ++ "\n".intercalate (missing content lines) ++
      String.ofList rest).toList = _
    simp [String.toList_intercalate, hnewline]

/-- What is returned: the text as it is if nothing is missing, else with the missing lines behind the
imports. -/
theorem insertImports_ok (h : insertImports content lines = .ok text) :
    missing content lines = [] ∧ text = content ∨
      ∃ before rest, missing content lines ≠ [] ∧
        splitAfterImports? true content.toList = some (before, rest) ∧
        text.toList = before ++ (insertion content lines ++ rest) := by
  by_cases hmissing : missing content lines = []
  · rw [insertImports_of_nothing_missing hmissing] at h
    cases h
    exact .inl ⟨hmissing, rfl⟩
  · rw [insertImports_eq hmissing] at h
    split at h
    · cases h
    · rename_i before rest hsplit
      cases h
      exact .inr ⟨before, rest, hmissing, hsplit, String.toList_ofList⟩

/-- Imports that are there are not inserted again. -/
theorem insertImports_of_isLine
    (h : ∀ line ∈ lines, Findable line ∧ IsLine line.toList content.toList) :
    insertImports content lines = .ok content := by
  refine insertImports_of_nothing_missing (List.eq_nil_iff_forall_not_mem.2 fun line hmem => ?_)
  obtain ⟨hline, hnot⟩ := mem_missing_iff.1 hmem
  obtain ⟨hfindable, hthere⟩ := h line hline
  exact hnot ((mem_breakLines_iff hfindable.1).2 hthere)

/-- **Imports are inserted before a line break, and are there afterwards.** -/
theorem inserted_insertImports (hlines : ∀ line ∈ lines, Findable line)
    (h : insertImports content lines = .ok text) :
    Inserted content.toList text.toList ∧ ∀ line ∈ lines, IsLine line.toList text.toList := by
  have hthere : ∀ line ∈ lines, line ∉ missing content lines →
      IsLine line.toList content.toList := by
    intro line hline hnot
    refine (mem_breakLines_iff (hlines line hline).1).1 ?_
    by_contra hout
    exact hnot (mem_missing_iff.2 ⟨hline, hout⟩)
  rcases insertImports_ok h with ⟨hnone, rfl⟩ | ⟨before, rest, hmissing, hsplit, htext⟩
  · exact ⟨.none rfl, fun line hline => hthere line hline (by simp [hnone])⟩
  · obtain ⟨hcontent, hrest⟩ := splitAfterImports?_eq_some hsplit
    obtain ⟨first, others, hfirst⟩ := List.exists_cons_of_ne_nil hmissing
    have hinserted : Inserted content.toList text.toList := by
      refine .before before
        (first.toList ++ others.flatMap fun line => '\n' :: line.toList) rest hcontent ?_ hrest
      rw [htext, insertion, hfirst]
      rfl
    refine ⟨hinserted, fun line hline => ?_⟩
    by_cases hmem : line ∈ missing content lines
    · rw [htext, insertion_eq]
      refine isLine_flatMap (hlines line hline).2 (List.mem_map_of_mem hmem) ?_
      rcases hrest with rfl | ⟨rest, rfl⟩
      · exact beginsBreak_nil
      · exact beginsBreak_cons.2 (by decide)
    · exact hinserted.isLine (hlines line hline).1 (hthere line hline hmem)

/-! ## Settings -/

theorem configObject?_eq_some (h : configObject? s = some (before, after)) :
    ∃ spacing, before = "defineConfig(\x7b".toList ++ spacing ++ ['\n'] ∧
      s = "defineConfig(\x7b".toList ++ spacing ++ '\n' :: after := by
  unfold configObject? at h
  simp only [Option.bind_eq_bind, Option.bind_eq_some_iff, literal?_eq_some] at h
  obtain ⟨rest, rfl, rest', hline, h⟩ := h
  cases h
  refine ⟨_, rfl, ?_⟩
  have hrest := List.takeWhile_append_dropWhile (p := isSpacing) (l := rest)
  rw [hline] at hrest
  rw [List.append_assoc]
  exact congrArg _ hrest.symm

theorem endsLine_indentBlock (block : List Char) : EndsLine (indentBlock block) := by
  unfold indentBlock
  rcases List.eq_nil_or_concat (breakLines block) with h | ⟨lines, line, h⟩
  · simp [h]
  · simp only [h, List.concat_eq_append, List.flatMap_append, List.flatMap_cons, List.flatMap_nil,
      List.append_nil, ← List.append_assoc]
    exact endsLine_concat.2 (by decide)

/-- Settings that are there are not inserted again. -/
theorem insertSettings_of_infix (h : marker.toList <:+: content.toList) :
    insertSettings content block marker = .ok content := by
  unfold insertSettings
  rw [if_pos (occursIn_iff.2 h)]
  rfl

/-- What is returned: the text as it is if the marker is there, else with the block behind the opening of
the object. -/
theorem insertSettings_ok (h : insertSettings content block marker = .ok text) :
    text = content ∧ marker.toList <:+: content.toList ∨
      ¬ marker.toList <:+: content.toList ∧ ∃ before spacing after,
        content.toList = before ++ ("defineConfig(\x7b".toList ++ spacing ++ '\n' :: after) ∧
        text.toList = before ++ ("defineConfig(\x7b".toList ++ spacing ++
          '\n' :: (indentBlock block.toList ++ after)) := by
  unfold insertSettings at h
  split at h
  · rename_i hthere
    cases h
    exact .inl ⟨rfl, occursIn_iff.1 hthere⟩
  · rename_i hnew
    obtain ⟨before, start, after, hfind, -, htext⟩ := anchor_bind_eq_ok h
    cases htext
    obtain ⟨t, -, hcontent, hread, -⟩ := find?_eq_some hfind
    obtain ⟨spacing, rfl, rfl⟩ := configObject?_eq_some hread
    refine .inr ⟨fun hthere => hnew (occursIn_iff.2 hthere), before, spacing, after, hcontent, ?_⟩
    simp

/-- **Settings are inserted after a line break, and their marker is there afterwards.** -/
theorem inserted_insertSettings (hblock : marker.toList <:+: indentBlock block.toList)
    (h : insertSettings content block marker = .ok text) :
    Inserted content.toList text.toList ∧ marker.toList <:+: text.toList := by
  rcases insertSettings_ok h with ⟨rfl, hthere⟩ | ⟨-, before, spacing, after, hcontent, htext⟩
  · exact ⟨.none rfl, hthere⟩
  · refine ⟨.after (before ++ ("defineConfig(\x7b".toList ++ spacing)) (indentBlock block.toList) after ?_ ?_
      (endsLine_indentBlock _), ?_⟩
    · simpa using hcontent
    · simpa using htext
    · rw [htext]
      exact hblock.trans ⟨before ++ ("defineConfig(\x7b".toList ++ spacing ++ ['\n']), after, by simp⟩

/-! ## Plugins -/

theorem pluginList?_eq_some (h : pluginList? s = some ((head, gap), after)) :
    ∃ blanks spacing, head = ("plugins:".toList ++ blanks) ++ ['['] ∧
      (∀ c ∈ blanks, isBlank c = true) ∧ (∀ c ∈ spacing, isSpacing c = true) ∧
      (gap = spacing ∨ gap = spacing ++ ['\n']) ∧
      s = ("plugins:".toList ++ blanks) ++ '[' :: (gap ++ after) := by
  unfold pluginList? at h
  simp only [Option.bind_eq_bind, Option.bind_eq_some_iff, literal?_eq_some] at h
  obtain ⟨rest, rfl, list, hlist, h⟩ := h
  have hblanks := List.takeWhile_append_dropWhile (p := isBlank) (l := rest)
  have hspacing := List.takeWhile_append_dropWhile (p := isSpacing) (l := list)
  rw [hlist] at hblanks
  refine ⟨rest.takeWhile isBlank, list.takeWhile isSpacing, ?_⟩
  split at h
  · rename_i after' hline
    cases h
    rw [hline] at hspacing
    refine ⟨rfl, fun c hc => List.mem_takeWhile_imp hc, fun c hc => List.mem_takeWhile_imp hc,
      .inr rfl, ?_⟩
    have hline' : (list.takeWhile isSpacing ++ ['\n']) ++ after = list := by
      rw [List.append_assoc]
      exact hspacing
    rw [hline', List.append_assoc]
    exact congrArg _ hblanks.symm
  · cases h
    refine ⟨rfl, fun c hc => List.mem_takeWhile_imp hc, fun c hc => List.mem_takeWhile_imp hc,
      .inl rfl, ?_⟩
    rw [hspacing, List.append_assoc]
    exact congrArg _ hblanks.symm

/-- A plugin that is there is not put in again. -/
theorem insertPlugin_of_present (h : call.toList <:+: content.toList) :
    insertPlugin content call = .ok content := by
  unfold insertPlugin
  rw [if_pos (occursIn_iff.2 h)]
  rfl

theorem isBlank_of_isSpacing {c : Char} (h : isSpacing c = true) : isBlank c = true := by
  simp only [isSpacing, Bool.or_eq_true, beq_iff_eq] at h
  rcases h with rfl | rfl <;> decide

theorem isLineBreak_of_isSpacing {c : Char} (h : isSpacing c = true) : isLineBreak c = false := by
  simp only [isSpacing, Bool.or_eq_true, beq_iff_eq] at h
  rcases h with rfl | rfl <;> decide

/-- What stands at the start of the plugin list with a plugin put in. -/
theorem exists_withPlugin (call front gap after : List Char) :
    ∃ y, withPlugin call (front ++ ['[']) gap after = front ++ '[' :: y ∧ call <:+: y ∧
      ('\n' ∈ gap → y ≠ [] ∧ EndsLine y) := by
  unfold withPlugin
  split
  · simp only
    refine ⟨'\n' :: _ ++ call ++ [',', '\n'], by simp only [List.append_assoc]; rfl, ?_,
      fun _ => ⟨by simp, ?_⟩⟩
    · exact ⟨_, _, rfl⟩
    · rw [show [',', '\n'] = [','] ++ ['\n'] from rfl, ← List.append_assoc]
      exact endsLine_concat.2 (by decide)
  · rename_i hgap
    have hgap' : '\n' ∉ gap := by simpa using hgap
    split
    · exact ⟨call, by simp, List.infix_refl _, fun h => absurd h hgap'⟩
    · exact ⟨call ++ [',', ' '], by simp, ⟨[], _, rfl⟩, fun h => absurd h hgap'⟩

/-- What is returned: the text as it is if the plugin is there, else with the plugin put into the list. -/
theorem insertPlugin_put (h : insertPlugin content call = .ok text) :
    (text = content ∧ call.toList <:+: content.toList) ∨
      ∃ before front spacing gap after, content.toList = before ++ (front ++ '[' :: (gap ++ after)) ∧
        text.toList = before ++ (withPlugin call.toList (front ++ ['[']) gap after ++ after) ∧
        (∀ c ∈ spacing, isSpacing c = true) ∧ (gap = spacing ∨ gap = spacing ++ ['\n']) := by
  unfold insertPlugin at h
  split at h
  · rename_i hthere
    cases h
    exact .inl ⟨rfl, occursIn_iff.1 hthere⟩
  · obtain ⟨before, ⟨head, gap⟩, after, hfind, -, htext⟩ := anchor_bind_eq_ok h
    cases htext
    obtain ⟨t, -, hcontent, hread, -⟩ := find?_eq_some hfind
    obtain ⟨blanks, spacing, rfl, -, hspacing, hgap, rfl⟩ := pluginList?_eq_some hread
    refine .inr ⟨before, "plugins:".toList ++ blanks, spacing, gap, after, hcontent, ?_, hspacing, hgap⟩
    rw [String.toList_ofList, List.append_assoc]

/-- What putting in a plugin does to a text that does not have it. -/
theorem insertPlugin_ok (h : insertPlugin content call = .ok text) :
    (text = content ∧ call.toList <:+: content.toList) ∨
      ∃ front spacing gap after y, content.toList = front ++ '[' :: (gap ++ after) ∧
        text.toList = front ++ '[' :: (y ++ after) ∧ (∀ c ∈ spacing, isSpacing c = true) ∧
        (gap = spacing ∨ gap = spacing ++ ['\n']) ∧ call.toList <:+: y ∧
        ('\n' ∈ gap → y ≠ [] ∧ EndsLine y) := by
  rcases insertPlugin_put h with
    hthere | ⟨before, front, spacing, gap, after, hcontent, htext, hspacing, hgap⟩
  · exact .inl hthere
  · obtain ⟨y, hy, hcall, hends⟩ := exists_withPlugin call.toList front gap after
    refine .inr ⟨before ++ front, spacing, gap, after, y, ?_, ?_, hspacing, hgap, hcall, hends⟩
    · rw [hcontent, List.append_assoc]
    · simp [htext, hy]

/-- **A plugin is there after it was put in.** -/
theorem infix_insertPlugin (h : insertPlugin content call = .ok text) :
    call.toList <:+: text.toList := by
  rcases insertPlugin_ok h with ⟨rfl, hthere⟩ | ⟨front, -, -, after, y, -, htext, -, -, hcall, -⟩
  · exact hthere
  · rw [htext]
    exact hcall.trans ⟨front ++ ['['], after, by simp⟩

/-- A line without a bracket is kept where a plugin is put in. -/
theorem isLine_insertPlugin (h : insertPlugin content call = .ok text) (hl : '[' ∉ l)
    (hline : IsLine l content.toList) : IsLine l text.toList := by
  rcases insertPlugin_ok h with ⟨rfl, -⟩ | ⟨front, spacing, gap, after, y, hcontent, htext, hspacing,
    hgap, -, hends⟩
  · exact hline
  rw [hcontent] at hline
  rw [htext]
  have hunbroken := hline.unbroken
  rcases hline.cases_cons hl (by decide) with ⟨a, b, rfl, hne, ha, hb⟩ | ⟨a, b, hafter, hne, ha, hb⟩
  · refine ⟨hunbroken, a, b ++ '[' :: (y ++ after), by simp, ha, ?_⟩
    exact (beginsBreak_append hne).2 hb
  · have hnot {a' : List Char} (hne : a' ≠ []) (ha' : EndsLine a') (hsub : a' ⊆ spacing) : False :=
      hne (ha'.eq_nil fun c hc => isLineBreak_of_isSpacing (hspacing c (hsub hc)))
    -- The line before ends at a line break, and the only one of the gap is its last character.
    obtain ⟨a', rfl, rfl⟩ : ∃ a', a = gap ++ a' ∧ after = a' ++ (l ++ b) := by
      rcases List.append_eq_append_iff.1 hafter with ⟨a', rfl, rfl⟩ | ⟨gap', rfl, hrest⟩
      · exact ⟨a', rfl, rfl⟩
      · rcases List.eq_nil_or_concat gap' with rfl | ⟨gap', d, rfl⟩
        · exact ⟨[], by simp, by simpa using hrest.symm⟩
        · rw [List.concat_eq_append] at hgap
          refine (hnot hne ha ?_).elim
          rcases hgap with rfl | hgap
          · exact List.subset_append_left _ _
          · rw [← List.append_assoc] at hgap
            rw [← (List.append_inj' hgap rfl).1]
            exact List.subset_append_left _ _
    refine ⟨hunbroken, front ++ '[' :: (y ++ a'), b, by simp, ?_, hb⟩
    by_cases ha' : a' = []
    · subst ha'
      rw [List.append_nil] at hne ha ⊢
      rcases hgap with rfl | rfl
      · exact (hnot hne ha (List.Subset.refl _)).elim
      · obtain ⟨hy, hends⟩ := hends (by simp)
        rw [← List.singleton_append, ← List.append_assoc]
        exact (endsLine_append hy).2 hends
    · rw [endsLine_append ha'] at ha
      rw [← List.singleton_append, ← List.append_assoc, ← List.append_assoc]
      exact (endsLine_append ha').2 ha

/-! ## Carriage returns -/

theorem not_mem_insertImports (hlines : ∀ line ∈ lines, '\r' ∉ line.toList)
    (hcontent : '\r' ∉ content.toList) (h : insertImports content lines = .ok text) :
    '\r' ∉ text.toList := by
  rcases insertImports_ok h with ⟨-, rfl⟩ | ⟨before, rest, -, hsplit, htext⟩
  · exact hcontent
  · rw [(splitAfterImports?_eq_some hsplit).1, List.mem_append, not_or] at hcontent
    rw [htext, List.mem_append, List.mem_append, not_or, not_or]
    refine ⟨hcontent.1, fun hmem => ?_, hcontent.2⟩
    obtain ⟨line, hline, hmem⟩ := List.mem_flatMap.1 hmem
    rcases List.mem_cons.1 hmem with h | hmem
    · cases h
    · exact hlines line (mem_missing_iff.1 hline).1 hmem

theorem not_mem_insertSettings (hblock : '\r' ∉ indentBlock block.toList)
    (hcontent : '\r' ∉ content.toList) (h : insertSettings content block marker = .ok text) :
    '\r' ∉ text.toList := by
  rcases insertSettings_ok h with ⟨rfl, -⟩ | ⟨-, before, spacing, after, heq, htext⟩
  · exact hcontent
  · rw [heq] at hcontent
    rw [htext]
    simp only [List.mem_append, List.mem_cons, not_or] at hcontent ⊢
    exact ⟨hcontent.1, hcontent.2.1, hcontent.2.2.1, hblock, hcontent.2.2.2⟩

theorem not_mem_withPlugin {c : Char} (gap : List Char) (hc : c ∉ [',', '\n', ' '])
    (hcall : c ∉ call.toList) (hhead : c ∉ head) (hafter : c ∉ after) : c ∉ withPlugin call.toList head gap after := by
  simp only [List.mem_cons, List.not_mem_nil, or_false, not_or] at hc
  have hindent : c ∉ after.takeWhile isSpacing := fun hmem =>
    hafter ((List.takeWhile_prefix _).subset hmem)
  unfold withPlugin
  split
  · simp only [List.mem_append, List.mem_cons, List.not_mem_nil, or_false, not_or]
    refine ⟨⟨⟨hhead, hc.2.1, ?_⟩, hcall⟩, hc.1, hc.2.1⟩
    split
    · simp [hc.2.2]
    · exact hindent
  · split
    · simp [hhead, hcall]
    · simp [hhead, hcall, hc]

theorem not_mem_insertPlugin (hcall : '\r' ∉ call.toList) (hcontent : '\r' ∉ content.toList)
    (h : insertPlugin content call = .ok text) : '\r' ∉ text.toList := by
  rcases insertPlugin_put h with ⟨rfl, -⟩ | ⟨before, front, -, gap, after, heq, htext, -, -⟩
  · exact hcontent
  · rw [heq] at hcontent
    simp only [List.mem_append, List.mem_cons, not_or] at hcontent
    have hput := not_mem_withPlugin gap (by decide) hcall
      (show '\r' ∉ front ++ ['['] by simp [hcontent]) hcontent.2.2.2.2
    simp [htext, hcontent, hput]

end Scaffold.BuildConfig
