import Scaffold.Proofs.Entry.Mount

/-!
# Rewritten entry files

A rewritten entry file has no mount expression any more, so it is not rewritten again.

* **Harmless statements** are what features may put into an entry file: they construct no application
  and their calls have no quotation marks.
* **Where an expression could begin.** It begins with a construction, and the only constructions of
  the rewritten file are those of its old parts and the one whose value goes to a variable.
* **Where it could end.** An expression that begins in the old text before the place of the rewriting
  and reaches into the new statements would have its selector there. Then it began an expression of
  the old file, too.
-/

namespace Scaffold

open Text

/-- How the construction of an application begins. -/
def construction : List Char := "createApp(".toList

/-- Statements that construct no application. -/
structure HarmlessStatements (imports useCalls : List String) : Prop where
  /-- the import lines construct no application -/
  lines : ∀ line ∈ imports, ¬ construction <:+: line.toList
  /-- the import lines have no carriage returns -/
  plainLines : ∀ line ∈ imports, '\r' ∉ line.toList
  /-- the calls construct no application -/
  calls : ∀ call ∈ useCalls, ¬ construction <:+: call.toList
  /-- the calls have no carriage returns -/
  plainCalls : ∀ call ∈ useCalls, '\r' ∉ call.toList
  /-- the calls have no quotation marks -/
  unquoted : ∀ call ∈ useCalls, ∀ c ∈ call.toList, isQuote c = false

theorem HarmlessStatements.append {imports imports' useCalls useCalls' : List String}
    (h : HarmlessStatements imports useCalls) (h' : HarmlessStatements imports' useCalls') :
    HarmlessStatements (imports ++ imports') (useCalls ++ useCalls') where
  lines := List.forall_mem_append.2 ⟨h.lines, h'.lines⟩
  plainLines := List.forall_mem_append.2 ⟨h.plainLines, h'.plainLines⟩
  calls := List.forall_mem_append.2 ⟨h.calls, h'.calls⟩
  plainCalls := List.forall_mem_append.2 ⟨h.plainCalls, h'.plainCalls⟩
  unquoted := List.forall_mem_append.2 ⟨h.unquoted, h'.unquoted⟩

/-! ## The texts of a rewritten file -/

/-- A text of whole lines. -/
def linesText (lines : List (List Char)) : List Char := lines.flatMap (· ++ ['\n'])

@[simp]
theorem linesText_nil : linesText [] = [] := rfl

@[simp]
theorem linesText_cons (line : List Char) (lines : List (List Char)) :
    linesText (line :: lines) = line ++ '\n' :: linesText lines := by
  simp [linesText]

theorem intercalate_concat (lines : List (List Char)) (last : List Char) :
    ['\n'].intercalate (lines ++ [last]) = linesText lines ++ last := by
  induction lines with
  | nil => simp
  | cons line lines ih =>
    obtain ⟨second, more, heq⟩ : ∃ second more, lines ++ [last] = second :: more := by
      cases lines <;> exact ⟨_, _, rfl⟩
    rw [List.cons_append, heq, List.intercalate_cons_cons, ← heq, ih]
    simp

/-- A word without a newline that occurs after some lines or in them occurs in what follows them or
in one of them. -/
theorem infix_linesText_append {w rest : List Char} {lines : List (List Char)} (hw : '\n' ∉ w)
    (h : w <:+: linesText lines ++ rest) : (∃ line ∈ lines, w <:+: line) ∨ w <:+: rest := by
  induction lines with
  | nil => exact .inr h
  | cons line lines ih =>
    rw [linesText_cons, List.append_assoc, List.cons_append] at h
    rcases infix_append_cons hw h with hline | hrest
    · exact .inl ⟨line, .head _, hline⟩
    · refine (ih hrest).imp_left ?_
      rintro ⟨line', hmem, hline⟩
      exact ⟨line', .tail _ hmem, hline⟩

/-- The statement of a use call. -/
def callLine (call : String) : List Char := "app".toList ++ (call.toList ++ [';'])

/-- What stands before the mounting in the statements of an application: its construction and the
calls on it. -/
def statementsBefore (root : List Char) (useCalls : List String) : List Char :=
  "const app ".toList ++ '=' :: ' ' :: (construction ++ (root ++ ')' :: ';' :: '\n' ::
    linesText (useCalls.map callLine)))

/-- The mounting of an application up to its selector. -/
def mounting : List Char := "app.mount(".toList

theorem toList_callLine (call : String) : (s!"{defaultVariable}{call};").toList = callLine call := by
  simp only [toString, String.toList_append, callLine, List.append_assoc]
  rfl

theorem toList_statements (p : MountText) (useCalls : List String) :
    ((p.mount defaultFactory).statements useCalls defaultVariable).toList =
      statementsBefore p.root useCalls ++
        (mounting ++ p.quote :: (p.selector ++ p.quote :: [')', ';'])) := by
  have hnewline : "\n".toList = ['\n'] := rfl
  have hcalls : (useCalls.map fun call => s!"{defaultVariable}{call};").map String.toList =
      useCalls.map callLine := by
    rw [List.map_map]
    exact List.map_congr_left fun call _ => toList_callLine call
  unfold Mount.statements MountText.mount
  simp only [String.toList_intercalate, hnewline, List.map_append, List.map_cons, List.map_nil, hcalls]
  have hquote : p.quote.toString.toList = [p.quote] := by simp [Char.toString]
  rw [intercalate_concat, linesText_cons]
  simp only [toString, String.toList_append, String.toList_ofList, List.append_assoc]
  rw [hquote]
  unfold statementsBefore construction mounting defaultVariable defaultFactory
  simp

theorem toList_withFeatures (e : SplitEntry) (imports useCalls : List String) (name : String) :
    (e.withFeatures imports useCalls name).toList =
      linesText (imports.map String.toList) ++ (e.head.toList ++
        ((e.mount.statements useCalls name).toList ++ e.tail.toList)) := by
  have hnewline : "\n".toList = ['\n'] := rfl
  rcases List.eq_nil_or_concat imports with rfl | ⟨imports, last, rfl⟩
  · simp [SplitEntry.withFeatures]
  · have hne : (imports ++ [last]).isEmpty = false := by simp
    simp only [SplitEntry.withFeatures, List.concat_eq_append, hne, Bool.false_eq_true, if_false,
      String.toList_append, String.toList_intercalate, hnewline, List.map_append, List.map_cons,
      List.map_nil, intercalate_concat]
    simp [linesText]

/-! ## Expressions that begin in the old text -/

namespace MountText

variable {p q : MountText} {s t y z rest : List Char} {c : Char} {useCalls : List String}

/-- A mount expression begins with a construction. -/
theorem chars_eq (p : MountText) : p.chars defaultFactory = construction ++ (p.beforeRoot ++
    (p.root ++ (p.afterRoot ++ ')' :: (p.beforeCall ++ '.' :: ("mount(".toList ++
      (p.beforeSelector ++ p.quote :: (p.selector ++ p.quote :: p.closing))))))) := by
  unfold chars opening construction defaultFactory
  simp

theorem not_isQuote_of_mem_opening (hc : c ∈ p.opening defaultFactory) : isQuote c = false := by
  have := not_mem_signs_of_mem_opening (by decide) hc
  simp only [List.mem_cons, not_or] at this
  simp [isQuote, this]

/-- The opening of an expression does not lead into a text that begins with the construction of a
variable: the first sign of either kind is a quotation mark here and an equals sign there. -/
theorem opening_append_ne (p : MountText) (hy : p.opening defaultFactory = y ++ z)
    (v : List Char) : z ++ p.quote :: rest ≠ "const app ".toList ++ '=' :: v := by
  intro h
  have hz : ∀ c ∈ z, ¬ c ∈ ['=', '\x27', '"'] := fun c hc =>
    have hmem : c ∈ p.opening defaultFactory := hy ▸ List.mem_append_right y hc
    not_mem_signs_of_mem_opening (by decide) hmem
  have hquote : p.quote ∈ ['=', '\x27', '"'] := by
    have := p.quoted
    simp only [isQuote, Bool.or_eq_true, beq_iff_eq] at this
    simp [this]
  obtain ⟨-, heq, -⟩ := append_cons_inj_of_first h hz (by decide) hquote (by decide)
  have := p.quoted
  rw [heq] at this
  cases this

theorem not_mem_closing (hc : isBlank c = false) (hne : c ≠ ')') : c ∉ p.closing := by
  intro hmem
  rcases List.mem_append.1 hmem with hmem | hmem
  · have := p.blank p.afterSelector (by simp) c hmem
    rw [hc] at this
    cases this
  · exact hne (by simpa using hmem)

/-- The expression with a longer selector. -/
def withSelector (p : MountText) (selector : List Char) (h : ∀ c ∈ selector, isQuote c = false) :
    MountText :=
  { p with selector := selector, unquoted := h }

/-- The selector of an expression that is read in the new text, but not before it, ends where the
selector of the mounting begins. Then a mount expression began at the same place of the old text. -/
theorem exists_chars_of_selector {front back : List Char} (rest : List Char)
    (hselector : p.selector = front ++ back)
    (hquote : p.quote = q.quote) (hclosing : p.closing <+: q.selector) :
    ∃ (p' : MountText) (u : List Char), p.opening defaultFactory ++ p.quote :: front ++
      (q.chars defaultFactory ++ rest) = p'.chars defaultFactory ++ u := by
  obtain ⟨x, hx⟩ := hclosing
  have hunquoted : ∀ c ∈ front ++ q.opening defaultFactory, isQuote c = false := by
    intro c hc
    rcases List.mem_append.1 hc with hc | hc
    · exact p.unquoted c (hselector ▸ List.mem_append_left _ hc)
    · exact not_isQuote_of_mem_opening hc
  refine ⟨p.withSelector _ hunquoted, x ++ q.quote :: (q.closing ++ rest), ?_⟩
  have hopening : (p.withSelector _ hunquoted).opening defaultFactory = p.opening defaultFactory := rfl
  have hclosing : (p.withSelector _ hunquoted).closing = p.closing := rfl
  rw [chars, chars, hopening, hclosing, ← hx]
  simp [withSelector, hquote]

/-- **An expression that begins before the place of the rewriting began there before it.** If it
reaches into the new text, its selector ends where the selector of the mounting begins, and so it did
in the old text. -/
theorem mount?_append_eq_none {new before : List Char}
    (hold : mount? defaultFactory (y ++ (q.chars defaultFactory ++ rest)) = none)
    (hconst : ∃ v, new = "const app ".toList ++ '=' :: v)
    (hselector : ∃ w, new = before ++ q.quote :: (q.selector ++ q.quote :: w))
    (hbefore : ∀ c ∈ before, isQuote c = false) :
    mount? defaultFactory (y ++ new) = none := by
  have hreject (p : MountText) (u : List Char)
      (h : y ++ (q.chars defaultFactory ++ rest) = p.chars defaultFactory ++ u) : False := by
    have := p.isSome_mount? defaultFactory u
    rw [← h, hold] at this
    cases this
  obtain ⟨v, hconst⟩ := hconst
  obtain ⟨w, hselector⟩ := hselector
  refine Option.eq_none_iff_forall_ne_some.2 fun ⟨m, after⟩ hread => ?_
  obtain ⟨p, stop, -, heq⟩ := of_mount? hread
  -- The expression ends before the new text, or the new text begins somewhere in it.
  rcases List.append_eq_append_iff.1 heq with ⟨z, hchars, hnew⟩ | ⟨z, hy, -⟩
  swap
  · exact hreject p (z ++ (q.chars defaultFactory ++ rest)) (by rw [hy, List.append_assoc])
  rw [chars] at hchars
  rcases List.append_eq_append_iff.1 hchars with ⟨a, rfl, ha⟩ | ⟨a, hopening, rfl⟩
  swap
  · exact opening_append_ne p hopening v (by rw [← hconst, hnew, List.append_assoc]; rfl)
  have hno (u : List Char) (h : new = p.quote :: u) : False :=
    opening_append_ne p (y := p.opening defaultFactory) (z := []) (by simp) v (h.symm.trans hconst)
  rcases List.cons_eq_append_iff.1 ha with ⟨-, rfl⟩ | ⟨front, rfl, hrest⟩
  · exact hno _ hnew
  rcases List.append_eq_append_iff.1 hrest with ⟨b, rfl, hb⟩ | ⟨back, hback, rfl⟩
  · -- The new text begins after the selector, where only blanks and a bracket may stand.
    rcases List.cons_eq_append_iff.1 hb with ⟨-, rfl⟩ | ⟨b', rfl, hclosing⟩
    · exact hno _ hnew
    cases z with
    | nil =>
      rw [List.append_nil] at hchars
      exact hreject p (q.chars defaultFactory ++ rest) (by rw [← hchars]; rfl)
    | cons c z =>
      obtain rfl : c = 'c' := (List.cons.inj (hnew.symm.trans hconst)).1
      refine not_mem_closing (p := p) (c := 'c') (by decide) (by decide) ?_
      rw [hclosing]
      simp
  · -- The new text begins in the selector, which ends at the first quotation mark.
    have hends : back ++ p.quote :: (p.closing ++ (stop ++ after)) =
        before ++ q.quote :: (q.selector ++ q.quote :: w) := by
      rw [← hselector, hnew, List.append_assoc]
      rfl
    have hfront : ∀ c ∈ back, ¬ isQuote c = true := fun c hc => by
      simp [p.unquoted c (hback ▸ List.mem_append_right _ hc)]
    obtain ⟨-, hquote, hrest⟩ := append_cons_inj_of_first hends hfront
      (fun c hc => by simp [hbefore c hc]) p.quoted q.quoted
    have hclosing : p.closing <+: q.selector := by
      refine prefix_of_prefix_append_cons (d := q.quote) ?_ ⟨_, hrest⟩
      refine not_mem_closing (isBlank_of_isQuote q.quoted) fun h => ?_
      have := q.quoted
      rw [h] at this
      cases this
    obtain ⟨p', u, hp'⟩ := exists_chars_of_selector rest hback hquote hclosing
    exact hreject p' u hp'

/-! ## Expressions that begin in the new statements -/

/-- There is no quotation mark before the selector of the mounting. -/
theorem not_isQuote_of_mem_statements (p : MountText)
    (hcalls : ∀ call ∈ useCalls, ∀ c ∈ call.toList, isQuote c = false) :
    ∀ c ∈ statementsBefore p.root useCalls ++ mounting, isQuote c = false := by
  have hroot : ∀ c ∈ p.root, isQuote c = false := fun c hc =>
    not_isQuote_of_mem_opening (p := p) (by simp [opening, hc])
  have hlines : ∀ c ∈ linesText (useCalls.map callLine), isQuote c = false := by
    intro c hc
    obtain ⟨_, hline, hc⟩ := List.mem_flatMap.1 hc
    obtain ⟨call, hcall, rfl⟩ := List.mem_map.1 hline
    rw [callLine, List.mem_append, List.mem_append, List.mem_append] at hc
    rcases hc with (hc | hc | hc) | hc
    · exact (by decide : ∀ c ∈ "app".toList, isQuote c = false) c hc
    · exact hcalls call hcall c hc
    · exact (by decide : ∀ c ∈ [';'], isQuote c = false) c hc
    · exact (by decide : ∀ c ∈ ['\n'], isQuote c = false) c hc
  unfold statementsBefore
  simp only [List.forall_mem_append, List.forall_mem_cons]
  exact ⟨⟨by decide, rfl, rfl, by decide, hroot, rfl, rfl, rfl, hlines⟩, by decide⟩

/-- A mount expression begins with a construction. -/
theorem construction_prefix {r : Mount × List Char} (h : mount? defaultFactory s = some r) :
    construction <+: s := by
  obtain ⟨m, after⟩ := r
  obtain ⟨p, stop, -, rfl⟩ := of_mount? h
  rw [chars_eq, List.append_assoc]
  exact List.prefix_append _ _

/-- No mount expression begins in the import lines. -/
theorem mount?_imports_eq_none {imports : List String} (rest : List Char)
    (himports : ∀ line ∈ imports, ¬ construction <:+: line.toList) (hy : y ≠ [])
    (hsuffix : y <:+ linesText (imports.map String.toList)) :
    mount? defaultFactory (y ++ rest) = none := by
  refine Option.eq_none_iff_forall_ne_some.2 fun r hread => ?_
  obtain ⟨y', rfl⟩ : ∃ y', y = y' ++ ['\n'] := by
    rcases List.eq_nil_or_concat imports with rfl | ⟨imports, last, rfl⟩
    · exact absurd (List.suffix_nil.1 hsuffix) hy
    · have hlast : y <:+ (linesText (imports.map String.toList) ++ last.toList) ++ ['\n'] := by
        simpa [linesText] using hsuffix
      obtain ⟨y', hy', -⟩ := (List.suffix_concat_iff.1 hlast).resolve_left hy
      exact ⟨y', hy'⟩
  have hprefix := construction_prefix hread
  rw [List.append_assoc, List.singleton_append] at hprefix
  have hin : construction <:+: linesText (imports.map String.toList) ++ [] := by
    rw [List.append_nil]
    exact ((prefix_of_prefix_append_cons (by decide) hprefix).trans
      (List.prefix_append _ _)).isInfix.trans hsuffix.isInfix
  rcases infix_linesText_append (by decide) hin with ⟨_, hmem, hline⟩ | hnil
  · obtain ⟨line, hline', rfl⟩ := List.mem_map.1 hmem
    exact himports line hline' hline
  · exact absurd hnil (by decide)

/-- A construction whose statement ends there is no mount expression. -/
theorem mount?_construction (p : MountText) (rest : List Char) :
    mount? defaultFactory (construction ++ (p.root ++ ')' :: ';' :: rest)) = none := by
  refine Option.eq_none_iff_forall_ne_some.2 fun ⟨m, after⟩ hread => ?_
  obtain ⟨q, stop, -, heq⟩ := of_mount? hread
  rw [chars_eq, List.append_assoc] at heq
  have hnot {q : MountText} : ∀ c ∈ q.root, ¬ c = ')' := by
    rintro _ hc rfl
    exact not_mem_signs_of_mem_root hc (by decide)
  have hblank {part : List Char} (hpart : part ∈
      [q.beforeRoot, q.afterRoot, q.beforeCall, q.beforeSelector, q.afterSelector]) :
      ∀ c ∈ part, ¬ c = ')' := by
    rintro _ hc rfl
    cases q.blank part hpart _ hc
  have hsplit := List.append_cancel_left heq
  simp only [List.append_assoc, List.cons_append] at hsplit
  rw [← List.append_assoc q.beforeRoot, ← List.append_assoc] at hsplit
  obtain ⟨-, -, hrest⟩ := append_cons_inj_of_first hsplit hnot (fun c hc => by
    rcases List.mem_append.1 hc with hc | hc
    · rcases List.mem_append.1 hc with hc | hc
      · exact hblank (by simp) c hc
      · exact hnot c hc
    · exact hblank (by simp) c hc) rfl rfl
  -- After the bracket comes a semicolon here, and blanks or a dot there.
  cases hcall : q.beforeCall with
  | nil =>
    rw [hcall] at hrest
    cases hrest
  | cons c more =>
    rw [hcall] at hrest
    have hc := q.blank q.beforeCall (by simp) c (by simp [hcall])
    rw [← (List.cons.inj hrest).1] at hc
    cases hc

/-- No construction begins in the root component. -/
theorem not_infix_root (p : MountText) : ¬ construction <:+: "reateApp(".toList ++ p.root := by
  intro h
  have hroot : construction <:+: p.root := by
    unfold construction at h ⊢
    simpa [List.infix_cons_iff] using h
  exact not_mem_signs_of_mem_root (hroot.subset (by decide : '(' ∈ construction)) (by decide)

/-- The calls and the mounting construct nothing. -/
theorem not_infix_statements (p : MountText) (hselector : ¬ construction <:+: p.selector)
    (hcalls : ∀ call ∈ useCalls, ¬ construction <:+: call.toList) :
    ¬ construction <:+: linesText (useCalls.map callLine) ++
      (mounting ++ p.quote :: (p.selector ++ p.quote :: [')', ';'])) := by
  have hquote : p.quote ∉ construction := fun hmem => by
    have hnone : ∀ c ∈ construction, isQuote c = false := by decide
    have := p.quoted
    rw [hnone _ hmem] at this
    cases this
  intro h
  rcases infix_linesText_append (by decide) h with ⟨line, hmem, hline⟩ | hmount
  · obtain ⟨call, hcall, rfl⟩ := List.mem_map.1 hmem
    rw [callLine, ← List.append_assoc] at hline
    rcases infix_append_cons (by decide) hline with hstart | hend
    · refine hcalls call hcall ?_
      unfold construction at hstart ⊢
      simpa [List.infix_cons_iff] using hstart
    · exact absurd hend (by decide)
  · rcases infix_append_cons hquote hmount with hstart | hrest
    · exact absurd hstart (by decide)
    · rcases infix_append_cons hquote hrest with hin | hend
      · exact hselector hin
      · exact absurd hend (by decide)

/-- No construction begins before the one whose value goes to the variable. -/
theorem not_prefix_before_construction (hy : y ≠ []) (hsuffix : y <:+ "const app = ".toList) :
    ¬ construction <+: y ++ (construction ++ rest) := by
  have hnone : ∀ y ∈ "const app = ".toList.tails, y ≠ [] → ¬ construction <+: y ++ construction := by
    decide
  intro h
  rw [← List.append_assoc] at h
  refine hnone y ((List.mem_tails _ _).2 hsuffix) hy ?_
  exact List.prefix_of_prefix_length_le h (List.prefix_append _ _) (by simp)

/-- **No mount expression begins in the new statements.** -/
theorem mount?_statements_eq_none (p : MountText) (tail : List Char)
    (hselector : ¬ construction <:+: p.selector)
    (hcalls : ∀ call ∈ useCalls, ¬ construction <:+: call.toList) (hy : y ≠ [])
    (hsuffix : y <:+ statementsBefore p.root useCalls ++
      (mounting ++ p.quote :: (p.selector ++ p.quote :: [')', ';']))) :
    mount? defaultFactory (y ++ tail) = none := by
  refine Option.eq_none_iff_forall_ne_some.2 fun r hread => ?_
  obtain ⟨lines, hlines⟩ : ∃ lines, lines = linesText (useCalls.map callLine) ++
    (mounting ++ p.quote :: (p.selector ++ p.quote :: [')', ';'])) := ⟨_, rfl⟩
  have hstatements : statementsBefore p.root useCalls ++
      (mounting ++ p.quote :: (p.selector ++ p.quote :: [')', ';'])) =
        "const app = ".toList ++ (construction ++ (p.root ++ ')' :: ';' :: '\n' :: lines)) := by
    rw [hlines]
    unfold statementsBefore
    simp
  -- The construction that the expression begins with does not reach over the last semicolon.
  have hprefix : construction <+: y := by
    have hlast : y <:+ (statementsBefore p.root useCalls ++
        (mounting ++ p.quote :: (p.selector ++ p.quote :: [')']))) ++ [';'] := by
      simpa using hsuffix
    obtain ⟨y', rfl, -⟩ := (List.suffix_concat_iff.1 hlast).resolve_left hy
    have hlong := construction_prefix hread
    rw [List.append_assoc, List.singleton_append] at hlong
    exact (prefix_of_prefix_append_cons (by decide) hlong).trans (List.prefix_append _ _)
  rw [hstatements] at hsuffix
  rcases suffix_append_cases hsuffix with hsuffix | ⟨y', hne, hy', rfl⟩
  swap
  · exact not_prefix_before_construction hne hy' hprefix
  have hcons : construction = 'c' :: "reateApp(".toList := rfl
  rw [hcons, List.cons_append] at hsuffix
  rcases List.suffix_cons_iff.1 hsuffix with rfl | hsuffix
  · have hnone := mount?_construction p ('\n' :: lines ++ tail)
    rw [hcons] at hnone
    simp only [List.cons_append, List.append_assoc] at hread hnone
    rw [hnone] at hread
    cases hread
  · have hin := hprefix.isInfix.trans hsuffix.isInfix
    rw [← List.append_assoc] at hin
    rcases infix_append_cons (by decide) hin with hroot | hrest
    · exact not_infix_root p hroot
    · rcases infix_append_cons (a := [';']) (by decide) hrest with hsign | hlines'
      · exact absurd hsign (by decide)
      · exact not_infix_statements p hselector hcalls (hlines ▸ hlines')

end MountText

namespace SplitEntry

variable {content : String} {e : SplitEntry} {imports useCalls : List String}

/-- What an entry file is split into: the search for a mount expression finds none before it and none
after it. -/
theorem exists_of_ofText (h : ofText defaultFactory content = .ok e) :
    ∃ (p : MountText) (stop : List Char), e.mount = p.mount defaultFactory ∧
      content.toList = e.head.toList ++ (p.chars defaultFactory ++ (stop ++ e.tail.toList)) ∧
      find? (mount? defaultFactory) e.tail.toList = none ∧
      ∀ y, y ≠ [] → y <:+ e.head.toList →
        mount? defaultFactory (y ++ (p.chars defaultFactory ++ (stop ++ e.tail.toList))) = none := by
  obtain ⟨hfind, htail⟩ := ofText_eq_ok_iff.1 h
  obtain ⟨t, -, hcontent, hread, hhead⟩ := find?_eq_some hfind
  obtain ⟨p, stop, hmount, rfl⟩ := MountText.of_mount? hread
  exact ⟨p, stop, hmount, hcontent, htail, hhead⟩

/-- **A rewritten entry file has no mount expression.** -/
theorem ofText_withFeatures (h : ofText defaultFactory content = .ok e)
    (hselector : ¬ construction <:+: e.mount.selector.toList)
    (hstatements : HarmlessStatements imports useCalls) :
    ofText defaultFactory (e.withFeatures imports useCalls defaultVariable) =
      .error ⟨mountForm defaultFactory, 0⟩ := by
  obtain ⟨p, stop, hmount, -, htail, hhead⟩ := exists_of_ofText h
  have hselector' : ¬ construction <:+: p.selector := by
    rw [hmount] at hselector
    simpa [MountText.mount] using hselector
  have hnone : find? (mount? defaultFactory)
      (e.withFeatures imports useCalls defaultVariable).toList = none := by
    rw [toList_withFeatures, hmount, toList_statements]
    refine find?_eq_none_iff.2 fun t ht hsuffix => ?_
    rcases suffix_append_cases hsuffix with hold | ⟨y, hy, hin, rfl⟩
    swap
    · exact MountText.mount?_imports_eq_none _ hstatements.lines hy hin
    rcases suffix_append_cases hold with hnew | ⟨y, hy, hin, rfl⟩
    swap
    · refine MountText.mount?_append_eq_none (hhead y hy hin) ?_ ?_
        (p.not_isQuote_of_mem_statements hstatements.unquoted)
      · unfold statementsBefore
        simp only [List.append_assoc, List.cons_append]
        exact ⟨_, rfl⟩
      · simp only [List.append_assoc, List.cons_append]
        exact ⟨_, rfl⟩
    rcases suffix_append_cases hnew with hrest | ⟨y, hy, hin, rfl⟩
    · exact find?_eq_none_iff.1 htail t ht hrest
    · exact p.mount?_statements_eq_none _ hselector' hstatements.calls hy hin
  unfold ofText
  rw [anchor_of_none hnone]
  rfl

theorem not_mem_linesText {lines : List (List Char)} {c : Char} (hc : c ≠ '\n')
    (h : ∀ line ∈ lines, c ∉ line) : c ∉ linesText lines := by
  intro hmem
  obtain ⟨line, hline, hmem⟩ := List.mem_flatMap.1 hmem
  rcases List.mem_append.1 hmem with hmem | hmem
  · exact h line hline hmem
  · exact hc (List.mem_singleton.1 hmem)

/-- A rewritten entry file has no carriage return if the old one has none. -/
theorem not_mem_withFeatures (h : ofText defaultFactory content = .ok e)
    (hcontent : '\r' ∉ content.toList) (hstatements : HarmlessStatements imports useCalls) :
    '\r' ∉ (e.withFeatures imports useCalls defaultVariable).toList := by
  obtain ⟨p, stop, hmount, heq, -, -⟩ := exists_of_ofText h
  rw [heq] at hcontent
  simp only [MountText.chars, MountText.opening, List.mem_append, List.mem_cons, not_or] at hcontent
  have himports : '\r' ∉ linesText (imports.map String.toList) := by
    refine not_mem_linesText (by decide) fun _ hmem => ?_
    obtain ⟨line, hline, rfl⟩ := List.mem_map.1 hmem
    exact hstatements.plainLines line hline
  have hcalls : '\r' ∉ linesText (useCalls.map callLine) := by
    refine not_mem_linesText (by decide) fun _ hmem => ?_
    obtain ⟨call, hcall, rfl⟩ := List.mem_map.1 hmem
    simp only [callLine, List.mem_append, not_or]
    exact ⟨by decide, hstatements.plainCalls call hcall, by decide⟩
  have hfixed : '\r' ∉ "const app ".toList ∧ '\r' ∉ construction ∧ '\r' ∉ mounting := by decide
  rw [toList_withFeatures, hmount, toList_statements]
  unfold statementsBefore
  simp only [List.mem_append, List.mem_cons, not_or]
  simp [hcontent, himports, hcalls, hfixed]

end SplitEntry

end Scaffold
