import Scaffold.Proofs.BuildConfig.Insertion

/-!
# Where imports are inserted

Imports are inserted behind the last line on which an import begins. An import may go on below this
line.

* **The last import line** is told by the text alone, without the search for it: no import begins on
  the lines after it.
* **The lines that are missing** stand behind this line, in their order, and the rest of the text is
  as it was.
* **An import that goes on** is cut in two by them. They stand behind the whole import exactly if it
  ends with the line on which it begins.
-/

namespace Scaffold.BuildConfig

open Text

variable {content : String} {lines : List String}
  {s l a b above before line more below rest : List Char}

/-! ## Import lines -/

/-- An import begins at the start of the text. -/
def BeginsImport (s : List Char) : Prop :=
  ∃ c rest, isBlank c = true ∧ s = "import".toList ++ c :: rest

/-- A line on which an import begins. Behind the word it has a blank character of any kind; if this
is a newline, the line that it leads to belongs to it. -/
def ImportLine (line : List Char) : Prop :=
  ∃ c rest, isBlank c = true ∧ '\n' ∉ rest ∧ line = "import".toList ++ c :: rest

/-- The text is empty or begins with a newline, so that a line may end before it. -/
def EndsLineBefore (s : List Char) : Prop := s = [] ∨ ∃ rest, s = '\n' :: rest

theorem EndsLineBefore.beginsBreak (h : EndsLineBefore s) : BeginsBreak s := by
  rcases h with rfl | ⟨rest, rfl⟩
  · exact beginsBreak_nil
  · exact beginsBreak_cons.2 (by decide)

/-- No import begins on the lines after the first. -/
def NoImportBelow (s : List Char) : Prop := ∀ a t, s = a ++ '\n' :: t → ¬ BeginsImport t

/-- No import begins on any line. -/
def NoImport (s : List Char) : Prop := ¬ BeginsImport s ∧ NoImportBelow s

/-- Whole lines. The word alone on a line is taken together with the line after it. -/
inductive WholeLines : List Char → Prop
  /-- no line -/
  | nil : WholeLines []
  /-- a line that is not the word alone -/
  | line {l a : List Char} (hl : '\n' ∉ l) (hword : l ≠ "import".toList) (ha : WholeLines a) :
    WholeLines (l ++ '\n' :: a)
  /-- the word alone and the line after it -/
  | pair {l a : List Char} (hl : '\n' ∉ l) (ha : WholeLines a) :
    WholeLines (("import\n".toList ++ l) ++ '\n' :: a)

/-- The last import line of the text ends after `before`, and `rest` follows. -/
structure LastImport (s before rest : List Char) : Prop where
  /-- the parts of the text -/
  split : s = before ++ rest
  /-- the text before ends with an import line -/
  ends : ∃ above line, before = above ++ line ∧ WholeLines above ∧ ImportLine line
  /-- the line ends there -/
  closed : EndsLineBefore rest
  /-- it is the last one -/
  last : NoImportBelow rest

theorem ImportLine.begins (h : ImportLine line) (rest : List Char) : BeginsImport (line ++ rest) := by
  obtain ⟨c, tail, hc, -, rfl⟩ := h
  exact ⟨c, tail ++ rest, hc, by simp⟩

theorem WholeLines.append (ha : WholeLines a) (hb : WholeLines b) : WholeLines (a ++ b) := by
  induction ha with
  | nil => exact hb
  | line hl hword _ ih =>
    rw [List.append_assoc, List.cons_append]
    exact .line hl hword ih
  | pair hl _ ih =>
    rw [List.append_assoc, List.cons_append]
    exact .pair hl ih

/-- A line may begin after whole lines. -/
theorem WholeLines.eq_nil_or (h : WholeLines s) : s = [] ∨ ∃ a, s = a ++ ['\n'] := by
  have hconcat {l a : List Char} (ih : a = [] ∨ ∃ b, a = b ++ ['\n']) :
      ∃ b, l ++ '\n' :: a = b ++ ['\n'] := by
    rcases ih with rfl | ⟨b, rfl⟩
    · exact ⟨l, rfl⟩
    · exact ⟨l ++ '\n' :: b, by simp⟩
  induction h with
  | nil => exact .inl rfl
  | line _ _ _ ih => exact .inr (hconcat ih)
  | pair _ _ ih => exact .inr (hconcat ih)

/-- An import line with its newline is a whole line. -/
theorem ImportLine.wholeLines (h : ImportLine line) : WholeLines (line ++ ['\n']) := by
  obtain ⟨c, tail, hc, htail, rfl⟩ := h
  by_cases hnewline : c = '\n'
  · subst hnewline
    exact .pair htail .nil
  · refine .line ?_ (by simp) .nil
    simp only [List.mem_append, List.mem_cons, not_or]
    exact ⟨by decide, Ne.symm hnewline, htail⟩

/-- A line on which an import begins is an import line, unless it is the word alone. -/
theorem importLine_of_begins (hl : '\n' ∉ l) (hword : l ≠ "import".toList)
    (h : BeginsImport (l ++ '\n' :: s)) : ImportLine l := by
  obtain ⟨c, tail, hc, h⟩ := h
  by_cases hnewline : c = '\n'
  · subst hnewline
    exact absurd (append_cons_inj_of_not_mem h hl (by decide)).1 hword
  · have hstart : '\n' ∉ "import".toList ++ [c] := by
      rw [List.mem_append, List.mem_singleton, not_or]
      exact ⟨by decide, Ne.symm hnewline⟩
    obtain ⟨z, rfl⟩ := prefix_of_prefix_append_cons hstart ⟨tail, by rw [h, List.append_assoc]; rfl⟩
    exact ⟨c, z, hc, fun hmem => hl (by simp [hmem]), by simp⟩

/-- Whole lines before a text do not change its last import line. -/
theorem LastImport.append (h : LastImport s before rest) (ha : WholeLines a) :
    LastImport (a ++ s) (a ++ before) rest := by
  obtain ⟨rfl, ⟨above, line, rfl, habove, himport⟩, hclosed, hlast⟩ := h
  exact ⟨by simp, ⟨a ++ above, line, by simp, ha.append habove, himport⟩, hclosed, hlast⟩

/-- A text with a last import line has an import. -/
theorem LastImport.not_noImport (h : LastImport s before rest) : ¬ NoImport s := by
  obtain ⟨above, line, rfl, habove, himport⟩ := h.ends
  rintro ⟨hfirst, hbelow⟩
  rw [h.split, List.append_assoc] at hfirst hbelow
  rcases habove.eq_nil_or with rfl | ⟨a, rfl⟩
  · exact hfirst (himport.begins rest)
  · exact hbelow a (line ++ rest) (by simp) (himport.begins rest)

/-- No import begins below a line if none begins on the lines after it. -/
theorem noImportBelow_append_iff (hl : '\n' ∉ l) :
    NoImportBelow (l ++ '\n' :: s) ↔ NoImport s := by
  constructor
  · intro h
    refine ⟨h l s rfl, fun a t hs => h (l ++ '\n' :: a) t ?_⟩
    rw [hs, List.append_assoc, List.cons_append]
  · rintro ⟨hfirst, hbelow⟩ a t heq
    rcases append_cons_cases heq hl with ⟨-, rfl⟩ | ⟨x, -, rfl⟩
    · exact hfirst
    · exact hbelow x t rfl

/-- A text is one line, or a line and the lines after it. -/
theorem line_cases (s : List Char) : '\n' ∉ s ∨ ∃ l t, '\n' ∉ l ∧ s = l ++ '\n' :: t := by
  by_cases h : '\n' ∈ s
  · obtain ⟨l, t, rfl, hl⟩ := List.eq_append_cons_of_mem h
    exact .inr ⟨l, t, hl, rfl⟩
  · exact .inl h

/-! ## The search for the last import line -/

theorem importLine?_eq_some_iff : importLine? s = some (line, rest) ↔
    ImportLine line ∧ s = line ++ rest ∧ EndsLineBefore rest := by
  constructor
  · intro h
    obtain ⟨hs, hrest⟩ := importLine?_eq_some h
    refine ⟨?_, hs, hrest⟩
    unfold importLine? at h
    split at h
    · rename_i c tail hword
      split at h
      · cases h
        exact ⟨c, _, ‹_›, fun hmem => by simpa using List.mem_takeWhile_imp hmem, rfl⟩
      · cases h
    · cases h
  · rintro ⟨⟨c, tail, hc, htail, rfl⟩, rfl, hrest⟩
    have hpos := forall_bne_of_not_mem htail
    have hstop : ∀ d ∈ rest.head?, (d != '\n') = false := by
      rcases hrest with rfl | ⟨rest, rfl⟩ <;> simp
    unfold importLine?
    rw [List.append_assoc, literal?_append]
    simp only [List.cons_append, hc, if_true]
    rw [takeWhile_append_of_stop hpos hstop, dropWhile_append_of_stop hpos hstop]

theorem importLine?_eq_none_iff : importLine? s = none ↔ ¬ BeginsImport s := by
  constructor
  · rintro h ⟨c, tail, hc, rfl⟩
    unfold importLine? at h
    rw [literal?_append] at h
    simp [hc] at h
  · intro h
    refine Option.eq_none_iff_forall_ne_some.2 fun ⟨line, rest⟩ hread => ?_
    obtain ⟨himport, rfl, -⟩ := importLine?_eq_some_iff.1 hread
    exact h (himport.begins rest)

theorem splitAfterImports?_line (hl : '\n' ∉ l) : splitAfterImports? false l = none := by
  induction l with
  | nil => rw [splitAfterImports?]; rfl
  | cons c l ih =>
    simp only [List.mem_cons, not_or] at hl
    have hc : (c == '\n') = false := by simpa using Ne.symm hl.1
    rw [splitAfterImports?]
    simp [hc, ih hl.2]

/-- Behind the start of a line the search goes on at the next line. -/
theorem splitAfterImports?_append (hl : '\n' ∉ l) (s : List Char) :
    splitAfterImports? false (l ++ '\n' :: s) =
      (splitAfterImports? true s).map fun (b, a) => (l ++ '\n' :: b, a) := by
  induction l with
  | nil =>
    rw [List.nil_append, splitAfterImports?]
    simp
  | cons c l ih =>
    simp only [List.mem_cons, not_or] at hl
    have hc : (c == '\n') = false := by simpa using Ne.symm hl.1
    rw [List.cons_append, splitAfterImports?]
    simp [hc, ih hl.2, Function.comp_def]

/-- Where no import begins, nothing happens at the start of a line. -/
theorem splitAfterImports?_of_not_begins (h : ¬ BeginsImport s) :
    splitAfterImports? true s = splitAfterImports? false s := by
  rw [splitAfterImports?.eq_def, splitAfterImports?.eq_def, if_pos rfl, importLine?_eq_none_iff.2 h]
  rfl

/-- An import line is the last one, or the search goes on behind it. -/
theorem splitAfterImports?_import (himport : ImportLine line) (hrest : EndsLineBefore rest) :
    splitAfterImports? true (line ++ rest) =
      match splitAfterImports? false rest with
      | some (b, a) => some (line ++ b, a)
      | none => some (line, rest) := by
  have hlength : rest.length < (line ++ rest).length := by
    obtain ⟨c, tail, -, -, rfl⟩ := himport
    simp
    omega
  rw [splitAfterImports?.eq_def, if_pos rfl, importLine?_eq_some_iff.2 ⟨himport, rfl, hrest⟩]
  exact dif_pos hlength

/-- An import line that ends with a newline is the last one, or the search goes on at the next line. -/
theorem splitAfterImports?_import_cons (himport : ImportLine line) (s : List Char) :
    splitAfterImports? true (line ++ '\n' :: s) =
      match splitAfterImports? true s with
      | some (b, a) => some (line ++ '\n' :: b, a)
      | none => some (line, '\n' :: s) := by
  rw [splitAfterImports?_import himport (.inr ⟨s, rfl⟩), ← List.nil_append ('\n' :: s),
    splitAfterImports?_append List.not_mem_nil]
  cases splitAfterImports? true s <;> rfl

/-- What the search finds is the last import line, and it finds one if there is any. -/
theorem splitAfterImports?_spec (s : List Char) :
    (splitAfterImports? true s = none → NoImport s) ∧
      ∀ before rest, splitAfterImports? true s = some (before, rest) → LastImport s before rest := by
  induction hlength : s.length using Nat.strong_induction_on generalizing s with
  | _ length ih =>
    by_cases hbegins : BeginsImport s
    · obtain ⟨⟨line, rest⟩, hread⟩ := Option.ne_none_iff_exists'.1
        fun hnone => importLine?_eq_none_iff.1 hnone hbegins
      obtain ⟨himport, rfl, hrest⟩ := importLine?_eq_some_iff.1 hread
      have hline (hlast : NoImportBelow rest) : LastImport (line ++ rest) line rest :=
        ⟨rfl, ⟨[], line, rfl, .nil, himport⟩, hrest, hlast⟩
      rcases hrest with rfl | ⟨t, rfl⟩
      · rw [splitAfterImports?_import himport (.inl rfl), splitAfterImports?_line List.not_mem_nil]
        refine ⟨nofun, fun before rest h => ?_⟩
        cases h
        exact hline fun a t h => by simp at h
      · rw [splitAfterImports?_import_cons himport]
        obtain ⟨hnone, hsome⟩ := ih t.length (by rw [← hlength]; simp; omega) t rfl
        cases hsplit : splitAfterImports? true t with
        | none =>
          refine ⟨nofun, fun before rest h => ?_⟩
          cases h
          exact hline ((noImportBelow_append_iff (l := []) List.not_mem_nil).2 (hnone hsplit))
        | some found =>
          refine ⟨nofun, fun before rest h => ?_⟩
          cases h
          simpa using (hsome _ _ hsplit).append himport.wholeLines
    · rw [splitAfterImports?_of_not_begins hbegins]
      rcases line_cases s with hs | ⟨l, t, hl, rfl⟩
      · rw [splitAfterImports?_line hs]
        exact ⟨fun _ => ⟨hbegins, fun a t h => absurd (h ▸ hs) (by simp)⟩, nofun⟩
      · have hword : l ≠ "import".toList := by
          rintro rfl
          exact hbegins ⟨'\n', t, by decide, rfl⟩
        rw [splitAfterImports?_append hl]
        obtain ⟨hnone, hsome⟩ := ih t.length (by rw [← hlength]; simp; omega) t rfl
        cases hsplit : splitAfterImports? true t with
        | none => exact ⟨fun _ => ⟨hbegins, (noImportBelow_append_iff hl).2 (hnone hsplit)⟩, nofun⟩
        | some found =>
          refine ⟨nofun, fun before rest h => ?_⟩
          cases h
          simpa using (hsome _ _ hsplit).append (.line hl hword .nil)

theorem splitAfterImports?_eq_none_iff : splitAfterImports? true s = none ↔ NoImport s := by
  refine ⟨(splitAfterImports?_spec s).1, fun h => ?_⟩
  refine Option.eq_none_iff_forall_ne_some.2 fun ⟨before, rest⟩ hsplit => ?_
  exact ((splitAfterImports?_spec s).2 _ _ hsplit).not_noImport h

/-- Whole lines are passed on the way to the last import line. -/
theorem WholeLines.splitAfterImports?_eq_some (h : WholeLines above)
    (hs : splitAfterImports? true s = some (before, rest)) :
    splitAfterImports? true (above ++ s) = some (above ++ before, rest) := by
  have hpass {line a : List Char} (himport : ImportLine line)
      (ih : splitAfterImports? true (a ++ s) = some (a ++ before, rest)) :
      splitAfterImports? true ((line ++ '\n' :: a) ++ s) =
        some ((line ++ '\n' :: a) ++ before, rest) := by
    rw [List.append_assoc, List.cons_append, splitAfterImports?_import_cons himport, ih]
    simp
  induction h with
  | nil => exact hs
  | @line l a hl hword _ ih =>
    by_cases hbegins : BeginsImport (l ++ '\n' :: (a ++ s))
    · exact hpass (importLine_of_begins hl hword hbegins) ih
    · rw [List.append_assoc, List.cons_append, splitAfterImports?_of_not_begins hbegins,
        splitAfterImports?_append hl, ih]
      simp
  | @pair l a hl _ ih => exact hpass ⟨'\n', l, by decide, hl, rfl⟩ ih

/-- **The search finds the last import line.** -/
theorem splitAfterImports?_eq_some_iff :
    splitAfterImports? true s = some (before, rest) ↔ LastImport s before rest := by
  refine ⟨(splitAfterImports?_spec s).2 before rest, ?_⟩
  rintro ⟨rfl, ⟨above, line, rfl, habove, himport⟩, hclosed, hlast⟩
  rw [List.append_assoc]
  refine habove.splitAfterImports?_eq_some ?_
  rcases hclosed with rfl | ⟨t, rfl⟩
  · rw [splitAfterImports?_import himport (.inl rfl), splitAfterImports?_line List.not_mem_nil]
  · rw [splitAfterImports?_import_cons himport, splitAfterImports?_eq_none_iff.2
      ((noImportBelow_append_iff (l := []) List.not_mem_nil).1 hlast)]

/-! ## What is inserted -/

/-- What is inserted begins with a line that is missing in the text. -/
theorem exists_insertion_eq (h : missing content lines ≠ []) :
    ∃ line ∈ missing content lines, ∃ more, EndsLineBefore more ∧
      insertion content lines = '\n' :: (line.toList ++ more) := by
  unfold insertion
  obtain ⟨line, others, heq⟩ := List.exists_cons_of_ne_nil h
  rw [heq]
  refine ⟨line, .head _, others.flatMap fun line => '\n' :: line.toList, ?_, rfl⟩
  cases others with
  | nil => exact .inl rfl
  | cons second others => exact .inr ⟨_, rfl⟩

/-- What is inserted cannot change places with text that goes on below a line: else the first of the
inserted lines would be a line of the text already. -/
theorem eq_nil_of_insertion_append_comm (h : missing content lines ≠ [])
    (hlines : ∀ line ∈ lines, Findable line) (hcontent : content.toList = before ++ (more ++ below))
    (hmore : EndsLineBefore (more ++ below)) (hbelow : EndsLineBefore below)
    (hcomm : insertion content lines ++ more = more ++ insertion content lines) : more = [] := by
  obtain ⟨line, hline, tail, htail, hinsertion⟩ := exists_insertion_eq h
  obtain ⟨hmem, hnot⟩ := mem_missing_iff.1 hline
  obtain ⟨hne, hunbroken⟩ := hlines line hmem
  have hnewline : '\n' ∉ line.toList := fun hmem => absurd (hunbroken _ hmem) (by decide)
  by_contra hnil
  obtain ⟨c, m, rfl⟩ := List.exists_cons_of_ne_nil hnil
  obtain rfl : c = '\n' := by
    rcases hmore with hmore | ⟨rest, hmore⟩
    · cases hmore
    · exact (List.cons.inj hmore).1
  obtain ⟨x, hx⟩ : ∃ x, tail ++ '\n' :: m = '\n' :: x := by
    rcases htail with rfl | ⟨tail, rfl⟩
    · exact ⟨m, rfl⟩
    · exact ⟨tail ++ '\n' :: m, rfl⟩
  rw [hinsertion, List.cons_append, List.cons_append, List.append_assoc, hx, List.cons.injEq] at hcomm
  obtain ⟨z, rfl, hz⟩ : ∃ z, m = line.toList ++ z ∧ BeginsBreak z := by
    rcases append_cons_cases hcomm.2 hnewline with ⟨rfl, -⟩ | ⟨t, rfl, -⟩
    · exact ⟨[], by simp, beginsBreak_nil⟩
    · exact ⟨'\n' :: t, rfl, beginsBreak_cons.2 (by decide)⟩
  refine hnot ((mem_breakLines_iff hne).2 ⟨hunbroken, before ++ ['\n'], z ++ below, ?_, ?_, ?_⟩)
  · rw [hcontent]
    simp
  · exact endsLine_concat.2 (by decide)
  · exact hz.append hbelow.beginsBreak

/-- **The missing lines stand behind the last import line**, in their order, and nothing else is changed;
a text without imports is refused. So the lines stand behind an import that begins on this line exactly
if no more of it follows the line. -/
theorem inserted_behind_last_line (h : missing content lines ≠ []) :
    (insertImports content lines = .error ⟨importPattern, 0⟩ ↔ NoImport content.toList) ∧
      ∀ above opening more below, LastImport content.toList (above ++ opening) (more ++ below) →
        ∃ text, insertImports content lines = .ok text ∧
          text.toList = above ++ (opening ++ (insertion content lines ++ (more ++ below))) ∧
          ((∀ line ∈ lines, Findable line) → EndsLineBefore below →
            (text.toList = above ++ ((opening ++ more) ++ (insertion content lines ++ below)) ↔
              more = [])) := by
  rw [insertImports_eq h]
  constructor
  · rw [← splitAfterImports?_eq_none_iff]
    cases splitAfterImports? true content.toList <;> simp
  · intro above opening more below hlast
    rw [splitAfterImports?_eq_some_iff.2 hlast]
    refine ⟨_, rfl, by simp, fun hlines hbelow => ⟨fun htext => ?_, ?_⟩⟩
    · refine eq_nil_of_insertion_append_comm h hlines hlast.split hlast.closed hbelow ?_
      simp only [String.toList_ofList, List.append_assoc, List.append_cancel_left_eq] at htext
      rw [← List.append_assoc, ← List.append_assoc] at htext
      exact List.append_cancel_right htext
    · rintro rfl
      simp

/-- A line is inserted behind the last of two imports, which end with their lines. -/
theorem inserted_behind_last_line_whole :
    missing "import vue from 'v'\nimport b from 'b'\n" ["import b from 'b'", "import a from 'a'"] ≠ [] ∧
      LastImport "import vue from 'v'\nimport b from 'b'\n".toList
        ("import vue from 'v'\n".toList ++ "import b from 'b'".toList) ([] ++ ['\n']) ∧
      ∃ text, insertImports "import vue from 'v'\nimport b from 'b'\n"
          ["import b from 'b'", "import a from 'a'"] = .ok text ∧
        text.toList = "import vue from 'v'\n".toList ++ (("import b from 'b'".toList ++ []) ++
          ("\nimport a from 'a'".toList ++ ['\n'])) := by
  have hmissing : missing "import vue from 'v'\nimport b from 'b'\n"
      ["import b from 'b'", "import a from 'a'"] ≠ [] := by decide +kernel
  have hlast : LastImport "import vue from 'v'\nimport b from 'b'\n".toList
      ("import vue from 'v'\n".toList ++ "import b from 'b'".toList) ([] ++ ['\n']) := by
    rw [← splitAfterImports?_eq_some_iff]
    decide +kernel
  obtain ⟨text, hinsert, -, htext⟩ := (inserted_behind_last_line hmissing).2 _ _ _ _ hlast
  refine ⟨hmissing, hlast, text, hinsert, ?_⟩
  rw [(htext (by decide) (.inr ⟨[], rfl⟩)).2 rfl]
  decide +kernel

/-- **An import that goes on below its first line is cut in two** by the inserted line. -/
theorem not_behind_spread_import :
    ∃ content above opening more below,
      content = "import \x7b\n  defineConfig,\n\x7d from 'vite'\nexport default 1\n" ∧
      above = [] ∧ opening = "import \x7b".toList ∧
      more = "\n  defineConfig,\n\x7d from 'vite'".toList ∧ below = "\nexport default 1\n".toList ∧
      LastImport content.toList (above ++ opening) (more ++ below) ∧
      insertImports content ["import a from 'a'"] =
        .ok "import \x7b\nimport a from 'a'\n  defineConfig,\n\x7d from 'vite'\nexport default 1\n" ∧
      insertImports content ["import a from 'a'"] ≠
        .ok (String.ofList (above ++ ((opening ++ more) ++
          ("\nimport a from 'a'".toList ++ below)))) := by
  refine ⟨_, _, _, _, _, rfl, rfl, rfl, rfl, rfl, ?_, ?_, ?_⟩
  · rw [← splitAfterImports?_eq_some_iff]
    decide +kernel
  · decide +kernel
  · decide +kernel

end Scaffold.BuildConfig
