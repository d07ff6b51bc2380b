import Scaffold.Proofs.BuildConfig.Imports
import Scaffold.Proofs.Text.Pattern

/-!
# Imports as lines

Imports are inserted as lines: of a text that is cut at its newlines, no line is changed, and the
missing lines stand together below the line on which the last import ends.

* **The last import** is what a search for import lines finds last. The blank behind the word may be a
  newline, so it may end on the line below the one on which it begins.
* **Two notions of a line.** Whether a line is missing is asked of all line breaks, and it is put in
  between newlines. For lines without line breaks both come to the same in the text that results.
* **Once.** So what was asked for is there, and asking again for any of it changes nothing.
-/

namespace Scaffold.BuildConfig

open Text Pattern

variable {content text : String} {lines : List String} {s before rest line : List Char}
  {lineStart : Bool}

/-! ## The search for import lines -/

/-- What import lines are searched for. -/
def importSearch : Pattern :=
  seqs [.lineStart, literal "import".toList, .one isBlank, .most (· != '\n'), .lineEnd]

variable {α : Type} {go : Place → Entries (List Char) → Option α} {x : α}

/-- How the search goes on behind the word: with a blank and the rest of the line. -/
theorem read_importSearch (s : List Char) :
    importSearch.read ⟨true, "import".toList ++ s⟩ [] go =
      match s with
      | [] => none
      | c :: s =>
        if isBlank c then readMost (· != '\n') (fun t => Pattern.lineEnd.read t [] go) (c == '\n') s
        else none := by
  change (literal "import".toList).read ⟨true, "import".toList ++ s⟩ [] (fun t groups =>
    (seqs [.one isBlank, .most (· != '\n'), .lineEnd]).read t groups go) = _
  rw [read_literal_append]
  cases s <;> rfl

/-- The rest of a line is read up to its end. -/
theorem readMost_line (hline : '\n' ∉ line) (hrest : EndsLineBefore rest)
    (h : go (behind lineStart line rest) [] = some x) :
    readMost (· != '\n') (fun t => Pattern.lineEnd.read t [] go) lineStart (line ++ rest) = some x := by
  refine readMost_of_stop (forall_bne_of_not_mem hline) ?_ ?_
  · rcases hrest with rfl | ⟨t, rfl⟩ <;> simp
  · rcases hrest with rfl | ⟨t, rfl⟩ <;> exact h

/-- The search reads what begins at the start of a line. -/
theorem importSearch_at? (lineStart : Bool) (s : List Char) :
    importSearch.at? ⟨lineStart, s⟩ =
      (if lineStart then importLine? s else none).map fun (line, rest) =>
        ⟨line, [], behind lineStart line rest⟩ := by
  cases lineStart with
  | false => rfl
  | true =>
    rw [if_pos rfl]
    cases hread : importLine? s with
    | none =>
      refine Option.eq_none_iff_forall_ne_some.2 fun m hm => importLine?_eq_none_iff.1 hread ?_
      obtain ⟨t, rfl, -⟩ := exists_of_read_literal hm
      rw [Pattern.at?, read_importSearch] at hm
      cases t with
      | nil => cases hm
      | cons c t =>
        refine ⟨c, t, ?_, rfl⟩
        by_contra hc
        simp [hc] at hm
    | some found =>
      obtain ⟨line, rest⟩ := found
      obtain ⟨⟨c, tail, hc, htail, rfl⟩, rfl, hrest⟩ := importLine?_eq_some_iff.1 hread
      have hupTo := Place.upTo_of_eq_append (a := ⟨true, "import".toList ++ (c :: (tail ++ rest))⟩)
        (b := behind true ("import".toList ++ c :: tail) rest) ("import".toList ++ c :: tail)
        (by simp [behind])
      rw [Pattern.at?, List.append_assoc, List.cons_append, read_importSearch]
      simp only [hc, if_true]
      refine readMost_line htail hrest ?_
      exact congrArg (fun text => some (Found.mk text [] _)) hupTo

theorem length_lt_of_importLine?
    (h : (if lineStart then importLine? s else none) = some (line, rest)) :
    rest.length < s.length := by
  split at h
  · obtain ⟨⟨c, tail, -, -, rfl⟩, rfl, -⟩ := importLine?_eq_some_iff.1 h
    simp
    omega
  · cases h

/-- At the end of a line it does not matter whether a line starts there too. -/
theorem cut_importSearch_endsLine {pieces : List Stretch} (hrest : EndsLineBefore rest)
    (h : Cut importSearch ⟨false, rest⟩ pieces) (lineStart : Bool) :
    Cut importSearch ⟨lineStart, rest⟩ pieces := by
  have hnone (lineStart : Bool) : importSearch.at? ⟨lineStart, rest⟩ = none := by
    have hread : importLine? rest = none := by
      rcases hrest with rfl | ⟨t, rfl⟩ <;> rfl
    rw [importSearch_at?, hread, ite_self]
    rfl
  cases h with
  | done => exact .done (hnone _)
  | found h => exact absurd ((hnone _).symm.trans h) nofun
  | plain _ hcut => exact .plain (hnone _) hcut

/-- The search for import lines finds what the split finds. -/
theorem exists_cut_importSearch (lineStart : Bool) (s : List Char) :
    ∃ pieces, Cut importSearch ⟨lineStart, s⟩ pieces ∧
      behindLast? pieces = (splitAfterImports? lineStart s).map Prod.snd := by
  have hfound {lineStart : Bool} {s line rest : List Char} {pieces : List Stretch}
      (hread : (if lineStart then importLine? s else none) = some (line, rest))
      (hcut : Cut importSearch ⟨false, rest⟩ pieces) :
      Cut importSearch ⟨lineStart, s⟩ (.found ⟨line, [], behind lineStart line rest⟩ :: pieces) := by
    obtain ⟨rfl, hrest⟩ := importLine?_of_lineStart hread
    have hlt := length_lt_of_importLine? hread
    refine .found ?_ ?_ (cut_importSearch_endsLine hrest hcut _)
    · rw [importSearch_at?, hread]
      rfl
    · rintro rfl
      exact lt_irrefl _ hlt
  have hplain {lineStart : Bool} {s : List Char}
      (hread : (if lineStart then importLine? s else none) = none) :
      importSearch.at? ⟨lineStart, s⟩ = none := by
    rw [importSearch_at?, hread]
    rfl
  fun_induction splitAfterImports? lineStart s with
  | case1 lineStart s line rest hread hlt before after hmore ih =>
    obtain ⟨pieces, hcut, hlast⟩ := ih
    refine ⟨_, hfound hread hcut, ?_⟩
    rw [behindLast?, hlast, hmore]
    rfl
  | case2 lineStart s line rest hread hlt hmore ih =>
    obtain ⟨pieces, hcut, hlast⟩ := ih
    refine ⟨_, hfound hread hcut, ?_⟩
    rw [behindLast?, hlast, hmore]
    rfl
  | case3 lineStart s line rest hread hlt =>
    exact absurd (length_lt_of_importLine? hread) hlt
  | case4 lineStart hread => exact ⟨[], .done (hplain hread), rfl⟩
  | case5 lineStart c s hread ih =>
    obtain ⟨pieces, hcut, hlast⟩ := ih
    refine ⟨.plain c :: pieces, .plain (hplain hread) hcut, ?_⟩
    rw [behindLast?, hlast, Option.map_map]
    rfl

/-! ## Lines -/

/-- The lines below the end of a line do not depend on what stands above. -/
theorem exists_lines_below (hrest : EndsLineBefore rest) :
    ∃ below, ∀ above : List Char, (above ++ rest).splitOn '\n' = above.splitOn '\n' ++ below := by
  rcases hrest with rfl | ⟨t, rfl⟩
  · exact ⟨[], fun above => by simp⟩
  · exact ⟨t.splitOn '\n', fun above => List.splitOn_append_cons_self above t⟩

/-- Lines that are inserted at the end of a line stand below it. -/
theorem splitOn_insert {inserted below : List (List Char)} (hinserted : ∀ l ∈ inserted, '\n' ∉ l)
    (hbelow : ∀ above : List Char, (above ++ rest).splitOn '\n' = above.splitOn '\n' ++ below)
    (above : List Char) :
    (above ++ (inserted.flatMap ('\n' :: ·) ++ rest)).splitOn '\n' =
      above.splitOn '\n' ++ (inserted ++ below) := by
  induction inserted generalizing above with
  | nil => exact hbelow above
  | cons l inserted ih =>
    obtain ⟨hl, hinserted⟩ := List.forall_mem_cons.1 hinserted
    rw [List.flatMap_cons, List.append_assoc, List.cons_append, List.splitOn_append_cons_self,
      ih hinserted, List.splitOn_eq_singleton hl]
    rfl

/-- A line between line breaks of any kind is one between newlines, if there are no others. -/
theorem mem_splitOn_of_isLine (h : IsLine line s) (hs : ∀ c ∈ s, isLineBreak c = true → c = '\n') :
    line ∈ s.splitOn '\n' := by
  obtain ⟨hunbroken, a, b, rfl, ha, hb⟩ := h
  have hline : line.splitOn '\n' = [line] :=
    List.splitOn_eq_singleton fun hmem => absurd (hunbroken _ hmem) (by decide)
  have hfirst : line ∈ (line ++ b).splitOn '\n' := by
    cases b with
    | nil => simp [hline]
    | cons c b =>
      obtain rfl := hs c (by simp) (beginsBreak_cons.1 hb)
      rw [List.splitOn_append_cons_self, hline]
      exact .head _
  rcases List.eq_nil_or_concat a with rfl | ⟨a, c, rfl⟩
  · exact hfirst
  · rw [List.concat_eq_append] at ha hs ⊢
    obtain rfl := hs c (by simp) (endsLine_concat.1 ha)
    rw [List.append_assoc, List.singleton_append, List.splitOn_append_cons_self]
    exact List.mem_append_right _ hfirst

/-- The text that is returned, cut at its newlines. -/
theorem exists_lines_of_insertImports (hlines : ∀ line ∈ lines, Findable line)
    (hmissing : missing content lines ≠ []) (h : insertImports content lines = .ok text) :
    ∃ before rest below, splitAfterImports? true content.toList = some (before, rest) ∧
      content.toList = before ++ rest ∧
      content.toList.splitOn '\n' = before.splitOn '\n' ++ below ∧
      text.toList.splitOn '\n' =
        before.splitOn '\n' ++ ((missing content lines).map String.toList ++ below) := by
  rcases insertImports_ok h with ⟨hnone, -⟩ | ⟨before, rest, -, hsplit, htext⟩
  · exact absurd hnone hmissing
  · obtain ⟨hcontent, hrest⟩ := splitAfterImports?_eq_some hsplit
    obtain ⟨below, hbelow⟩ := exists_lines_below hrest
    have hinserted : ∀ l ∈ (missing content lines).map String.toList, '\n' ∉ l := by
      intro l hl hnewline
      obtain ⟨line, hline, rfl⟩ := List.mem_map.1 hl
      exact absurd ((hlines line (mem_missing_iff.1 hline).1).2 _ hnewline) (by decide)
    refine ⟨before, rest, below, hsplit, hcontent, hcontent ▸ hbelow before, ?_⟩
    rw [htext, insertion_eq, splitOn_insert hinserted hbelow]

/-- The lines of the text are there still, and those that were missing are there now. -/
theorem mem_lines_of_insertImports (hlines : ∀ line ∈ lines, Findable line)
    (h : insertImports content lines = .ok text) :
    (∀ l ∈ content.toList.splitOn '\n', l ∈ text.toList.splitOn '\n') ∧
      ∀ line ∈ missing content lines, line.toList ∈ text.toList.splitOn '\n' := by
  by_cases hmissing : missing content lines = []
  · rw [insertImports_of_nothing_missing hmissing] at h
    cases h
    simp [hmissing]
  · obtain ⟨before, rest, below, -, -, hold, hnew⟩ := exists_lines_of_insertImports hlines hmissing h
    rw [hold, hnew]
    refine ⟨fun l hl => ?_, fun line hline => ?_⟩
    · rcases List.mem_append.1 hl with hl | hl
      · exact List.mem_append_left _ hl
      · exact List.mem_append_right _ (List.mem_append_right _ hl)
    · exact List.mem_append_right _ (List.mem_append_left _ (List.mem_map_of_mem hline))

/-- **Imports are inserted once, as lines below the last import.** A text is refused exactly if some of
the lines is missing and the search for import lines finds nothing. In the text that is returned the
missing lines stand together, in their order, below the line on which the last import ends, and above
and below them are the lines of the text as they were. Every line is there then, between newlines too
if those are the only line breaks, and inserting any of the lines again changes nothing. -/
theorem imports_inserted_once (content : String) (hlines : ∀ line ∈ lines, Findable line) :
    ∃ pieces, Cut importSearch ⟨true, content.toList⟩ pieces ∧
      (∀ fault, insertImports content lines = .error fault ↔
        fault = ⟨importPattern, 0⟩ ∧ missing content lines ≠ [] ∧ behindLast? pieces = none) ∧
      ∀ text, insertImports content lines = .ok text →
        (missing content lines = [] → text = content) ∧
        (missing content lines ≠ [] → ∃ before rest below,
          content.toList = before ++ rest ∧ behindLast? pieces = some rest ∧
          content.toList.splitOn '\n' = before.splitOn '\n' ++ below ∧
          text.toList.splitOn '\n' = before.splitOn '\n' ++
            ((missing content lines).map String.toList ++ below)) ∧
        (∀ line ∈ lines, line.toList ∈ breakLines text.toList) ∧
        ((∀ c ∈ content.toList, isLineBreak c = true → c = '\n') →
          ∀ line ∈ lines, line.toList ∈ text.toList.splitOn '\n') ∧
        ∀ again ⊆ lines, insertImports text again = .ok text := by
  obtain ⟨pieces, hcut, hlast⟩ := exists_cut_importSearch true content.toList
  refine ⟨pieces, hcut, fun fault => ?_, fun text h => ?_⟩
  · by_cases hmissing : missing content lines = []
    · simp [insertImports_of_nothing_missing hmissing, hmissing]
    · rw [insertImports_eq hmissing, hlast]
      cases splitAfterImports? true content.toList <;> simp [hmissing, eq_comm]
  · have hthere := (inserted_insertImports hlines h).2
    refine ⟨fun hmissing => ?_, fun hmissing => ?_, fun line hline => ?_, fun hbreaks line hline => ?_,
      fun again hagain => ?_⟩
    · rw [insertImports_of_nothing_missing hmissing] at h
      exact (Except.ok.inj h).symm
    · obtain ⟨before, rest, below, hsplit, hcontent, hold, hnew⟩ :=
        exists_lines_of_insertImports hlines hmissing h
      exact ⟨before, rest, below, hcontent, by rw [hlast, hsplit]; rfl, hold, hnew⟩
    · exact (mem_breakLines_iff (hlines line hline).1).2 (hthere line hline)
    · obtain ⟨hold, hnew⟩ := mem_lines_of_insertImports hlines h
      by_cases hmem : line ∈ missing content lines
      · exact hnew line hmem
      · rw [mem_missing_iff, not_and_not_right] at hmem
        refine hold _ (mem_splitOn_of_isLine ?_ hbreaks)
        exact (mem_breakLines_iff (hlines line hline).1).1 (hmem hline)
    · exact insertImports_of_isLine fun line hline =>
        ⟨hlines line (hagain hline), hthere line (hagain hline)⟩

/-- Two of three lines are inserted below an import that begins on one line and ends on the next. The
third line is there already, behind a form feed. -/
theorem imports_inserted_once_spread :
    ∃ content text lines, content = "import a from 'a'\nimport\n  b from 'b'\nx\x0cimport c\n" ∧
      text = "import a from 'a'\nimport\n  b from 'b'\nimport d\nimport e\nx\x0cimport c\n" ∧
      lines = ["import d", "import c", "import e"] ∧ (∀ line ∈ lines, Findable line) ∧
      missing content lines = ["import d", "import e"] ∧ insertImports content lines = .ok text ∧
      (∃ before rest below, content.toList = before ++ rest ∧
        text.toList.splitOn '\n' =
          before.splitOn '\n' ++ (["import d".toList, "import e".toList] ++ below)) ∧
      (∀ line ∈ lines, line.toList ∈ breakLines text.toList) ∧
      ∀ again ⊆ lines, insertImports text again = .ok text := by
  have hlines : ∀ line ∈ ["import d", "import c", "import e"], Findable line := by decide
  have hmissing : missing "import a from 'a'\nimport\n  b from 'b'\nx\x0cimport c\n"
      ["import d", "import c", "import e"] = ["import d", "import e"] := by decide +kernel
  have hinsert : insertImports "import a from 'a'\nimport\n  b from 'b'\nx\x0cimport c\n"
      ["import d", "import c", "import e"] =
        .ok "import a from 'a'\nimport\n  b from 'b'\nimport d\nimport e\nx\x0cimport c\n" := by
    decide +kernel
  obtain ⟨pieces, -, -, hreturned⟩ := imports_inserted_once _ hlines
  obtain ⟨-, hput, hthere, -, hagain⟩ := hreturned _ hinsert
  obtain ⟨before, rest, below, hcontent, -, -, htext⟩ := hput (by rw [hmissing]; simp)
  rw [hmissing] at htext
  exact ⟨_, _, _, rfl, rfl, rfl, hlines, hmissing, hinsert, ⟨before, rest, below, hcontent, htext⟩, hthere,
    hagain⟩

end Scaffold.BuildConfig
