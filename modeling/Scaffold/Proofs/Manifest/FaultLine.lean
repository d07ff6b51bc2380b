import Scaffold.Proofs.Disk.Texts
import Scaffold.Proofs.Json.Faults
import Scaffold.Proofs.Json.Letters
import Scaffold.Proofs.Json.Places
import Scaffold.Manifest.File

/-!
# The line of a syntax fault

A file that is JSON with comments is parsed without them, and a fault is reported by its line in what
is left.

* **The reported line is that of the file** exactly if no block comment before the fault goes over a
  line end. Otherwise the fault lies further down by the line ends in these comments.
* **The fault is the parser's**: the manifest and every other JSON file report it as it is.
-/

namespace Scaffold

open Json (Origin Piece Scanned)

variable {text : String} {fault : Json.SyntaxFault}

theorem ofText_of_fault (h : Json.parseCommented text = .error fault) :
    Manifest.ofText text = .error (.syntaxFault fault) := by
  rw [Manifest.ofText, h]

theorem requireJson_of_fault (h : Json.parseCommented text = .error fault) {path : Path}
    {s : Session} (hreads : Disk.Reads path text s) (feature : Option String) :
    (Disk.requireJson path feature).perform s =
      (.error (.badDocument path (.syntaxFault fault)), s) := by
  rw [Disk.requireJson, Run.perform_bind_of_ok (Disk.perform_require_iff.2 ⟨rfl, hreads⟩), h,
    Run.perform_orFail_error]

/-- A fault of a text with comments lies in what is left of it, and its line is the line there. -/
theorem place_of_parseCommented (h : Json.parseCommented text = .error fault) :
    fault.offset ≤ (Json.stripComments text.toList).length ∧
      fault.line = Json.lineAfter ((Json.stripComments text.toList).take fault.offset) := by
  rw [Json.parseCommented_text] at h
  simpa [Wide.points] using Json.place_of_parse h

/-- **A fault is reported on its line of the file** exactly if no block comment before it goes over a
line end. The same holds of the line of everything that stays, and each character that stays has an
origin in the file. -/
theorem fault_on_line_iff (h : Json.parseCommented text = .error fault) :
    Manifest.ofText text = .error (.syntaxFault fault) ∧
      (∀ path feature s, Disk.Reads path text s →
        (Disk.requireJson path feature).perform s =
          (.error (.badDocument path (.syntaxFault fault)), s)) ∧
      (∃ before after, Origin text.toList fault.offset before after) ∧
      (∀ before after, Origin text.toList fault.offset before after →
        fault.line + (Piece.taken before).count '\n' = Json.lineAfter (Piece.whole before) ∧
          (fault.line = Json.lineAfter (Piece.whole before) ↔
            ∀ content, .comment ('/' :: '*' :: content) ∈ before → '\n' ∉ content)) ∧
      (∀ n ≤ (Json.stripComments text.toList).length,
        ∃ before after, Origin text.toList n before after) ∧
      ∀ n before after, Origin text.toList n before after →
        text.toList[(Piece.whole before).length]? = (Json.stripComments text.toList)[n]? ∧
          (Json.lineAfter ((Json.stripComments text.toList).take n) =
              Json.lineAfter (Piece.whole before) ↔
            ∀ content, .comment ('/' :: '*' :: content) ∈ before → '\n' ∉ content) := by
  obtain ⟨hoffset, hline⟩ := place_of_parseCommented h
  refine ⟨ofText_of_fault h, fun path feature s hreads => requireJson_of_fault h hreads feature,
    Json.exists_origin hoffset, fun before after horigin => ⟨?_, ?_⟩,
    fun n hn => Json.exists_origin hn,
    fun n before after horigin => ⟨horigin.getElem?_eq, horigin.lineAfter_eq_iff⟩⟩
  · rw [Json.lineAfter_whole, horigin.left_eq, hline]
  · rw [hline]
    exact horigin.lineAfter_eq_iff

/-- A line comment and a block comment on one line leave the fault below them on its line. -/
theorem fault_on_line_iff_one_line :
    Json.parseCommented "/* a */ // b\nx" = .error ⟨.expectedValue, 2, 2, 1⟩ ∧
      ∃ before after, Origin "/* a */ // b\nx".toList 2 before after ∧
        2 = Json.lineAfter (Piece.whole before) := by
  have hfault : Json.parseCommented "/* a */ // b\nx" = .error ⟨.expectedValue, 2, 2, 1⟩ := by
    with_unfolding_all rfl
  have hinside : ¬ ['*', '/'] <:+: " a ".toList := by decide
  have hline : Json.IsComment "// b".toList "\nx".toList := .line (by decide) (.inr rfl)
  have hbelow : Scanned "\nx".toList [.kept '\n', .kept 'x'] :=
    .plain (by decide) (by decide) (.plain (by decide) (by decide) .nil)
  have hscanned : Scanned "/* a */ // b\nx".toList
      [.comment "/* a */".toList, .kept ' ', .comment "// b".toList, .kept '\n', .kept 'x'] :=
    .comment (.block _ hinside) (.plain (by decide) (by decide) (.comment hline hbelow))
  have horigin : Origin "/* a */ // b\nx".toList 2
      [.comment "/* a */".toList, .kept ' ', .comment "// b".toList, .kept '\n'] [.kept 'x'] :=
    ⟨hscanned, rfl, nofun⟩
  obtain ⟨-, -, -, hlines, -⟩ := fault_on_line_iff hfault
  refine ⟨hfault, _, _, horigin, (hlines _ _ horigin).2.2 fun content hmem => ?_⟩
  simp only [List.mem_cons, Piece.comment.injEq, reduceCtorEq, List.not_mem_nil, or_false,
    false_or] at hmem
  rcases hmem with hblock | hother
  · cases hblock
    decide
  · cases hother

/-- A block comment that goes over a line end is taken out with the line end, so that the fault behind
it, on the second line, is reported on the first. -/
theorem not_fault_on_line_below_block :
    Json.parseCommented "/*\n*/ x" = .error ⟨.expectedValue, 1, 1, 2⟩ ∧
      ∃ before, Origin "/*\n*/ x".toList 1 before [.kept 'x'] ∧
        Json.lineAfter (Piece.whole before) = 2 := by
  have hinside : ¬ ['*', '/'] <:+: ['\n'] := by decide
  have hbehind : Scanned " x".toList [.kept ' ', .kept 'x'] :=
    .plain (by decide) (by decide) (.plain (by decide) (by decide) .nil)
  have horigin : Origin "/*\n*/ x".toList 1 [.comment "/*\n*/".toList, .kept ' '] [.kept 'x'] :=
    ⟨.comment (.block _ hinside) hbehind, rfl, nofun⟩
  exact ⟨by with_unfolding_all rfl, _, horigin, rfl⟩

end Scaffold
