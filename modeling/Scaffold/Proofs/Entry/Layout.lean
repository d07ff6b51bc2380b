import Scaffold.Proofs.Entry.Statement
import Scaffold.Proofs.Text.Scan

/-!
# Writing a mount expression

A mount expression may be written with white space between its parts, and with spaces, tabs and a
semicolon behind it. Splitting an entry file undoes this.

* **Written, then split.** Around a written expression a file is split into exactly its parts, as long
  as the text that opens an expression is nowhere else in the file.
* **Split, then written.** A file that is split is the text of its parts, written in some layout.
* **Every other file is refused** with the number of expressions that a scan from left to right reads.
-/

namespace Scaffold

open Text

variable {factory : String} {m : Mount} {s rest after : List Char} {c : Char}

/-- An identifier. -/
def IsIdentifier (s : List Char) : Prop :=
  ∃ c rest, s = c :: rest ∧ isIdentifierStart c = true ∧ ∀ d ∈ rest, isIdentifierChar d = true

/-- The parts of the expression are of the right kind: its root is an identifier, and its selector
stands between quotation marks and has none. -/
structure Mount.WellFormed (m : Mount) : Prop where
  /-- the root component is an identifier -/
  root : IsIdentifier m.root.toList
  /-- the quotation mark is one -/
  quote : isQuote m.quote = true
  /-- the selector has no quotation mark of either kind -/
  selector : ∀ c ∈ m.selector.toList, isQuote c = false

/-- What is free in the way a mount expression is written. -/
structure MountLayout where
  /-- the white space before the root component -/
  beforeRoot : List Char := []
  /-- the white space after it -/
  afterRoot : List Char := []
  /-- the white space before the mounting call -/
  beforeCall : List Char := []
  /-- the white space before the selector -/
  beforeSelector : List Char := []
  /-- the white space after it -/
  afterSelector : List Char := []
  /-- the spaces and tabs behind the expression -/
  spacing : List Char := []
  /-- whether a semicolon follows them -/
  semicolon : Bool := false
  /-- there is nothing but white space between the parts -/
  blank : ∀ part ∈ [beforeRoot, afterRoot, beforeCall, beforeSelector, afterSelector],
    ∀ c ∈ part, isBlank c = true := by decide
  /-- there is nothing but spaces and tabs behind the expression -/
  spaced : ∀ c ∈ spacing, isSpacing c = true := by decide

/-- The text of the expression in a layout. -/
def Mount.written (m : Mount) (w : MountLayout) : String :=
  m.factory ++ "(" ++ String.ofList w.beforeRoot ++ m.root ++ String.ofList w.afterRoot ++ ")" ++
    String.ofList w.beforeCall ++ ".mount(" ++ String.ofList w.beforeSelector ++ m.quote.toString ++
    m.selector ++ m.quote.toString ++ String.ofList w.afterSelector ++ ")" ++
    String.ofList w.spacing ++ (if w.semicolon then ";" else "")

/-- The text after the expression does not go on with what ends its statement. -/
def MountLayout.EndsBefore (w : MountLayout) (after : List Char) : Prop :=
  w.semicolon = false → ∀ c ∈ after.head?, isSpacing c = false ∧ c ≠ ';'

/-- A mount expression is written at the start of the text, and `after` follows its statement. -/
def MountWritten (factory : String) (s after : List Char) : Prop :=
  ∃ (m : Mount) (w : MountLayout), m.factory = factory ∧ m.WellFormed ∧ w.EndsBefore after ∧
    s = (m.written w).toList ++ after

/-! ## Kinds of characters -/

/-- The codes of the white-space characters. -/
def blankCodes : List Nat :=
  [0x09, 0x0A, 0x0B, 0x0C, 0x0D, 0x1C, 0x1D, 0x1E, 0x1F, 0x20, 0x85, 0xA0, 0x1680, 0x2000, 0x2001,
    0x2002, 0x2003, 0x2004, 0x2005, 0x2006, 0x2007, 0x2008, 0x2009, 0x200A, 0x2028, 0x2029, 0x202F,
    0x205F, 0x3000]

theorem toNat_mem_of_isBlank (h : isBlank c = true) : c.toNat ∈ blankCodes := by
  simp only [isBlank, Bool.or_eq_true, Bool.and_eq_true, decide_eq_true_eq, beq_iff_eq] at h
  simp only [blankCodes, List.mem_cons, List.not_mem_nil, or_false]
  omega

/-- An identifier ends before white space. -/
theorem isIdentifierChar_of_isBlank (h : isBlank c = true) : isIdentifierChar c = false := by
  have hcodes : ∀ n ∈ blankCodes, inRanges n alphanumericRanges = false := by decide +kernel
  have hword := hcodes _ (toNat_mem_of_isBlank h)
  have hunderscore : c ≠ '_' := by
    rintro rfl
    revert h
    decide
  have hdollar : c ≠ '$' := by
    rintro rfl
    revert h
    decide
  simp [isIdentifierChar, isWordChar, hword, hunderscore, hdollar]

/-- No identifier has an opening bracket. -/
theorem IsIdentifier.not_mem (h : IsIdentifier s) : '(' ∉ s := by
  obtain ⟨d, rest, rfl, hstart, hrest⟩ := h
  intro hmem
  rcases List.mem_cons.1 hmem with rfl | hmem
  · revert hstart
    decide
  · exact MountText.not_mem_signs_of_isIdentifierChar (hrest _ hmem) (.head _)

/-! ## The end of the statement -/

/-- The semicolon, if there is one. -/
def semicolonText (semicolon : Bool) : List Char := if semicolon then [';'] else []

/-- What ends a statement is skipped as a whole. -/
theorem skipStatementEnd_append {spacing : List Char} {semicolon : Bool}
    (hspacing : ∀ c ∈ spacing, isSpacing c = true)
    (hrest : semicolon = false → ∀ c ∈ rest.head?, isSpacing c = false ∧ c ≠ ';') :
    skipStatementEnd (spacing ++ (semicolonText semicolon ++ rest)) = rest := by
  cases semicolon with
  | true =>
    have hdrop := dropWhile_append_of_stop (t := ';' :: rest) hspacing fun c hc => by
      obtain rfl := Option.some.inj hc
      decide
    rw [skipStatementEnd, semicolonText, if_pos rfl, List.singleton_append, hdrop]
    rfl
  | false =>
    have hdrop := dropWhile_append_of_stop hspacing fun c hc => (hrest rfl c hc).1
    rw [skipStatementEnd, semicolonText, if_neg Bool.false_ne_true, List.nil_append, hdrop]
    split
    · exact absurd rfl (hrest rfl ';' rfl).2
    · rfl

/-- What is skipped is the end of a statement. -/
theorem exists_statementEnd (s : List Char) :
    ∃ spacing semicolon, (∀ c ∈ spacing, isSpacing c = true) ∧
      (semicolon = false → ∀ c ∈ (skipStatementEnd s).head?, isSpacing c = false ∧ c ≠ ';') ∧
      s = spacing ++ (semicolonText semicolon ++ skipStatementEnd s) := by
  have hsplit := List.takeWhile_append_dropWhile (p := isSpacing) (l := s)
  have hspacing : ∀ c ∈ s.takeWhile isSpacing, isSpacing c = true := fun _ hc =>
    List.mem_takeWhile_imp hc
  have hhead := List.head?_dropWhile_not isSpacing s
  unfold skipStatementEnd
  split
  · rename_i rest hrest
    rw [hrest] at hsplit
    exact ⟨_, true, hspacing, nofun, hsplit.symm⟩
  · rename_i hnone
    refine ⟨_, false, hspacing, fun _ c hc => ⟨?_, ?_⟩, hsplit.symm⟩
    · rw [Option.mem_def.1 hc] at hhead
      simpa using hhead
    · rintro rfl
      obtain ⟨rest, hrest⟩ := List.head?_eq_some_iff.1 hc
      exact hnone rest hrest

/-! ## Written expressions -/

namespace Mount

/-- The parts of a written expression. -/
def parts (m : Mount) (hm : m.WellFormed) (w : MountLayout) : MountText where
  beforeRoot := w.beforeRoot
  root := m.root.toList
  afterRoot := w.afterRoot
  beforeCall := w.beforeCall
  beforeSelector := w.beforeSelector
  quote := m.quote
  selector := m.selector.toList
  afterSelector := w.afterSelector
  blank := w.blank
  identifier := hm.root
  rootEnd := by
    intro c hc
    cases hafter : w.afterRoot with
    | nil =>
      rw [hafter] at hc
      obtain rfl : ')' = c := Option.some.inj hc
      decide +kernel
    | cons d after =>
      rw [hafter] at hc
      obtain rfl : d = c := Option.some.inj hc
      exact isIdentifierChar_of_isBlank (w.blank w.afterRoot (by simp) d (by simp [hafter]))
  quoted := hm.quote
  unquoted := hm.selector

theorem mount_parts (hm : m.WellFormed) (w : MountLayout) : (m.parts hm w).mount m.factory = m := by
  simp [parts, MountText.mount]

/-- A written expression consists of its parts and the end of its statement. -/
theorem toList_written (hm : m.WellFormed) (w : MountLayout) :
    (m.written w).toList =
      (m.parts hm w).chars m.factory ++ (w.spacing ++ semicolonText w.semicolon) := by
  have hend : (if w.semicolon then ";" else "").toList = semicolonText w.semicolon := by
    cases w.semicolon <;> rfl
  have hquote : m.quote.toString.toList = [m.quote] := by simp
  -- Not `simp only [written]`: its equation takes seconds to derive.
  delta written
  simp only [parts, MountText.chars, MountText.opening, MountText.closing, String.toList_append,
    String.toList_ofList, hend, hquote, List.append_assoc, List.cons_append, List.nil_append]

/-- **A written expression is read**, and the reading ends with its statement. -/
theorem mount?_written (hm : m.WellFormed) {w : MountLayout} (hafter : w.EndsBefore after) :
    mount? m.factory ((m.written w).toList ++ after) = some (m, after) := by
  rw [toList_written hm, List.append_assoc, MountText.mount?_append, mount_parts, List.append_assoc,
    skipStatementEnd_append w.spaced hafter]

/-- **What is read is a written expression.** -/
theorem exists_written (h : mount? factory s = some (m, after)) :
    m.factory = factory ∧ m.WellFormed ∧ ∃ w : MountLayout, w.EndsBefore after ∧
      s = (m.written w).toList ++ after := by
  obtain ⟨p, stop, rfl, rfl⟩ := MountText.of_mount? h
  have hafter : skipStatementEnd (stop ++ after) = after := by
    rw [p.mount?_append] at h
    exact (Prod.mk.inj (Option.some.inj h)).2
  obtain ⟨spacing, semicolon, hspaced, hends, hstop⟩ := exists_statementEnd (stop ++ after)
  rw [hafter] at hends hstop
  have hm : (p.mount factory).WellFormed :=
    ⟨by simpa [MountText.mount, IsIdentifier] using p.identifier, p.quoted,
      by simpa [MountText.mount] using p.unquoted⟩
  refine ⟨rfl, hm, ⟨p.beforeRoot, p.afterRoot, p.beforeCall, p.beforeSelector, p.afterSelector, spacing,
    semicolon, p.blank, hspaced⟩, hends, ?_⟩
  rw [toList_written hm, hstop, List.append_assoc, List.append_assoc]
  simp [parts, MountText.mount, MountText.chars, MountText.opening, MountText.closing]

theorem reads_mount?_iff : (mount? factory).Reads s after ↔ MountWritten factory s after := by
  constructor
  · rintro ⟨m, h⟩
    obtain ⟨hfactory, hm, w, hafter, hs⟩ := exists_written h
    exact ⟨m, w, hfactory, hm, hafter, hs⟩
  · rintro ⟨m, w, rfl, hm, hafter, hs⟩
    rw [hs]
    exact ⟨m, mount?_written hm hafter⟩

/-- Every expression opens with the name of the factory and a bracket. -/
theorem exists_opening (h : mount? factory s = some (m, after)) :
    ∃ u, s = factory.toList ++ '(' :: u := by
  obtain ⟨rfl, hm, w, -, hs⟩ := exists_written h
  rw [hs, toList_written hm, MountText.chars, MountText.opening]
  simp only [List.append_assoc]
  exact ⟨_, rfl⟩

/-- Nothing is read in a text without the opening of an expression. -/
theorem find?_of_not_infix (h : ¬ factory.toList ++ ['('] <:+: s) :
    find? (mount? factory) s = none := by
  refine find?_eq_none_iff.2 fun t _ ht => ?_
  refine Option.eq_none_iff_forall_ne_some.2 fun ⟨m, after⟩ hread => h ?_
  obtain ⟨u, rfl⟩ := exists_opening hread
  exact List.IsInfix.trans ⟨[], u, by simp⟩ ht.isInfix

/-- No opening of an expression reaches over the start of another one. -/
theorem not_opening_before {y t u : List Char} (hfactory : '(' ∉ factory.toList) (hy : y ≠ [])
    (hhead : ¬ factory.toList ++ ['('] <:+: y) :
    y ++ (factory.toList ++ '(' :: t) ≠ factory.toList ++ '(' :: u := by
  intro heq
  by_cases hmem : '(' ∈ y
  · -- The bracket of the earlier opening is the first one of `y`.
    obtain ⟨y₁, y₂, rfl, hfirst⟩ := List.eq_append_cons_of_mem hmem
    rw [List.append_assoc, List.cons_append] at heq
    obtain ⟨rfl, -⟩ := append_cons_inj_of_not_mem heq hfirst hfactory
    exact hhead ⟨[], y₂, by simp⟩
  · rw [← List.append_assoc] at heq
    have hbefore : '(' ∉ y ++ factory.toList := by simp [hmem, hfactory]
    obtain ⟨hsame, -⟩ := append_cons_inj_of_not_mem heq hbefore hfactory
    exact hy (by simpa using hsame)

/-- **Writing, then splitting**: the file is split into the parts that it was written from. -/
theorem ofText_written {head tail : String} {w : MountLayout} (hm : m.WellFormed)
    (hfactory : IsIdentifier m.factory.toList)
    (hfree : ∀ text ∈ [head, tail], ¬ m.factory.toList ++ ['('] <:+: text.toList)
    (hafter : w.EndsBefore tail.toList) :
    SplitEntry.ofText m.factory (head ++ m.written w ++ tail) = .ok ⟨head, m, tail⟩ := by
  have hread := mount?_written hm hafter
  obtain ⟨u, hu⟩ := exists_opening hread
  have hne : (m.written w).toList ++ tail.toList ≠ [] := by simp [hu]
  have hfind : find? (mount? m.factory) (head ++ m.written w ++ tail).toList =
      some (head.toList, m, tail.toList) := by
    rw [String.toList_append, String.toList_append, List.append_assoc]
    refine find?_append hne hread fun y hy hsuffix => ?_
    refine Option.eq_none_iff_forall_ne_some.2 fun ⟨m', after⟩ hearlier => ?_
    obtain ⟨u', hu'⟩ := exists_opening hearlier
    rw [hu] at hu'
    exact not_opening_before hfactory.not_mem hy
      (fun hin => hfree head (.head _) (hin.trans hsuffix.isInfix)) hu'
  have htail : find? (mount? m.factory) tail.toList = none :=
    find?_of_not_infix (hfree tail (.tail _ (.head _)))
  exact SplitEntry.ofText_eq_ok_iff.2 ⟨hfind, htail⟩

/-- **Splitting, then writing**: a file that is split is the text of its parts. -/
theorem exists_layout {content : String} {e : SplitEntry}
    (h : SplitEntry.ofText factory content = .ok e) :
    e.mount.factory = factory ∧ e.mount.WellFormed ∧ ∃ w : MountLayout, w.EndsBefore e.tail.toList ∧
      content = e.head ++ e.mount.written w ++ e.tail := by
  obtain ⟨t, -, hcontent, hread, -⟩ := find?_eq_some (SplitEntry.ofText_eq_ok_iff.1 h).1
  obtain ⟨hfactory, hm, w, hafter, ht⟩ := exists_written hread
  refine ⟨hfactory, hm, w, hafter, String.toList_injective ?_⟩
  simp only [hcontent, ht, String.toList_append, List.append_assoc]

/-- A reading takes at least the opening of an expression. -/
theorem advances_mount? (factory : String) : (mount? factory).Advances := by
  intro s m after h
  obtain ⟨-, hm, w, -, hs⟩ := exists_written h
  have hne : (m.written w).toList ≠ [] := by
    simp [toList_written hm, MountText.chars]
  rw [hs, List.length_append]
  have := List.length_pos_iff.2 hne
  omega

/-- **A scan for written expressions** counts those that the search finds. -/
theorem scan_written_iff {n : Nat} :
    Scan (MountWritten factory) s n ↔ n = count (mount? factory) s := by
  have hreads : MountWritten factory = (mount? factory).Reads := by
    funext s after
    exact propext reads_mount?_iff.symm
  rw [hreads]
  exact (advances_mount? factory).scan_iff

end Mount

/-- **Splitting an entry file undoes writing its mount expression.** A file written around an expression
is split into the parts that it was written from. Whatever the file, a scan for written expressions has
one number of readings: a file in which it reads one is the text of the parts that it is split into, and
any other file is refused with the number. -/
theorem split_undoes_writing :
    (∀ (m : Mount) (w : MountLayout) (head tail : String), m.WellFormed →
      IsIdentifier m.factory.toList →
      (∀ text ∈ [head, tail], ¬ m.factory.toList ++ ['('] <:+: text.toList) →
      w.EndsBefore tail.toList →
      SplitEntry.ofText m.factory (head ++ m.written w ++ tail) = .ok ⟨head, m, tail⟩) ∧
    ∀ factory content : String, ∃ n, (∀ k, Scan (MountWritten factory) content.toList k ↔ k = n) ∧
      (n = 1 → ∃ (e : SplitEntry) (w : MountLayout), SplitEntry.ofText factory content = .ok e ∧
        e.mount.factory = factory ∧ e.mount.WellFormed ∧ w.EndsBefore e.tail.toList ∧
        content = e.head ++ e.mount.written w ++ e.tail) ∧
      (n ≠ 1 → SplitEntry.ofText factory content = .error ⟨mountForm factory, n⟩) := by
  refine ⟨fun m w head tail hm hfactory hfree hafter => Mount.ofText_written hm hfactory hfree hafter,
    fun factory content => ⟨count (mount? factory) content.toList, fun k => Mount.scan_written_iff, ?_⟩⟩
  rcases (Mount.advances_mount? factory).anchor_cases (mountForm factory) content.toList with
    ⟨hone, head, m, tail, hanchor⟩ | ⟨hnot, hanchor⟩
  · refine ⟨fun _ => ?_, fun hne => absurd hone hne⟩
    have hsplit : SplitEntry.ofText factory content =
        .ok ⟨String.ofList head, m, String.ofList tail⟩ := by
      rw [SplitEntry.ofText, hanchor]
      rfl
    obtain ⟨hfactory, hm, w, hafter, hcontent⟩ := Mount.exists_layout hsplit
    exact ⟨_, w, hsplit, hfactory, hm, hafter, hcontent⟩
  · refine ⟨fun hone => absurd hone hnot, fun _ => ?_⟩
    rw [SplitEntry.ofText, hanchor]
    rfl

/-- An expression whose root is not the usual one. -/
def otherMount : Mount := ⟨"createApp", "Main", "#main", '"'⟩

/-- A layout over several lines, with spaces and tabs at the end. -/
def spreadLayout : MountLayout where
  beforeRoot := ['\n', ' ']
  afterRoot := ['\n']
  beforeCall := ['\n', '\t']
  beforeSelector := [' ']
  afterSelector := ['\n']
  spacing := [' ', '\t']

/-- A file with the expression spread over several lines is split. -/
theorem split_undoes_writing_spread :
    (otherMount.WellFormed ∧ IsIdentifier otherMount.factory.toList) ∧
      (∀ text ∈ ["setup();\n", "\nrun();"],
        ¬ otherMount.factory.toList ++ ['('] <:+: text.toList) ∧
      spreadLayout.EndsBefore "\nrun();".toList ∧
      SplitEntry.ofText otherMount.factory
          ("setup();\n" ++ otherMount.written spreadLayout ++ "\nrun();") =
        .ok ⟨"setup();\n", otherMount, "\nrun();"⟩ := by
  have hm : otherMount.WellFormed :=
    ⟨⟨'M', "ain".toList, rfl, by decide, by decide +kernel⟩, by decide, by decide⟩
  have hfactory : IsIdentifier otherMount.factory.toList :=
    ⟨'c', "reateApp".toList, rfl, by decide, by decide +kernel⟩
  have hfree : ∀ text ∈ ["setup();\n", "\nrun();"],
      ¬ otherMount.factory.toList ++ ['('] <:+: text.toList := by decide
  have hafter : spreadLayout.EndsBefore "\nrun();".toList := by
    intro _ c hc
    obtain rfl : '\n' = c := Option.some.inj hc
    decide
  exact ⟨⟨hm, hfactory⟩, hfree, hafter, split_undoes_writing.1 _ _ _ _ hm hfactory hfree hafter⟩

end Scaffold
