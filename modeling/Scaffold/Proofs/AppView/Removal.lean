import Scaffold.Entry
import Scaffold.Proofs.AppView.Route

/-!
# The line that goes with the greeting

The patch of the root component removes one line: the first of a kind that the patch looks for.

* **The line that is removed** begins with an import of a name that begins with the name of the
  greeting, and ends with a newline.
* **The line that imports the name** of the greeting may be another one.
* **The text without a line tells the line**: if two lines are the first ones of their kinds, and the
  same text is left without either of them, they are the same line.
-/

namespace Scaffold.AppView

open Text

variable {s text a m w above below row line above' below' row' : List Char}
  {kind kind' : List Char → Prop}

/-! ## Lines of a kind -/

/-- The first line of a kind, with its newline; the last line of a text may be without one. -/
structure FirstRow (kind : List Char → Prop) (s above row below : List Char) : Prop where
  /-- the line and what stands around it -/
  split : s = above ++ (row ++ below)
  /-- a line begins after the text above -/
  begins : MayBegin true above
  /-- the line ends with the only newline of it, or with the text -/
  ends : ∃ line, '\n' ∉ line ∧ (row = line ++ ['\n'] ∨ row = line ∧ below = [])
  /-- the line is of the kind -/
  isKind : kind row
  /-- no line above is -/
  first : ∀ a line b, above = a ++ (line ++ '\n' :: b) → MayBegin true a → '\n' ∉ line →
    ¬ kind (line ++ ['\n'])

/-- The text is left without the first line of a kind, or as it is if it has no such line. -/
def Removed (kind : List Char → Prop) (s text : List Char) : Prop :=
  (∃ above row below, FirstRow kind s above row below ∧ text = above ++ below) ∨
    (¬ ∃ above row below, FirstRow kind s above row below) ∧ text = s

/-- A line with a newline that begins with an import of the greeting, or of a name that goes on. -/
def IsGreetingImport (row : List Char) : Prop := ∃ line, ImportsGreeting line ∧ row = line ++ ['\n']

/-- A line that imports the name of the greeting, which no other character of a name follows. -/
def ImportsName (row : List Char) : Prop :=
  ∃ blanks gap rest,
    row = blanks ++ ("import".toList ++ (gap ++ ("HelloWorld".toList ++ rest))) ∧
      (∀ c ∈ blanks, isSpacing c = true) ∧ gap ≠ [] ∧ (∀ c ∈ gap, isSpacing c = true) ∧
      ∀ c ∈ rest.head?, isIdentifierChar c = false

/-! ## Removing a line -/

/-- The first import of the greeting that the patch looks for makes the text shorter. -/
theorem length_dropGreetingImport_lt {lineStart : Bool} (himport : ImportsGreeting line)
    (hbegins : MayBegin lineStart a) (b : List Char) :
    (dropGreetingImport lineStart (a ++ (line ++ '\n' :: b))).length <
      (a ++ (line ++ '\n' :: b)).length := by
  induction a generalizing lineStart with
  | nil =>
    obtain rfl : lineStart = true := by simpa [MayBegin] using hbegins
    rw [List.nil_append, dropGreetingImport_of_some (greetingImport?_eq_some.2 ⟨line, himport, rfl⟩)]
    simp
    omega
  | cons c a ih =>
    rw [List.cons_append]
    by_cases hread : lineStart = true ∧ (greetingImport? (c :: (a ++ (line ++ '\n' :: b)))).isSome
    · obtain ⟨rfl, hsome⟩ := hread
      obtain ⟨rest, hrest⟩ := Option.isSome_iff_exists.1 hsome
      rw [dropGreetingImport_of_some hrest]
      obtain ⟨line', -, heq⟩ := greetingImport?_eq_some.1 hrest
      rw [heq]
      simp
      omega
    · rw [dropGreetingImport_of_none fun hstart => by simpa [hstart] using hread, List.length_cons,
        List.length_cons]
      refine Nat.succ_lt_succ (ih ?_)
      rcases hbegins with ⟨hnil, -⟩ | ⟨a', heq⟩
      · cases hnil
      · rcases List.cons_eq_append_iff.1 heq with ⟨rfl, heq⟩ | ⟨a', rfl, rfl⟩
        · cases heq
          exact .inl ⟨rfl, rfl⟩
        · exact .inr ⟨a', rfl⟩

/-- **The patch removes the first line that it looks for.** -/
theorem removed_dropGreetingImport (s : List Char) :
    Removed IsGreetingImport s (dropGreetingImport true s) := by
  rcases dropGreetingImport_cases true s with hsame | ⟨a, line, b, rfl, hbegins, himport, hkept, hdrop⟩
  · refine .inr ⟨?_, hsame⟩
    rintro ⟨above, row, below, hrow⟩
    obtain ⟨line, himport, rfl⟩ := hrow.isKind
    have hlt := length_dropGreetingImport_lt himport hrow.begins below
    rw [hrow.split, List.append_assoc] at hsame
    exact absurd (congrArg List.length hsame) (Nat.ne_of_lt hlt)
  · refine .inl ⟨a, line ++ ['\n'], b, ?_, hdrop⟩
    refine ⟨by simp, hbegins, ⟨line, himport.unbroken, .inl rfl⟩, ⟨line, himport, rfl⟩, ?_⟩
    rintro a₁ line₁ b₁ rfl hbegins₁ - ⟨line₂, himport₁, heq⟩
    obtain rfl := List.append_cancel_right heq
    have hlt := length_dropGreetingImport_lt himport₁ hbegins₁ b₁
    exact absurd (congrArg List.length hkept) (Nat.ne_of_lt hlt)

theorem not_isGreetingImport_nil : ¬ IsGreetingImport [] := by
  rintro ⟨line, -, h⟩
  simp at h

theorem not_importsName_nil : ¬ ImportsName [] := by
  rintro ⟨blanks, gap, rest, h, -⟩
  simp at h

theorem IsGreetingImport.import_occurs (h : IsGreetingImport row) : "import".toList <:+: row := by
  obtain ⟨line, himport, rfl⟩ := h
  have hword : "import".toList <+: "import HelloWorld".toList := by decide
  refine (hword.trans himport.start).isInfix.trans (List.IsInfix.trans ?_ (List.infix_append [] _ _))
  exact (List.dropWhile_suffix _).isInfix

theorem ImportsName.import_occurs (h : ImportsName row) : "import".toList <:+: row := by
  obtain ⟨blanks, gap, rest, rfl, -⟩ := h
  exact ⟨blanks, _, List.append_assoc _ _ _⟩

/-- Lines that have a word are found only in texts that have it. -/
theorem FirstRow.word_occurs {word : List Char} (h : FirstRow kind s above row below)
    (hkind : ∀ row, kind row → word <:+: row) : word <:+: s := by
  rw [h.split, ← List.append_assoc]
  exact (hkind row h.isKind).trans (List.infix_append _ _ _)

/-- Without the word no line is removed. -/
theorem Removed.eq_of_not_occurs {word : List Char} (hkind : ∀ row, kind row → word <:+: row)
    (hs : ¬ word <:+: s) (h : Removed kind s text) : text = s := by
  rcases h with ⟨above, row, below, hrow, -⟩ | ⟨-, htext⟩
  · exact absurd (hrow.word_occurs hkind) hs
  · exact htext

/-! ## Telling the line that was removed -/

/-- A line that changes places with whole lines is the same as the line that takes its place. -/
theorem row_eq_of_append_comm (hline : '\n' ∉ line) (hm : MayBegin true m)
    (h : m ++ row = (line ++ ['\n']) ++ m) : row = line ++ ['\n'] := by
  rcases hm with ⟨rfl, -⟩ | ⟨m, rfl⟩
  · simpa using h
  induction hlength : m.length using Nat.strong_induction_on generalizing m with
  | _ length ih =>
    -- The first of the whole lines is the line too.
    have hfirst : line ++ '\n' :: (m ++ ['\n']) = m ++ '\n' :: row := by simpa using h.symm
    rcases append_cons_cases hfirst hline with ⟨rfl, rfl⟩ | ⟨t, rfl, ht⟩
    · rfl
    · refine ih t.length ?_ t ?_ rfl
      · rw [← hlength]
        simp
        omega
      · simpa using ht.symm

/-- A line that begins before another one ends before it. -/
theorem FirstRow.row_before (h : FirstRow kind s above row below)
    (h' : FirstRow kind' s (above ++ w) row' below') (hw : w ≠ []) :
    ∃ line m, '\n' ∉ line ∧ row = line ++ ['\n'] ∧ w = row ++ m ∧ MayBegin true m := by
  obtain ⟨w, rfl⟩ : ∃ w', w = w' ++ ['\n'] := by
    rcases h'.begins with ⟨hnil, -⟩ | ⟨t, ht⟩
    · exact absurd (List.append_eq_nil_iff.1 hnil).2 hw
    · rcases List.eq_nil_or_concat' w with rfl | ⟨w, c, rfl⟩
      · exact absurd rfl hw
      · rw [← List.append_assoc] at ht
        exact ⟨w, by rw [(List.append_inj' ht rfl).2]⟩
  have heq := h.split.symm.trans h'.split
  rw [List.append_assoc above] at heq
  have hrest := List.append_cancel_left heq
  obtain ⟨line, hline, ⟨rfl, rfl⟩ | ⟨rfl, rfl⟩⟩ := h.ends
  · rw [List.append_assoc, List.append_assoc, List.singleton_append, List.singleton_append] at hrest
    rcases append_cons_cases hrest hline with ⟨rfl, -⟩ | ⟨m, rfl, -⟩
    · exact ⟨w, [], hline, rfl, by simp, .inl ⟨rfl, rfl⟩⟩
    · exact ⟨line, m ++ ['\n'], hline, rfl, by simp, .inr ⟨m, rfl⟩⟩
  · rw [List.append_nil] at hrest
    rw [hrest] at hline
    simp at hline

/-- **A line is told by the text that is left without it.** -/
theorem FirstRow.eq_of_append_eq (h : FirstRow kind s above row below)
    (h' : FirstRow kind' s above' row' below') (heq : above ++ below = above' ++ below') :
    above = above' ∧ row = row' ∧ below = below' := by
  -- If one line stands above the other, it is the same line, and so of the other kind, too.
  have hsame {k k' : List Char → Prop} {a r b w r' b' : List Char} (h : FirstRow k s a r b)
      (h' : FirstRow k' s (a ++ w) r' b') (heq : a ++ b = (a ++ w) ++ b') : w = [] := by
    by_contra hw
    obtain ⟨line, m, hline, rfl, rfl, hm⟩ := h.row_before h' hw
    have hcomm : m ++ r' = (line ++ ['\n']) ++ m := by
      have hrow := h.split.symm.trans h'.split
      rw [List.append_assoc a] at hrow heq
      generalize line ++ ['\n'] = r at hrow heq
      rw [List.append_cancel_left heq] at hrow
      simp only [List.append_assoc, List.append_cancel_left_eq] at hrow
      rw [← List.append_assoc, ← List.append_assoc] at hrow
      exact (List.append_cancel_right hrow).symm
    refine h'.first a line m (by simp) h.begins hline ?_
    rw [← row_eq_of_append_comm hline hm hcomm]
    exact h'.isKind
  obtain rfl : above = above' := by
    rcases List.append_eq_append_iff.1 heq with ⟨w, rfl, -⟩ | ⟨w, rfl, -⟩
    · simp [hsame h h' heq]
    · simp [hsame h' h heq.symm]
  obtain rfl := List.append_cancel_left heq
  have hsplit := h.split.symm.trans h'.split
  exact ⟨rfl, List.append_cancel_right (List.append_cancel_left hsplit), rfl⟩

theorem FirstRow.unique (h : FirstRow kind s above row below)
    (h' : FirstRow kind s above' row' below') : above = above' ∧ row = row' ∧ below = below' := by
  -- If one line stood above the other, the other one would not be the first.
  have hsame {a r b w r' b' : List Char} (h : FirstRow kind s a r b)
      (h' : FirstRow kind s (a ++ w) r' b') : w = [] := by
    by_contra hw
    obtain ⟨line, m, hline, rfl, rfl, -⟩ := h.row_before h' hw
    exact h'.first a line m (by simp) h.begins hline h.isKind
  have hsplit := h.split.symm.trans h'.split
  obtain rfl : above = above' := by
    rcases List.append_eq_append_iff.1 hsplit with ⟨w, rfl, -⟩ | ⟨w, rfl, -⟩
    · simp [hsame h h']
    · simp [hsame h' h]
  have hrest := List.append_cancel_left hsplit
  obtain ⟨line, hline, hends⟩ := h.ends
  obtain ⟨line', hline', hends'⟩ := h'.ends
  rcases hends with ⟨rfl, rfl⟩ | ⟨rfl, rfl⟩ <;> rcases hends' with ⟨rfl, rfl⟩ | ⟨rfl, rfl⟩
  · rw [List.append_assoc, List.append_assoc] at hrest
    obtain ⟨rfl, rfl⟩ := append_cons_inj_of_not_mem hrest hline hline'
    exact ⟨rfl, rfl, rfl⟩
  · rw [List.append_nil] at hrest
    simp [← hrest] at hline'
  · rw [List.append_nil] at hrest
    simp [hrest] at hline
  · exact ⟨rfl, by simpa using hrest, rfl⟩

/-- **The same text is left** without the first line of one kind or of another exactly if these are the
same line. -/
theorem removed_iff (hkind : ¬ kind []) (hkind' : ¬ kind' []) (h : Removed kind s text) :
    Removed kind' s text ↔ ∀ above row below, FirstRow kind s above row below ↔
      FirstRow kind' s above row below := by
  constructor
  · intro h' above row below
    have hsame {k k' : List Char → Prop} (hk : ¬ k []) (h : Removed k s text) (h' : Removed k' s text)
        (hrow : FirstRow k s above row below) : FirstRow k' s above row below := by
      have htext : text = above ++ below := by
        rcases h with ⟨a, r, b, hfirst, rfl⟩ | ⟨hnone, -⟩
        · obtain ⟨rfl, -, rfl⟩ := hfirst.unique hrow
          rfl
        · exact absurd ⟨_, _, _, hrow⟩ hnone
      rcases h' with ⟨a, r, b, hfirst, heq⟩ | ⟨-, heq⟩
      · obtain ⟨rfl, rfl, rfl⟩ := hrow.eq_of_append_eq hfirst (htext.symm.trans heq)
        exact hfirst
      · have hempty : row = [] := by
          have hlength := congrArg List.length (htext.symm.trans (heq.trans hrow.split))
          simp only [List.length_append] at hlength
          exact List.length_eq_zero_iff.1 (by omega)
        exact absurd (hempty ▸ hrow.isKind) hk
    exact ⟨hsame hkind h h', hsame hkind' h' h⟩
  · intro hrows
    simpa only [Removed, hrows] using h

end Scaffold.AppView
