import Scaffold.Entry
import Scaffold.Proofs.Lists
import Scaffold.Proofs.Text.Search
import Mathlib.Data.List.TakeWhile

/-!
# Mount expressions

What a mount expression is made of. Reading one yields its parts, and parts of the right kind are
read as a mount expression whatever follows them.

* **The opening** is everything before the selector: it has no quotation mark and no equals sign.
* **The closing** follows the selector.
* **An entry file is split** around the only expression that is found.
-/

namespace Scaffold

open Text

/-- The parts of a mount expression. -/
structure MountText where
  /-- the blanks before the root component -/
  beforeRoot : List Char
  /-- the root component -/
  root : List Char
  /-- the blanks after it -/
  afterRoot : List Char
  /-- the blanks before the mounting call -/
  beforeCall : List Char
  /-- the blanks before the selector -/
  beforeSelector : List Char
  /-- the quotation mark of the selector -/
  quote : Char
  /-- the selector -/
  selector : List Char
  /-- the blanks after it -/
  afterSelector : List Char
  /-- there is nothing but white space between the parts that count -/
  blank : ∀ part ∈ [beforeRoot, afterRoot, beforeCall, beforeSelector, afterSelector],
    ∀ c ∈ part, isBlank c = true
  /-- the root component is an identifier -/
  identifier : ∃ c rest, root = c :: rest ∧ isIdentifierStart c = true ∧
    ∀ d ∈ rest, isIdentifierChar d = true
  /-- the identifier does not go on -/
  rootEnd : ∀ c ∈ (afterRoot ++ [')']).head?, isIdentifierChar c = false
  /-- the quotation mark is one -/
  quoted : isQuote quote = true
  /-- the selector has no quotation mark -/
  unquoted : ∀ c ∈ selector, isQuote c = false

namespace MountText

variable {factory : String} {s rest : List Char} {m : Mount} {p : MountText} {c : Char}

/-- The text before the selector. -/
def opening (p : MountText) (factory : String) : List Char :=
  factory.toList ++ ("(".toList ++ (p.beforeRoot ++ (p.root ++ (p.afterRoot ++ (")".toList ++
    (p.beforeCall ++ (".mount(".toList ++ p.beforeSelector)))))))

/-- The text after the selector. -/
def closing (p : MountText) : List Char := p.afterSelector ++ ")".toList

/-- The text of the expression. -/
def chars (p : MountText) (factory : String) : List Char :=
  p.opening factory ++ p.quote :: (p.selector ++ p.quote :: p.closing)

/-- The expression. -/
def mount (p : MountText) (factory : String) : Mount :=
  ⟨factory, String.ofList p.root, String.ofList p.selector, p.quote⟩

/-! ## Kinds of characters -/

theorem isBlank_of_isIdentifierStart (h : isIdentifierStart c = true) : isBlank c = false := by
  have halpha (hc : c.isAlpha = true) : 0x41 ≤ c.toNat ∧ c.toNat ≤ 0x7A := by
    delta Char.isAlpha Char.isUpper Char.isLower at hc
    simp only [Bool.or_eq_true, Bool.and_eq_true, decide_eq_true_eq] at hc
    simp only [Char.toNat, UInt32.le_iff_toNat_le] at hc ⊢
    simp at hc ⊢
    omega
  simp only [isIdentifierStart, Bool.or_eq_true, beq_iff_eq] at h
  rcases h with (h | rfl) | rfl
  · have := halpha h
    simp [isBlank]
    omega
  · decide
  · decide

theorem isBlank_of_isQuote (h : isQuote c = true) : isBlank c = false := by
  simp only [isQuote, Bool.or_eq_true, beq_iff_eq] at h
  rcases h with rfl | rfl <;> decide

/-- No identifier goes on with a sign of this kind. -/
theorem not_mem_signs_of_isIdentifierChar (h : isIdentifierChar c = true) :
    c ∉ ['(', ')', '=', '\x27', '"'] := by
  intro hc
  simp only [List.mem_cons, List.not_mem_nil, or_false] at hc
  rcases hc with rfl | rfl | rfl | rfl | rfl <;> revert h <;> decide +kernel

theorem not_mem_signs_of_isBlank (h : isBlank c = true) : c ∉ ['(', ')', '=', '\x27', '"'] := by
  intro hc
  simp only [List.mem_cons, List.not_mem_nil, or_false] at hc
  rcases hc with rfl | rfl | rfl | rfl | rfl <;> revert h <;> decide

theorem not_mem_signs_of_mem_root (hc : c ∈ p.root) : c ∉ ['(', ')', '=', '\x27', '"'] := by
  obtain ⟨d, more, hroot, hstart, hmore⟩ := p.identifier
  rw [hroot, List.mem_cons] at hc
  rcases hc with rfl | hc
  · intro hmem
    simp only [List.mem_cons, List.not_mem_nil, or_false] at hmem
    rcases hmem with rfl | rfl | rfl | rfl | rfl <;> revert hstart <;> decide
  · exact not_mem_signs_of_isIdentifierChar (hmore c hc)

/-- The opening has no quotation mark and no equals sign, unless the factory's name has. -/
theorem not_mem_signs_of_mem_opening (hfactory : ∀ c ∈ factory.toList, c ∉ ['=', '\x27', '"'])
    (hc : c ∈ p.opening factory) : c ∉ ['=', '\x27', '"'] := by
  have hsigns (h : c ∉ ['(', ')', '=', '\x27', '"']) : c ∉ ['=', '\x27', '"'] :=
    fun hmem => h (.tail _ (.tail _ hmem))
  have hblank {part : List Char} (hpart : part ∈
      [p.beforeRoot, p.afterRoot, p.beforeCall, p.beforeSelector, p.afterSelector])
      (hc : c ∈ part) : c ∉ ['=', '\x27', '"'] :=
    hsigns (not_mem_signs_of_isBlank (p.blank part hpart c hc))
  have hfixed : ∀ text ∈ ["(", ")", ".mount("], ∀ c ∈ text.toList, c ∉ ['=', '\x27', '"'] := by
    decide
  simp only [opening, List.mem_append] at hc
  rcases hc with hc | hc | hc | hc | hc | hc | hc | hc | hc
  · exact hfactory c hc
  · exact hfixed _ (by simp) c hc
  · exact hblank (by simp) hc
  · exact hsigns (not_mem_signs_of_mem_root hc)
  · exact hblank (by simp) hc
  · exact hfixed _ (by simp) c hc
  · exact hblank (by simp) hc
  · exact hfixed _ (by simp) c hc
  · exact hblank (by simp) hc

/-! ## Reading -/

theorem skipBlanks_append {blanks : List Char} (h : ∀ c ∈ blanks, isBlank c = true)
    (hrest : ∀ c ∈ rest.head?, isBlank c = false) : skipBlanks (blanks ++ rest) = rest :=
  dropWhile_append_of_stop h hrest

theorem skipBlanks_eq (s : List Char) :
    ∃ blanks, (∀ c ∈ blanks, isBlank c = true) ∧ s = blanks ++ skipBlanks s :=
  ⟨s.takeWhile isBlank, fun _ hc => List.mem_takeWhile_imp hc, List.takeWhile_append_dropWhile.symm⟩

theorem skipStatementEnd_eq (s : List Char) : ∃ stop, s = stop ++ skipStatementEnd s := by
  have hs := List.takeWhile_append_dropWhile (p := isSpacing) (l := s)
  unfold skipStatementEnd
  split
  · rename_i rest hrest
    rw [hrest] at hs
    exact ⟨s.takeWhile isSpacing ++ [';'], by rw [List.append_assoc, List.singleton_append, hs]⟩
  · exact ⟨_, hs.symm⟩

theorem identifier?_eq_some {name : String} (h : identifier? s = some (name, rest)) :
    ∃ c more, s = c :: more ++ rest ∧ name = String.ofList (c :: more) ∧
      isIdentifierStart c = true ∧ (∀ d ∈ more, isIdentifierChar d = true) ∧
      ∀ d ∈ rest.head?, isIdentifierChar d = false := by
  cases s with
  | nil => cases h
  | cons c s =>
    rw [identifier?] at h
    split at h
    · rename_i hstart
      cases h
      refine ⟨c, s.takeWhile isIdentifierChar, ?_, rfl, hstart, fun _ hd => List.mem_takeWhile_imp hd,
        fun d hd => ?_⟩
      · rw [List.cons_append, List.takeWhile_append_dropWhile]
      · have := List.head?_dropWhile_not isIdentifierChar s
        rw [Option.mem_def.1 hd] at this
        simpa using this
    · cases h

theorem identifier?_append {more : List Char} (hstart : isIdentifierStart c = true)
    (hmore : ∀ d ∈ more, isIdentifierChar d = true)
    (hrest : ∀ d ∈ rest.head?, isIdentifierChar d = false) :
    identifier? (c :: more ++ rest) = some (String.ofList (c :: more), rest) := by
  rw [List.cons_append, identifier?, if_pos hstart, takeWhile_append_of_stop hmore hrest,
    dropWhile_append_of_stop hmore hrest]

theorem quotedText?_eq_some {selector : String} {quote : Char}
    (h : quotedText? s = some ((selector, quote), rest)) :
    isQuote quote = true ∧ ∃ text, selector = String.ofList text ∧
      (∀ c ∈ text, isQuote c = false) ∧ s = quote :: (text ++ quote :: rest) := by
  cases s with
  | nil => cases h
  | cons c s =>
    rw [quotedText?] at h
    split at h
    · rename_i hquote
      split at h
      · rename_i d after hdrop
        split at h
        · rename_i hd
          cases h
          rw [beq_iff_eq] at hd
          refine ⟨hquote, s.takeWhile (!isQuote ·), rfl, fun c hc => ?_, ?_⟩
          · simpa using List.mem_takeWhile_imp hc
          · rw [← hd, ← hdrop, List.takeWhile_append_dropWhile]
        · cases h
      · cases h
    · cases h

theorem quotedText?_append {text : List Char} (hquote : isQuote c = true)
    (htext : ∀ d ∈ text, isQuote d = false) :
    quotedText? (c :: (text ++ c :: rest)) = some ((String.ofList text, c), rest) := by
  have hpos : ∀ d ∈ text, (!isQuote d) = true := fun d hd => by simp [htext d hd]
  have hstop : ∀ d ∈ (c :: rest).head?, (!isQuote d) = false := by simp [hquote]
  simp [quotedText?, hquote, takeWhile_append_of_stop hpos hstop, dropWhile_append_of_stop hpos hstop]

/-- **What is read as a mount expression consists of its parts**, up to what ends its statement. -/
theorem of_mount? (h : mount? factory s = some (m, rest)) :
    ∃ (p : MountText) (stop : List Char), m = p.mount factory ∧ s = p.chars factory ++ (stop ++ rest) := by
  simp only [mount?, Option.bind_eq_bind, Option.bind_eq_some_iff, literal?_eq_some] at h
  obtain ⟨s₁, rfl, s₂, rfl, ⟨name, s₃⟩, hname, s₄, hclose, s₅, hcall, ⟨⟨selector, quote⟩, s₆⟩,
    hselector, s₇, hend, h⟩ := h
  cases h
  obtain ⟨b₁, hb₁, hs₂⟩ := skipBlanks_eq s₂
  obtain ⟨c, more, hroot, rfl, hstart, hmore, hstop⟩ := identifier?_eq_some hname
  obtain ⟨b₂, hb₂, hs₃⟩ := skipBlanks_eq s₃
  obtain ⟨b₃, hb₃, hs₄⟩ := skipBlanks_eq s₄
  obtain ⟨b₄, hb₄, hs₅⟩ := skipBlanks_eq s₅
  obtain ⟨hquote, text, rfl, htext, hquoted⟩ := quotedText?_eq_some hselector
  obtain ⟨b₅, hb₅, hs₆⟩ := skipBlanks_eq s₆
  let p : MountText :=
    { beforeRoot := b₁, root := c :: more, afterRoot := b₂, beforeCall := b₃, beforeSelector := b₄
      quote := quote, selector := text, afterSelector := b₅
      blank := by
        simp only [List.forall_mem_cons, List.not_mem_nil, false_implies, implies_true, and_true]
        exact ⟨hb₁, hb₂, hb₃, hb₄, hb₅⟩
      identifier := ⟨c, more, rfl, hstart, hmore⟩
      rootEnd := by
        rw [hs₃, hclose] at hstop
        cases b₂ <;> simpa using hstop
      quoted := hquote
      unquoted := htext }
  obtain ⟨stop, hstop⟩ := skipStatementEnd_eq s₇
  refine ⟨p, stop, rfl, ?_⟩
  rw [hroot] at hs₂
  rw [hclose] at hs₃
  rw [hcall] at hs₄
  rw [hquoted] at hs₅
  rw [hend, hstop] at hs₆
  subst hs₂ hs₃ hs₄ hs₅ hs₆
  simp only [chars, opening, closing, p, List.append_assoc, List.cons_append]

/-- **The parts of a mount expression are read as one**, whatever follows, with what ends its
statement. -/
theorem mount?_append (p : MountText) (factory : String) (rest : List Char) :
    mount? factory (p.chars factory ++ rest) = some (p.mount factory, skipStatementEnd rest) := by
  obtain ⟨c, more, hroot, hstart, hmore⟩ := p.identifier
  have hblank := p.blank
  simp only [List.forall_mem_cons, List.not_mem_nil, false_implies, implies_true, and_true] at hblank
  obtain ⟨hb₁, hb₂, hb₃, hb₄, hb₅⟩ := hblank
  have hclose : isBlank ')' = false := by decide
  have hdot : isBlank '.' = false := by decide
  have hparts : p.chars factory ++ rest = factory.toList ++ ("(".toList ++ (p.beforeRoot ++
      (c :: more ++ (p.afterRoot ++ (")".toList ++ (p.beforeCall ++ (".mount(".toList ++
        (p.beforeSelector ++ p.quote :: (p.selector ++ p.quote :: (p.afterSelector ++
          (")".toList ++ rest))))))))))) := by
    simp only [chars, opening, closing, hroot, List.append_assoc, List.cons_append]
  have hstop : ∀ d ∈ (p.afterRoot ++ (")".toList ++ (p.beforeCall ++ (".mount(".toList ++
      (p.beforeSelector ++ p.quote :: (p.selector ++ p.quote :: (p.afterSelector ++
        (")".toList ++ rest)))))))).head?, isIdentifierChar d = false := by
    have := p.rootEnd
    cases h : p.afterRoot <;> simpa [h] using this
  rw [hparts, mount?]
  simp only [literal?_append, Option.bind_eq_bind, Option.bind_some]
  rw [skipBlanks_append hb₁ (by simpa using isBlank_of_isIdentifierStart hstart),
    identifier?_append hstart hmore hstop, Option.bind_some,
    skipBlanks_append hb₂ (by simpa using hclose), literal?_append, Option.bind_some,
    skipBlanks_append hb₃ (by simpa using hdot), literal?_append, Option.bind_some,
    skipBlanks_append hb₄ (by simpa using isBlank_of_isQuote p.quoted),
    quotedText?_append p.quoted p.unquoted, Option.bind_some,
    skipBlanks_append hb₅ (by simpa using hclose), literal?_append]
  simp only [Option.bind_some, mount, hroot]
  rfl

theorem isSome_mount? (p : MountText) (factory : String) (rest : List Char) :
    (mount? factory (p.chars factory ++ rest)).isSome = true := by
  rw [mount?_append]
  rfl

/-- No mount expression is read exactly where none stands. -/
theorem mount?_eq_none_iff :
    mount? factory s = none ↔ ∀ (p : MountText) (u : List Char), s ≠ p.chars factory ++ u := by
  constructor
  · rintro h p u rfl
    rw [mount?_append] at h
    cases h
  · intro h
    refine Option.eq_none_iff_forall_ne_some.2 fun ⟨m, after⟩ hread => ?_
    obtain ⟨p, stop, -, rfl⟩ := of_mount? hread
    exact h p (stop ++ after) rfl

end MountText

/-- An entry file is split exactly if the search finds an expression, and none after it. -/
theorem SplitEntry.ofText_eq_ok_iff {factory content : String} {e : SplitEntry} :
    SplitEntry.ofText factory content = .ok e ↔
      find? (mount? factory) content.toList = some (e.head.toList, e.mount, e.tail.toList) ∧
        find? (mount? factory) e.tail.toList = none := by
  unfold SplitEntry.ofText
  constructor
  · intro h
    obtain ⟨head, m, tail, hfind, hnone, he⟩ := anchor_bind_eq_ok h
    cases he
    simp only [String.toList_ofList]
    exact ⟨hfind, hnone⟩
  · intro h
    rw [anchor_ok_iff.2 h]
    change Except.ok (SplitEntry.mk (String.ofList e.head.toList) e.mount
      (String.ofList e.tail.toList)) = _
    rw [String.ofList_toList, String.ofList_toList]

end Scaffold
