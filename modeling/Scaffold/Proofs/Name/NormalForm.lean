import Scaffold.Proofs.Name.Slugs

/-!
# Slugs as normal forms

A text is in normal form if it consists of lower-case letters, digits, hyphens, dots and tildes, no two
hyphens stand together, and neither end is a hyphen or a dot. Every slug is in normal form, and a text
in normal form is its own slug.

* **The order of the steps** matters. Separators become hyphens before characters are dropped, so no
  underscore is left to be kept. Hyphens are joined after it, since what kept two of them apart may be
  gone. Trimming comes last, and brings nothing together.
* **Any normalisation will do** that leaves ASCII text as it is, whatever it makes of other text. The
  table of residues is one.
-/

namespace Scaffold.Name

open Text

variable {p : Char → Bool} {inRun : Bool} {s : List Char} {c : Char}
  {normalize fold : List Char → List Char}

/-! ## Normal forms -/

/-- A lower-case letter, a digit, a hyphen, a dot or a tilde. -/
def IsNormalChar (c : Char) : Prop :=
  ('a' ≤ c ∧ c ≤ 'z') ∨ ('0' ≤ c ∧ c ≤ '9') ∨ c = '-' ∨ c = '.' ∨ c = '~'

/-- A text in normal form. -/
structure IsNormal (s : List Char) : Prop where
  /-- nothing but characters of normal forms -/
  chars : ∀ c ∈ s, IsNormalChar c
  /-- no two hyphens together -/
  single : ¬ ['-', '-'] <:+: s
  /-- neither a hyphen nor a dot at the start -/
  start : ∀ c, s.head? = some c → c ≠ '-' ∧ c ≠ '.'
  /-- nor at the end -/
  finish : ∀ c, s.getLast? = some c → c ≠ '-' ∧ c ≠ '.'

theorem isNormalChar_iff : IsNormalChar c ↔ isSlugChar c = true ∧ c ≠ '_' := by
  simp only [IsNormalChar, isSlugChar, isLowerAlphanumeric, Bool.or_eq_true, Bool.and_eq_true,
    decide_eq_true_eq, beq_iff_eq]
  constructor
  · rintro (h | h | rfl | rfl | rfl)
    · refine ⟨by simp [h], ?_⟩
      rintro rfl
      exact absurd h (by decide)
    · refine ⟨by simp [h], ?_⟩
      rintro rfl
      exact absurd h (by decide)
    all_goals decide
  · rintro ⟨((((h | h) | rfl) | rfl) | rfl) | rfl, hne⟩
    · exact .inl h
    · exact .inr (.inl h)
    · exact .inr (.inr (.inl rfl))
    · exact .inr (.inr (.inr (.inl rfl)))
    · exact absurd rfl hne
    · exact .inr (.inr (.inr (.inr rfl)))

/-- Whether a character is one of ASCII. -/
def isAscii (c : Char) : Bool := c.toNat < 128

theorem isAscii_of_isSlugChar (h : isSlugChar c = true) : isAscii c = true := by
  rcases cases_of_isSlugChar h with hletter | hdigit | rfl | rfl | rfl | rfl
  · exact decide_eq_true (by omega)
  · exact decide_eq_true (by omega)
  all_goals decide

theorem isUpper_eq_false_of_isSlugChar (h : isSlugChar c = true) : c.isUpper = false := by
  refine decide_eq_false ?_
  rintro ⟨hlow, hhigh⟩
  have hlow : 65 ≤ c.toNat := UInt32.le_iff_toNat_le.1 hlow
  have hhigh : c.toNat ≤ 90 := UInt32.le_iff_toNat_le.1 hhigh
  rcases cases_of_isSlugChar h with hletter | hdigit | rfl | rfl | rfl | rfl
  · omega
  · omega
  · exact absurd hlow (by decide)
  · exact absurd hlow (by decide)
  · exact absurd hhigh (by decide)
  · exact absurd hhigh (by decide)

/-- Where there is no upper case, lower case is what there is. -/
theorem map_toLower_eq_self (h : ∀ c ∈ s, c.isUpper = false) : s.map Char.toLower = s := by
  refine (List.map_congr_left fun c hc => ?_).trans (List.map_id s)
  exact dif_neg (of_decide_eq_false (h c hc))

theorem IsNormalChar.isSeparator (h : IsNormalChar c) : isSeparator c = false := by
  obtain ⟨hchar, hne⟩ := isNormalChar_iff.1 h
  rw [Name.isSeparator, isBlank_eq_false_of_isSlugChar hchar, Bool.false_or]
  exact beq_false_of_ne hne

/-! ## Runs of hyphens -/

/-- In a run there is no further hyphen. -/
theorem head?_hyphenateFrom (hp : p '-' = true) (s : List Char) :
    (hyphenateFrom p true s).head? ≠ some '-' := by
  induction s with
  | nil => nofun
  | cons c rest ih =>
    rw [hyphenateFrom]
    split
    · exact ih
    · rename_i hc
      intro h
      obtain rfl := Option.some.inj h
      exact hc hp

/-- No two hyphens are left together if they are joined themselves. -/
theorem not_infix_hyphenateFrom (hp : p '-' = true) (inRun : Bool) (s : List Char) :
    ¬ ['-', '-'] <:+: hyphenateFrom p inRun s := by
  fun_induction hyphenateFrom p inRun s with
  | case1 => simp
  | case2 inRun c rest hc ih =>
    cases inRun with
    | true => exact ih
    | false =>
      intro h
      rcases List.infix_cons_iff.1 h with h | h
      · -- the hyphen of a run is the only one of it
        obtain ⟨after, hafter⟩ := (List.cons_prefix_cons.1 h).2
        exact head?_hyphenateFrom hp rest (List.head?_eq_some_iff.2 ⟨after, hafter.symm⟩)
      · exact ih h
  | case3 inRun c rest hc ih =>
    intro h
    rcases List.infix_cons_iff.1 h with h | h
    · -- a hyphen belongs to a run, so none is kept as it stands
      obtain rfl := (List.cons_prefix_cons.1 h).1
      exact hc hp
    · exact ih h

/-- A text without a character of the class is left as it is. -/
theorem hyphenateFrom_of_forall_not (h : ∀ c ∈ s, p c = false) :
    hyphenateFrom p inRun s = s := by
  induction s generalizing inRun with
  | nil => rfl
  | cons c rest ih =>
    obtain ⟨hc, hrest⟩ := List.forall_mem_cons.1 h
    rw [hyphenateFrom, if_neg (by simp [hc]), ih hrest]

/-- Hyphens that stand alone are left as they are. -/
theorem hyphenateFrom_of_single (hstart : inRun = true → s.head? ≠ some '-')
    (hsingle : ¬ ['-', '-'] <:+: s) : hyphenateFrom (· == '-') inRun s = s := by
  induction s generalizing inRun with
  | nil => rfl
  | cons c rest ih =>
    have hrest : ¬ ['-', '-'] <:+: rest := fun h => hsingle (List.infix_cons h)
    rw [hyphenateFrom]
    split
    · rename_i hc
      obtain rfl := eq_of_beq hc
      have hfalse : inRun = false := Bool.eq_false_iff.2 fun h => hstart h rfl
      have hnext : rest.head? ≠ some '-' := by
        intro h
        obtain ⟨after, rfl⟩ := List.head?_eq_some_iff.1 h
        exact hsingle ⟨[], after, rfl⟩
      rw [hfalse, ih (fun _ => hnext) hrest]
      rfl
    · rw [ih (fun h => absurd h Bool.false_ne_true) hrest]

/-! ## Foldings -/

/-- Leaves ASCII text as it is. -/
def FixesAscii (normalize : List Char → List Char) : Prop :=
  ∀ s, (∀ c ∈ s, isAscii c = true) → normalize s = s

theorem fixesAscii_foldAscii : FixesAscii foldAscii := by
  intro s h
  exact foldAscii_of_lt fun c hc => of_decide_eq_true (h c hc)

/-- What a normalisation leaves of a text in ASCII. -/
def asciiPart (normalize : List Char → List Char) (s : List Char) : List Char :=
  (normalize s).filter isAscii

theorem FixesAscii.asciiPart (h : FixesAscii normalize) : FixesAscii (asciiPart normalize) := by
  intro s hs
  rw [Name.asciiPart, h s hs]
  exact List.filter_eq_self.2 hs

/-- The slug of a text by any folding: the other steps are those of `slug`. -/
def slugBy (fold : List Char → List Char) (s : List Char) : List Char :=
  let folded := trimBy isBlank (fold s)
  let words := hyphenate isSeparator (folded.map Char.toLower)
  trimBy isSlugEdge (hyphenate (· == '-') (words.filter isSlugChar))

theorem toList_slugOf (text : String) : (slugOf text).toList = slugBy foldAscii text.toList := by
  rw [slugOf, String.toList_ofList]
  rfl

/-! ## Slugs -/

/-- Of what is trimmed off a slug, a normal form has the hyphen and the dot. -/
theorem isSlugEdge_eq_false_iff (h : IsNormalChar c) :
    isSlugEdge c = false ↔ c ≠ '-' ∧ c ≠ '.' := by
  have hne : (c == '_') = false := beq_false_of_ne (isNormalChar_iff.1 h).2
  rw [isSlugEdge, hne, Bool.or_false, Bool.or_eq_false_iff, beq_eq_false_iff_ne, beq_eq_false_iff_ne]

/-- **Slugs are in normal form**, whatever the folding makes of a text. -/
theorem isNormal_slugBy (fold : List Char → List Char) (s : List Char) :
    IsNormal (slugBy fold s) := by
  unfold slugBy
  extract_lets folded words
  have hchars : ∀ c ∈ trimBy isSlugEdge (hyphenate (· == '-') (words.filter isSlugChar)),
      IsNormalChar c := by
    intro c hc
    rcases mem_hyphenateFrom ((infix_trimBy _ _).subset hc) with rfl | ⟨hkept, -⟩
    · exact .inr (.inr (.inl rfl))
    · obtain ⟨hword, hchar⟩ := List.mem_filter.1 hkept
      rcases mem_hyphenateFrom hword with rfl | ⟨-, hseparator⟩
      · exact .inr (.inr (.inl rfl))
      · -- an underscore would be kept, but it separated words before
        refine isNormalChar_iff.2 ⟨hchar, ?_⟩
        rintro rfl
        cases hseparator
  refine ⟨hchars, ?_, ?_, ?_⟩
  · intro h
    exact not_infix_hyphenateFrom (by decide) false _ (h.trans (infix_trimBy _ _))
  · intro c hc
    exact (isSlugEdge_eq_false_iff (hchars c (List.mem_of_head? hc))).1 (head?_trimBy hc)
  · intro c hc
    exact (isSlugEdge_eq_false_iff (hchars c (List.mem_of_getLast? hc))).1 (getLast?_trimBy hc)

/-- No step changes a text in normal form. -/
theorem slugBy_of_isNormal (hfixed : FixesAscii fold) (h : IsNormal s) : slugBy fold s = s := by
  have hchar : ∀ c ∈ s, isSlugChar c = true := fun c hc => (isNormalChar_iff.1 (h.chars c hc)).1
  have hfold : fold s = s := hfixed s fun c hc => isAscii_of_isSlugChar (hchar c hc)
  have htrim : trimBy isBlank s = s :=
    trimBy_eq_self fun c hc => isBlank_eq_false_of_isSlugChar (hchar c hc)
  have hlower : s.map Char.toLower = s :=
    map_toLower_eq_self fun c hc => isUpper_eq_false_of_isSlugChar (hchar c hc)
  have hwords : hyphenate isSeparator s = s :=
    hyphenateFrom_of_forall_not fun c hc => (h.chars c hc).isSeparator
  have hkept : s.filter isSlugChar = s := List.filter_eq_self.2 hchar
  have hjoined : hyphenate (· == '-') s = s :=
    hyphenateFrom_of_single (fun h => absurd h Bool.false_ne_true) h.single
  have hends : trimBy isSlugEdge s = s := by
    refine trimBy_of_ends ?_ ?_
    · intro c hc
      exact (isSlugEdge_eq_false_iff (h.chars c (List.mem_of_head? hc))).2 (h.start c hc)
    · intro c hc
      exact (isSlugEdge_eq_false_iff (h.chars c (List.mem_of_getLast? hc))).2 (h.finish c hc)
  rw [slugBy, hfold, htrim, hlower, hwords, hkept, hjoined, hends]

theorem slugBy_slugBy (hfixed : FixesAscii fold) (s : List Char) :
    slugBy fold (slugBy fold s) = slugBy fold s :=
  slugBy_of_isNormal hfixed (isNormal_slugBy fold s)

theorem slugBy_eq_self_iff (hfixed : FixesAscii fold) : slugBy fold s = s ↔ IsNormal s := by
  constructor
  · intro h
    rw [← h]
    exact isNormal_slugBy fold s
  · exact slugBy_of_isNormal hfixed

/-- **A slug is a normal form.** Every slug has it and is its own slug, and a text that is its own slug has
it. Nothing more is needed of the normalisation than that it leaves ASCII text as it is. -/
theorem slugOf_normal_form (text : String) :
    (IsNormal (slugOf text).toList ∧ slugOf (slugOf text) = slugOf text ∧
      (slugOf text = text ↔ IsNormal text.toList)) ∧
    ∀ normalize, FixesAscii normalize →
      IsNormal (slugBy (asciiPart normalize) text.toList) ∧
        slugBy (asciiPart normalize) (slugBy (asciiPart normalize) text.toList) =
          slugBy (asciiPart normalize) text.toList := by
  refine ⟨⟨?_, ?_, ?_⟩, ?_⟩
  · rw [toList_slugOf]
    exact isNormal_slugBy foldAscii text.toList
  · refine String.toList_inj.1 ?_
    rw [toList_slugOf, toList_slugOf]
    exact slugBy_slugBy fixesAscii_foldAscii text.toList
  · rw [← String.toList_inj, toList_slugOf]
    exact slugBy_eq_self_iff fixesAscii_foldAscii
  · intro normalize hfixed
    exact ⟨isNormal_slugBy _ text.toList, slugBy_slugBy hfixed.asciiPart text.toList⟩

theorem slugOf_normal_form_accented :
    (slugOf "  Cr\u00e8me Br\u00fbl\u00e9e_App  " = "creme-brulee-app" ∧
      IsNormal "creme-brulee-app".toList ∧ slugOf "creme-brulee-app" = "creme-brulee-app") ∧
    FixesAscii foldAscii ∧
      IsNormal (slugBy (asciiPart foldAscii) "  Cr\u00e8me Br\u00fbl\u00e9e_App  ".toList) := by
  have hslug : slugOf "  Cr\u00e8me Br\u00fbl\u00e9e_App  " = "creme-brulee-app" := by
    decide +kernel
  obtain ⟨hform, hany⟩ := slugOf_normal_form "  Cr\u00e8me Br\u00fbl\u00e9e_App  "
  rw [hslug] at hform
  exact ⟨⟨hslug, hform.1, hform.2.1⟩, fixesAscii_foldAscii, (hany _ fixesAscii_foldAscii).1⟩

end Scaffold.Name
