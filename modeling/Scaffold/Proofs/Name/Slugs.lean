import Scaffold.Name.Package
import Scaffold.Proofs.Text.Trim

/-!
# Slugs as package names

A slug is made of the characters that a package name may have, and it begins with one that a package
name may begin with. So a slug that is not empty lacks nothing but a bound on its length.

* **Suggestions.** A refused name comes with its slug. The slug is accepted exactly if it is not too
  long, and then it is accepted as it is, since no character of it is white space.
* **Folding may lengthen a name**, every other step shortens it. A name is never too long if its
  folding is not.
-/

namespace Scaffold.Name

open Text

variable {p : Char → Bool} {inRun : Bool} {s : List Char} {c : Char}

/-! ## The characters of a slug -/

/-- What is no hyphen was there before, and in no run. -/
theorem mem_hyphenateFrom (h : c ∈ hyphenateFrom p inRun s) : c = '-' ∨ c ∈ s ∧ p c = false := by
  fun_induction hyphenateFrom p inRun s with
  | case1 => cases h
  | case2 inRun d rest hd ih =>
    rcases List.mem_append.1 h with h | h
    · cases inRun with
      | true => cases h
      | false => exact .inl (List.mem_singleton.1 h)
    · exact (ih h).imp_right fun hc => ⟨.tail _ hc.1, hc.2⟩
  | case3 inRun d rest hd ih =>
    rcases List.mem_cons.1 h with rfl | h
    · exact .inr ⟨.head _, Bool.eq_false_iff.2 hd⟩
    · exact (ih h).imp_right fun hc => ⟨.tail _ hc.1, hc.2⟩

theorem length_hyphenateFrom_le (p : Char → Bool) (inRun : Bool) (s : List Char) :
    (hyphenateFrom p inRun s).length ≤ s.length := by
  fun_induction hyphenateFrom p inRun s with
  | case1 => exact Nat.le_refl _
  | case2 inRun d rest hd ih =>
    have hmark : (if inRun then [] else ['-']).length ≤ 1 := by cases inRun <;> simp
    rw [List.length_append, List.length_cons]
    omega
  | case3 inRun d rest hd ih =>
    rw [List.length_cons, List.length_cons]
    omega

theorem isSlugChar_of_mem_slug (h : c ∈ slug s) : isSlugChar c = true := by
  rcases mem_hyphenateFrom ((infix_trimBy _ _).subset h) with rfl | ⟨h, -⟩
  · decide
  · exact (List.mem_filter.1 h).2

/-- **No step but the folding lengthens a text.** -/
theorem length_slug_le (s : List Char) : (slug s).length ≤ (foldAscii s).length := by
  unfold slug
  extract_lets folded words
  calc (trimBy isSlugEdge (hyphenate (· == '-') (words.filter isSlugChar))).length
      ≤ (hyphenate (· == '-') (words.filter isSlugChar)).length := (infix_trimBy _ _).length_le
    _ ≤ (words.filter isSlugChar).length := length_hyphenateFrom_le _ _ _
    _ ≤ words.length := List.length_filter_le _ _
    _ ≤ (folded.map Char.toLower).length := length_hyphenateFrom_le _ _ _
    _ = folded.length := List.length_map ..
    _ ≤ (foldAscii s).length := (infix_trimBy _ _).length_le

/-! ## Slugs among the names -/

/-- A slug character by its code point, or as one of the four marks. -/
theorem cases_of_isSlugChar (h : isSlugChar c = true) :
    (97 ≤ c.toNat ∧ c.toNat ≤ 122) ∨ (48 ≤ c.toNat ∧ c.toNat ≤ 57) ∨
      c = '-' ∨ c = '.' ∨ c = '_' ∨ c = '~' := by
  simpa [isSlugChar, isLowerAlphanumeric, Char.le_def, UInt32.le_iff_toNat_le, or_assoc] using h

theorem isBlank_eq_false_of_isSlugChar (h : isSlugChar c = true) : isBlank c = false := by
  rcases cases_of_isSlugChar h with hletter | hdigit | rfl | rfl | rfl | rfl
  · simp [isBlank]
    omega
  · simp [isBlank]
    omega
  all_goals decide

/-- A slug is made of the characters that a name may go on with. -/
theorem isSlugChar_iff_isPartChar : isSlugChar c = true ↔ isPartChar c = true := by
  simp only [isSlugChar, isPartChar, isPartStart, Bool.or_eq_true]
  tauto

/-- What stays of a slug character at an edge may begin a name. -/
theorem isPartStart_of_isSlugChar (h : isSlugChar c = true) (hedge : isSlugEdge c = false) :
    isPartStart c = true := by
  simp only [isSlugChar, isSlugEdge, isPartStart, Bool.or_eq_true, Bool.or_eq_false_iff] at h hedge ⊢
  simp_all

theorem isPackageName_of_isPart (h : isPart s = true) : isPackageName s = true := by
  cases s with
  | nil => cases h
  | cons c rest =>
    have hc : c ≠ '@' := by
      rintro rfl
      cases h
    unfold isPackageName
    split
    · rename_i heq
      exact absurd (List.cons.inj heq).1 hc
    · exact h

/-- **A slug is a package name**, its length apart, unless it is empty. -/
theorem isPackageName_slug (h : slug s ≠ []) : isPackageName (slug s) = true := by
  refine isPackageName_of_isPart ?_
  obtain ⟨c, rest, hslug⟩ := List.exists_cons_of_ne_nil h
  have hchars : ∀ d ∈ c :: rest, isSlugChar d = true := fun d hd =>
    isSlugChar_of_mem_slug (hslug ▸ hd)
  have hhead : (slug s).head? = some c := by rw [hslug, List.head?_cons]
  have hedge : isSlugEdge c = false := head?_trimBy hhead
  rw [hslug, isPart, Bool.and_eq_true, List.all_eq_true]
  exact ⟨isPartStart_of_isSlugChar (hchars c (.head _)) hedge,
    fun d hd => isSlugChar_iff_isPartChar.1 (hchars d (.tail _ hd))⟩

theorem isAllowed_slugOf_iff {name : String} (h : slugOf name ≠ "") :
    isAllowed (slugOf name) = true ↔ (slugOf name).toList.length ≤ maxLength := by
  have hne : slug name.toList ≠ [] := fun hnil => h (by rw [slugOf, hnil])
  have hgrammar := isPackageName_slug hne
  rw [isAllowed, slugOf, String.toList_ofList, hgrammar, Bool.and_true]
  exact decide_eq_true_iff

/-- A slug has no white space around it. -/
theorem trim_slugOf (name : String) : trim (slugOf name) = slugOf name := by
  rw [trim, slugOf, String.toList_ofList,
    trimBy_eq_self fun c hc => isBlank_eq_false_of_isSlugChar (isSlugChar_of_mem_slug hc)]

/-! ## Suggestions -/

/-- A suggestion is the slug of the refused name. -/
theorem eq_slugOf_of_ofText {text name suggestion : String}
    (h : ofText text = .error (.invalid name (some suggestion))) :
    suggestion = slugOf name ∧ slugOf name ≠ "" := by
  unfold ofText at h
  extract_lets trimmed at h
  split at h
  · cases h
  split at h
  · cases h
  obtain ⟨rfl, hsuggestion⟩ := Fault.invalid.inj (Except.error.inj h)
  split at hsuggestion
  · cases hsuggestion
  · rename_i hempty
    refine ⟨(Option.some.inj hsuggestion).symm, fun hnil => hempty ?_⟩
    change (slugOf trimmed).isEmpty = true
    rw [hnil]
    rfl

/-- A text without white space around it is accepted as it is, or not at all. -/
theorem ofText_eq_ok_iff {name : String} (htrim : trim name = name) (hne : name ≠ "") :
    ofText name = .ok name ↔ isAllowed name = true := by
  have hempty : name.isEmpty = false := by simpa using hne
  rw [ofText, htrim, hempty]
  cases hallowed : isAllowed name <;> simp

/-- **A suggestion is accepted, and as it is, exactly if it is not too long.** It is not where the
folding of the refused name is not. The slug of any text is empty, or a package name of its length. -/
theorem suggestion_accepted_iff {text name suggestion : String}
    (h : ofText text = .error (.invalid name (some suggestion))) :
    (ofText suggestion = .ok suggestion ↔ suggestion.toList.length ≤ maxLength) ∧
      ((foldAscii name.toList).length ≤ maxLength → ofText suggestion = .ok suggestion) ∧
      ∀ other, slugOf other = "" ∨
        (isAllowed (slugOf other) = true ↔ (slugOf other).toList.length ≤ maxLength) := by
  obtain ⟨rfl, hne⟩ := eq_slugOf_of_ofText h
  have haccepted : ofText (slugOf name) = .ok (slugOf name) ↔
      (slugOf name).toList.length ≤ maxLength :=
    (ofText_eq_ok_iff (trim_slugOf name) hne).trans (isAllowed_slugOf_iff hne)
  refine ⟨haccepted, fun hfolded => haccepted.2 ?_, fun other => ?_⟩
  · rw [slugOf, String.toList_ofList]
    exact (length_slug_le name.toList).trans hfolded
  · exact or_iff_not_imp_left.2 fun hother => isAllowed_slugOf_iff hother

theorem suggestion_accepted_iff_spaced :
    ofText "My Cool App" = .error (.invalid "My Cool App" (some "my-cool-app")) ∧
      ofText "my-cool-app" = .ok "my-cool-app" := by
  have hrefused : ofText "My Cool App" = .error (.invalid "My Cool App" (some "my-cool-app")) := by
    decide +kernel
  exact ⟨hrefused, (suggestion_accepted_iff hrefused).1.2 (by decide)⟩

/-- A name of one letter more than a name may have. -/
def longName (letter : Char) : String := String.ofList (List.replicate 215 letter)

/-- No step of a slug cuts it to the length of a name, so what is suggested for too long a name is
refused again. -/
theorem not_suggestion_accepted :
    ofText (longName 'A') = .error (.invalid (longName 'A') (some (longName 'a'))) ∧
      ofText (longName 'a') ≠ .ok (longName 'a') := by
  have htrim {letter : Char} (h : isBlank letter = false) :
      trim (longName letter) = longName letter := by
    rw [trim, longName, String.toList_ofList,
      trimBy_eq_self fun c hc => List.eq_of_mem_replicate hc ▸ h]
  have hlong (letter : Char) : isAllowed (longName letter) = false := by
    rw [isAllowed, longName, String.toList_ofList, List.length_replicate]
    rfl
  have hne (letter : Char) : longName letter ≠ "" := by
    intro h
    have hlength := congrArg (fun name => name.toList.length) h
    rw [longName, String.toList_ofList, List.length_replicate] at hlength
    cases hlength
  have hslug : slugOf (longName 'A') = longName 'a' := by
    rw [slugOf, longName, longName, String.toList_ofList]
    exact congrArg String.ofList (by decide +kernel)
  constructor
  · rw [ofText, htrim (by decide), hlong, hslug]
    simp [hne]
  · rw [Ne, ofText_eq_ok_iff (htrim (by decide)) (hne 'a'), hlong]
    decide

end Scaffold.Name
