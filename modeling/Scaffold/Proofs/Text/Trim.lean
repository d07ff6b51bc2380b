import Scaffold.Text.Blank
import Mathlib.Data.List.DropRight
import Mathlib.Data.List.TakeWhile

/-!
# Trimmed texts

Trimming takes characters of one class off both ends of a text. What is left is told without saying
which end is trimmed first: it stands between characters of the class, and neither begins nor ends with
one.

* **One text is left.** There is no second one of which the same could be told.
* **Clean ends stay.** A text that neither begins nor ends with the class is left as it is, whatever
  stands in its middle.
-/

namespace Scaffold.Text

variable {p : Char → Bool} {s t before after : List Char} {c : Char}

/-- `t` is what is left of `s` without the characters of class `p` around it. -/
structure Trimmed (p : Char → Bool) (s t : List Char) : Prop where
  /-- only characters of the class are taken away -/
  around : ∃ before after, s = before ++ t ++ after ∧
    (∀ c ∈ before, p c = true) ∧ ∀ c ∈ after, p c = true
  /-- what is left does not begin with one -/
  start : ∀ c, t.head? = some c → p c = false
  /-- nor does it end with one -/
  finish : ∀ c, t.getLast? = some c → p c = false

theorem infix_trimBy (p : Char → Bool) (s : List Char) : trimBy p s <:+: s :=
  (List.rdropWhile_prefix p (s.dropWhile p)).isInfix.trans (List.dropWhile_suffix p).isInfix

/-- A trimmed text does not begin with what was trimmed. -/
theorem head?_trimBy (h : (trimBy p s).head? = some c) : p c = false := by
  obtain ⟨rest, hrest⟩ := List.head?_eq_some_iff.1 h
  obtain ⟨after, hafter⟩ := List.rdropWhile_prefix p (s.dropWhile p)
  have hdrop : s.dropWhile p = c :: (rest ++ after) := by
    rw [← hafter, ← List.cons_append, ← hrest]
    rfl
  have hstop := List.head?_dropWhile_not p s
  rw [hdrop] at hstop
  simpa using hstop

/-- Nor does it end with it. -/
theorem getLast?_trimBy (h : (trimBy p s).getLast? = some c) : p c = false := by
  rw [trimBy, trimEnd, List.getLast?_reverse] at h
  have hstop := List.head?_dropWhile_not p (s.dropWhile p).reverse
  rw [h] at hstop
  simpa using hstop

/-- A text is left as it is if its ends are. -/
theorem trimBy_of_ends (hstart : ∀ c, s.head? = some c → p c = false)
    (hfinish : ∀ c, s.getLast? = some c → p c = false) : trimBy p s = s := by
  have hdrop : s.dropWhile p = s := by
    cases s with
    | nil => rfl
    | cons c rest => exact List.dropWhile_cons_of_neg (by simp [hstart c rfl])
  have hend : s.rdropWhile p = s := by
    refine List.rdropWhile_eq_self_iff.2 fun hne => ?_
    simp [hfinish _ (List.getLast?_eq_some_getLast hne)]
  rw [trimBy, hdrop]
  exact hend

theorem trimBy_eq_self (h : ∀ c ∈ s, p c = false) : trimBy p s = s :=
  trimBy_of_ends (fun c hc => h c (List.mem_of_head? hc)) fun c hc => h c (List.mem_of_getLast? hc)

/-! ## Trimming as a relation -/

theorem trimmed_trimBy (p : Char → Bool) (s : List Char) : Trimmed p s (trimBy p s) := by
  refine ⟨⟨s.takeWhile p, (s.dropWhile p).rtakeWhile p, ?_, ?_, ?_⟩, ?_, ?_⟩
  · calc s = s.takeWhile p ++ s.dropWhile p := List.takeWhile_append_dropWhile.symm
      _ = s.takeWhile p ++ (trimBy p s ++ (s.dropWhile p).rtakeWhile p) :=
        congrArg (s.takeWhile p ++ ·) List.rdropWhile_append_rtakeWhile.symm
      _ = s.takeWhile p ++ trimBy p s ++ (s.dropWhile p).rtakeWhile p :=
        (List.append_assoc _ _ _).symm
  · intro c hc
    exact List.mem_takeWhile_imp hc
  · intro c hc
    exact List.mem_rtakeWhile_imp hc
  · intro c hc
    exact head?_trimBy hc
  · intro c hc
    exact getLast?_trimBy hc

theorem trimEnd_append_of_forall (h : ∀ c ∈ after, p c = true) (s : List Char) :
    trimEnd p (s ++ after) = trimEnd p s := by
  have hreverse : ∀ c ∈ after.reverse, p c = true := fun c hc => h c (List.mem_reverse.1 hc)
  rw [trimEnd, List.reverse_append, List.dropWhile_append_of_pos hreverse, trimEnd]

theorem trimBy_append_of_forall (hbefore : ∀ c ∈ before, p c = true)
    (hafter : ∀ c ∈ after, p c = true) (s : List Char) :
    trimBy p (before ++ s ++ after) = trimBy p s := by
  rw [List.append_assoc, trimBy, List.dropWhile_append_of_pos hbefore, List.dropWhile_append, trimBy]
  split
  · -- the whole text consists of the class
    rename_i hempty
    rw [List.isEmpty_iff.1 hempty, List.dropWhile_eq_nil_iff.2 hafter]
  · exact trimEnd_append_of_forall hafter _

/-- **Trimming** leaves the one text that stands between characters of the class. -/
theorem trimmed_iff : Trimmed p s t ↔ t = trimBy p s := by
  constructor
  · rintro ⟨⟨before, after, rfl, hbefore, hafter⟩, hstart, hfinish⟩
    rw [trimBy_append_of_forall hbefore hafter, trimBy_of_ends hstart hfinish]
  · rintro rfl
    exact trimmed_trimBy p s

end Scaffold.Text
