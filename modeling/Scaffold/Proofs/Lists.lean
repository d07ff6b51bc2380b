import Mathlib.Data.List.Basic

/-!
# Members and stretches of lists

* **Deciding about all members** of a list is done member by member. The instance stands before those
  that run through a whole type, such as all characters.
* **Where a class of characters ends**: a text that begins with characters of a class, and then goes on
  with a character that is not of it or not at all, is cut at the end of the class.
-/

namespace Scaffold

instance (priority := high) decidableForallMem {α : Type} (p : α → Prop) [DecidablePred p]
    (l : List α) : Decidable (∀ a ∈ l, p a) := List.decidableBAll p l

namespace Text

variable {p : Char → Bool} {s t : List Char}

theorem forall_bne_of_not_mem {d : Char} (h : d ∉ s) : ∀ c ∈ s, (c != d) = true := by
  intro c hc
  have hne : c ≠ d := fun heq => h (heq ▸ hc)
  simpa using hne

theorem takeWhile_append_of_stop (hs : ∀ c ∈ s, p c = true) (ht : ∀ c ∈ t.head?, p c = false) :
    (s ++ t).takeWhile p = s := by
  rw [List.takeWhile_append_of_pos hs]
  cases t with
  | nil => rw [List.takeWhile_nil, List.append_nil]
  | cons c t => rw [List.takeWhile_cons_of_neg (by simp [ht c rfl]), List.append_nil]

theorem dropWhile_append_of_stop (hs : ∀ c ∈ s, p c = true) (ht : ∀ c ∈ t.head?, p c = false) :
    (s ++ t).dropWhile p = t := by
  rw [List.dropWhile_append_of_pos hs]
  cases t with
  | nil => rfl
  | cons c t => rw [List.dropWhile_cons_of_neg (by simp [ht c rfl])]

end Text

end Scaffold
