import Scaffold.Effects.Ledger
import Scaffold.Proofs.Entries

/-!
# What a ledger holds

After the effects of a feature have been merged, the statements are the old ones and then the new ones,
and every setting is an old one or one of the feature's.
-/

namespace Scaffold

namespace OwnedEntries

variable {α : Type} {agree : α → α → Bool} {feature key : String} {m : OwnedEntries α}
  {new : Entries α} {first value : α}

/-! ## One value -/

/-- A new key is accepted, and a known one if the values agree. -/
theorem refusal?_eq_none_iff :
    m.refusal? agree key value = none ↔
      ∀ first, m.values.get? key = some first → agree first value = true := by
  unfold refusal?
  cases hfirst : m.values.get? key with
  | none => exact ⟨fun _ => nofun, fun _ => rfl⟩
  | some first =>
    simp only [Option.some.injEq, forall_eq']
    constructor
    · intro h
      by_contra hne
      rw [if_neg hne] at h
      cases howner : m.owners.get? key with
      | none => simp [howner] at h
      | some owner => simp [howner] at h
    · intro h
      rw [if_pos h]

/-- A claimed value is in the section unless there was another one. -/
theorem get?_values_claim (m : OwnedEntries α) (feature key other : String) (value : α) :
    (m.claim feature key value).values.get? other =
      (m.values.get? other).or (if key = other then some value else none) :=
  Entries.get?_insertNew _ _ _ _

theorem mem_values_claim {x : String × α} (h : x ∈ (m.claim feature key value).values) :
    x ∈ m.values ∨ x = (key, value) := by
  rw [claim, Entries.insertNew] at h
  split at h
  · exact .inl h
  · simpa using h

/-! ## All values of a feature -/

theorem mem_merge {x : String × α} (h : x ∈ (merge agree feature m new).1.values) :
    x ∈ m.values ∨ x ∈ new := by
  induction new generalizing m with
  | nil => exact .inl h
  | cons e new ih =>
    rw [merge] at h
    split at h
    · exact .inl h
    · rcases ih h with hclaimed | hnew
      · rcases mem_values_claim hclaimed with hold | rfl
        · exact .inl hold
        · exact .inr (.head _)
      · exact .inr (.tail _ hnew)

end OwnedEntries

namespace Ledger

variable {a b : Ledger} {feature : String} {e : Effects} {events : List Event}

theorem addStatements_fst (kind : Statement) (feature : String) (seen new : List String) :
    (addStatements kind feature seen new).1 = seen ++ new := by
  induction new generalizing seen with
  | nil => simp [addStatements]
  | cons text new ih =>
    simp only [addStatements, ih]
    simp

/-- The sections do not concern the statements; a setting is an old one or a new one. -/
theorem mergeSections_eq (a : Ledger) (feature : String) (e : Effects) :
    (a.mergeSections feature e).1.imports = a.imports ∧
      (a.mergeSections feature e).1.useCalls = a.useCalls ∧
      ∀ x ∈ (a.mergeSections feature e).1.packageConfig.values,
        x ∈ a.packageConfig.values ∨ x ∈ e.packageConfig := by
  unfold mergeSections
  simp only
  split
  · exact ⟨rfl, rfl, fun _ hx => .inl hx⟩
  · split
    · exact ⟨rfl, rfl, fun _ hx => .inl hx⟩
    · exact ⟨rfl, rfl, fun _ hx => OwnedEntries.mem_merge hx⟩

/-- **What a ledger holds after a feature was merged.** -/
theorem record_ok (h : a.record feature e = (b, .ok events)) :
    b.imports = a.imports ++ e.imports ∧ b.useCalls = a.useCalls ++ e.useCalls ∧
      ∀ x ∈ b.packageConfig.values, x ∈ a.packageConfig.values ∨ x ∈ e.packageConfig := by
  obtain ⟨himports, huseCalls, hconfig⟩ := mergeSections_eq a feature e
  unfold record at h
  split at h
  · cases h
  · rename_i merged hmerged
    rw [hmerged] at himports huseCalls hconfig
    cases h
    simp only [addStatements_fst]
    exact ⟨by rw [himports], by rw [huseCalls], hconfig⟩

end Ledger

end Scaffold
