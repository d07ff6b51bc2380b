/-!
# Outcomes

A computation without effects gives a value, or the reason why there is none. What it gave is known
from its parts: a sequence has a value exactly if both of its parts have one, and other words for the
reason change no value.
-/

namespace Scaffold

variable {ε δ α β : Type} {x : Except ε α} {f : α → Except ε β} {g : ε → δ} {a : α} {b : β} {d : δ}

theorem bind_eq_ok_iff : (x >>= f) = .ok b ↔ ∃ a, x = .ok a ∧ f a = .ok b := by
  cases x <;> simp [bind, Except.bind]

theorem isOk_eq_true_iff : x.isOk = true ↔ ∃ a, x = .ok a := by
  cases x <;> simp [Except.isOk, Except.toBool]

theorem isOk_eq_false_iff : x.isOk = false ↔ ∃ e, x = .error e := by
  cases x <;> simp [Except.isOk, Except.toBool]

theorem mapError_eq_ok_iff : x.mapError g = .ok a ↔ x = .ok a := by
  cases x with
  | error e => exact iff_of_false nofun nofun
  | ok v =>
    change (.ok v : Except δ α) = .ok a ↔ _
    simp

theorem mapError_eq_error_iff : x.mapError g = .error d ↔ ∃ e, x = .error e ∧ g e = d := by
  cases x with
  | error e =>
    change Except.error (g e) = .error d ↔ _
    simp
  | ok v => exact iff_of_false nofun nofun

end Scaffold
