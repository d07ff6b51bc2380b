import Scaffold.Composition
import Scaffold.Proofs.Run.Calculus
import Mathlib.Data.List.Nodup

/-!
# The steps of a composition

A composition touches files only through the features that it sets up: merging effects and reporting
events leave the files alone.
-/

namespace Scaffold

open Run

variable {L : List (List String)} {project : Path} {o : Options} {P : Session → Prop}

/-- Names that differ are not refused. -/
theorem repeatedNames_of_nodup {names : List String} (h : names.Nodup) : repeatedNames names = [] := by
  have hnone : (names.filter fun name => 1 < names.count name) = [] := by
    refine List.filter_eq_nil_iff.2 fun name _ => ?_
    have hcount := List.nodup_iff_count_le_one.1 h name
    simpa using hcount
  rw [repeatedNames, hnone]
  simp

theorem within_recordEffects (a : Ledger) (feature : String) (e : Effects) :
    Within L (recordEffects a feature e) := by
  unfold recordEffects
  rcases a.record feature e with ⟨a, _ | events⟩
  · exact (Quiet.failWith _).within
  · exact (Within.forM Within.report events).bind fun _ => (Quiet.pure _).within

theorem within_composeStep {p : Provider} (hp : p.selected o → Within L (p.install project o))
    (a : Ledger) : Within L (composeStep project o a p) := by
  unfold composeStep
  split
  · rename_i hselected
    refine (Within.report _).bind fun _ => (hp hselected).bind fun effects => ?_
    exact within_recordEffects a p.name effects
  · exact (Within.report _).bind fun _ => (Quiet.pure _).within

theorem within_compose {providers : List Provider}
    (hproviders : ∀ p ∈ providers, p.selected o → Within L (p.install project o)) :
    Within L (compose project o providers) := by
  unfold compose
  split
  · refine Within.bind ?_ fun a => (Within.report _).bind fun _ => (Quiet.pure _).within
    exact Within.foldlM _ (fun a p hp => within_composeStep (hproviders p hp) a) _
  · exact (Quiet.failWith _).within

/-- A property of the files persists under whatever leaves the files alone. -/
theorem Run.Within.maintains {α : Type} {r : Run α} (h : Within [] r)
    (hP : ∀ {s t}, Frame [] s t → P s → P t) : Maintains P r :=
  fun s hs => hP (h.frame s) hs

variable (hP : ∀ {s t}, Frame [] s t → P s → P t)
include hP

theorem maintains_composeStep {p : Provider}
    (hp : p.selected o → Maintains P (p.install project o)) (a : Ledger) :
    Maintains P (composeStep project o a p) := by
  unfold composeStep
  split
  · rename_i hselected
    refine ((Within.report _).maintains hP).bind fun _ => (hp hselected).bind fun effects => ?_
    exact (within_recordEffects a p.name effects).maintains hP
  · exact ((Within.report _).maintains hP).bind fun _ => (Quiet.pure _).maintains

/-- **A composition keeps what its features keep.** -/
theorem maintains_compose {providers : List Provider}
    (hproviders : ∀ p ∈ providers, p.selected o → Maintains P (p.install project o)) :
    Maintains P (compose project o providers) := by
  unfold compose
  split
  · refine Maintains.bind ?_ fun a => ?_
    · exact Maintains.foldlM _ (fun a p hp => maintains_composeStep hP (hproviders p hp) a) _
    · exact ((Within.report _).maintains hP).bind fun _ => (Quiet.pure _).maintains
  · exact (Quiet.failWith _).maintains

end Scaffold
