import Scaffold.Effects.Ledger
import Scaffold.Feature

/-!
# Composing features

The enabled features are set up one after another, in the order of their providers, and their effects
are merged.

* **Names are checked first.** Two providers with one name, enabled or not, end the composition
  before anything is set up.
* **The first failure ends it.** What earlier features wrote stays.
-/

namespace Scaffold

/-- The names that occur more than once, each once, in ascending order. -/
def repeatedNames (names : List String) : List String :=
  (names.filter fun name => 1 < names.count name).eraseDups.mergeSort (· ≤ ·)

/-- Merges the effects of a feature and reports the repeated statements. -/
def recordEffects (a : Ledger) (feature : String) (e : Effects) : Run Ledger := do
  match a.record feature e with
  | (_, .error failure) => failWith failure
  | (a, .ok events) =>
    events.forM report
    return a

/-- Sets up one feature if it is enabled, and merges its effects. -/
def composeStep (project : Path) (o : Options) (a : Ledger) (p : Provider) :
    Run Ledger := do
  if p.selected o then
    report (.settingUp p.name)
    let effects ← p.install project o
    recordEffects a p.name effects
  else
    report (.skipping p.name)
    return a

/-- Sets up the enabled features below a directory, and gives their merged effects. -/
def compose (project : Path) (o : Options) (providers : List Provider) : Run MergedEffects := do
  match repeatedNames (providers.map (·.name)) with
  | [] =>
    let a ← providers.foldlM (composeStep project o) {}
    let effects := a.total
    report (.composed effects.features effects.dependencies effects.devDependencies)
    return effects
  | names => failWith (.repeatedProviders names)

end Scaffold
