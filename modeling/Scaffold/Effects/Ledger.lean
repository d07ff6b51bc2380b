import Scaffold.Effects
import Scaffold.Failure
import Scaffold.Log

/-!
# Merging effects

The effects of features are merged one feature after another.

* **Keyed sections** belong to whoever declares a key first; a later feature may repeat the value but
  not change it. The owners are kept in a map of their own beside the values.
* **Names** of packages keep the position at which they were first asked for.
* **Statements** keep their order of arrival. A repeated one is kept too, and reported.
* **A refusal stops the merging** where it is found: what was merged before it stays.
-/

namespace Scaffold

/-- A section that remembers which feature declared each key first. -/
structure OwnedEntries (α : Type) where
  /-- the values -/
  values : Entries α := []
  /-- the features that declared them first -/
  owners : Entries String := []
  deriving Repr

namespace OwnedEntries

variable {α : Type}

/-- Why a value is refused. -/
inductive Refusal (α : Type) where
  /-- its owner declared another value for the key -/
  | clash (key owner : String) (first second : α)
  /-- there is another value for the key, but no owner -/
  | ownerless (key : String)

/-- Why a value is refused for a key, if it is. -/
def refusal? (agree : α → α → Bool) (m : OwnedEntries α) (key : String) (value : α) :
    Option (Refusal α) :=
  match m.values.get? key with
  | none => none
  | some first =>
    if agree first value then none
    else
      match m.owners.get? key with
      | none => some (.ownerless key)
      | some owner => some (.clash key owner first value)

/-- Gives a key a value and an owner, unless it has them. -/
def claim (m : OwnedEntries α) (feature key : String) (value : α) : OwnedEntries α where
  values := m.values.insertNew key value
  owners := m.owners.insertNew key feature

/-- Merges what a feature declares, one key after another, up to the first refusal. -/
def merge (agree : α → α → Bool) (feature : String) (m : OwnedEntries α) :
    Entries α → OwnedEntries α × Option (Refusal α)
  | [] => (m, none)
  | (key, value) :: rest =>
    match m.refusal? agree key value with
    | some refusal => (m, some refusal)
    | none => merge agree feature (m.claim feature key value) rest

end OwnedEntries

/-- The effects merged so far. -/
structure Ledger where
  /-- the features that were merged to their end -/
  features : List String := []
  /-- the packages of the application -/
  dependencies : List String := []
  /-- the packages of its development -/
  devDependencies : List String := []
  /-- the scripts -/
  scripts : OwnedEntries String := {}
  /-- the commands on changed files -/
  lintStaged : OwnedEntries String := {}
  /-- the settings of tools -/
  packageConfig : OwnedEntries Json := {}
  /-- the import lines -/
  imports : List String := []
  /-- the calls on the application -/
  useCalls : List String := []

namespace Ledger

/-- Adds the names that are not there yet. -/
def includeNames (names new : List String) : List String :=
  new.foldl (fun seen name => if seen.contains name then seen else seen ++ [name]) names

/-- Adds statements; each that is there already is reported. -/
def addStatements (kind : Statement) (feature : String) (seen : List String) :
    List String → List String × List Event
  | [] => (seen, [])
  | text :: rest =>
    let (all, events) := addStatements kind feature (seen ++ [text]) rest
    (all, if seen.contains text then .repeated kind text feature :: events else events)

/-- A refusal in a section as a failure. -/
def refused {α : Type} (field feature : String) (toJson : α → Json) :
    OwnedEntries.Refusal α → Failure
  | .clash key owner first second =>
    .disagreement ⟨field, key, owner, toJson first, feature, toJson second⟩
  | .ownerless key => .noOwner key

/-- Merges the keyed sections of a feature: scripts, then commands, then settings. -/
def mergeSections (a : Ledger) (feature : String) (e : Effects) :
    Ledger × Option Failure :=
  let (scripts, refusal) := a.scripts.merge (· == ·) feature e.scripts
  let a := { a with scripts }
  match refusal with
  | some r => (a, some (refused "scripts" feature (fun s : String => .str s) r))
  | none =>
    let (lintStaged, refusal) := a.lintStaged.merge (· == ·) feature e.lintStaged
    let a := { a with lintStaged }
    match refusal with
    | some r => (a, some (refused "lint-staged" feature (fun s : String => .str s) r))
    | none =>
      let (packageConfig, refusal) := a.packageConfig.merge Json.agrees feature e.packageConfig
      let a := { a with packageConfig }
      (a, refusal.map (refused "config" feature id))

/-- Merges the effects of a feature: the new state, and the reports or the clash. -/
def record (a : Ledger) (feature : String) (e : Effects) :
    Ledger × Except Failure (List Event) :=
  match a.mergeSections feature e with
  | (a, some failure) => (a, .error failure)
  | (a, none) =>
    let (imports, importEvents) := addStatements .importLine feature a.imports e.imports
    let (useCalls, callEvents) := addStatements .useCall feature a.useCalls e.useCalls
    ({ a with
        features := a.features ++ [feature]
        dependencies := includeNames a.dependencies e.dependencies
        devDependencies := includeNames a.devDependencies e.devDependencies
        imports, useCalls },
      .ok (importEvents ++ callEvents))

/-- The merged effects. -/
def total (a : Ledger) : MergedEffects where
  dependencies := a.dependencies
  devDependencies := a.devDependencies
  scripts := a.scripts.values
  lintStaged := a.lintStaged.values
  imports := a.imports
  useCalls := a.useCalls
  packageConfig := a.packageConfig.values
  features := a.features

end Ledger

end Scaffold
