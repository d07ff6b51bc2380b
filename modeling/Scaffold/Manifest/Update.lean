import Scaffold.Effects
import Scaffold.Manifest

/-!
# Updating a manifest

The merged effects of the features are applied to the manifest of the seed project.

* **Scripts, tasks and settings** replace entries of the same key and otherwise go to the end. Tasks
  and settings that nothing is declared for stay as they are, absent or null.
* **Dependencies** that are new get a version marker, known ones keep their version, and both
  sections end up sorted by name.
-/

namespace Scaffold.Manifest

/-- The version marker for new packages, unless another one is chosen. -/
def latest : String := "latest"

/-- Adds the packages that are not there yet, and sorts all by name. -/
def addPackages (old : Entries Wide Wide) (names : List String) (version : String) :
    Entries Wide Wide :=
  let all := names.foldl (fun m name => m.insertNew (.text name) version) old
  all.mergeSort fun a b => a.1 ≤ b.1

/-- Writes the declared entries over a section that may be absent. -/
def writeSection {α : Type} (old : Option (Entries α Wide)) (new : Entries α) :
    Option (Entries α Wide) :=
  if new.isEmpty then old else some (Entries.insertAll (old.getD []) new.textKeys)

/-- Applies effects to a manifest. -/
def withEffects (version : String) (m : Manifest) (e : Effects) : Manifest :=
  { m with
    scripts := Entries.insertAll m.scripts (Entries.textKeys (e.scripts.map fun (k, s) => (k, .text s)))
    lintStaged := writeSection m.lintStaged (e.lintStaged.map fun (k, s) => (k, .command s))
    dependencies := addPackages m.dependencies e.dependencies version
    devDependencies := addPackages m.devDependencies e.devDependencies version
    config := writeSection m.config e.packageConfig }

end Scaffold.Manifest
