import Scaffold.Entries
import Scaffold.Json.Basic

/-!
# Effects of features

What a feature asks for beyond the files it writes itself: dependencies, manifest entries, and
statements of the entry file. The effects of all features are merged before anything is written.

* **Names, commands and statements are texts.** Only the settings of tools are values that may hold
  other strings.
-/

namespace Scaffold

/-- What one feature asks for. -/
structure Effects where
  /-- packages that the application needs -/
  dependencies : List String := []
  /-- packages that its development needs -/
  devDependencies : List String := []
  /-- scripts of the manifest -/
  scripts : Entries String := []
  /-- commands to run on changed files, by pattern -/
  lintStaged : Entries String := []
  /-- import lines of the entry file -/
  imports : List String := []
  /-- calls on the application, such as `.use(router)` -/
  useCalls : List String := []
  /-- settings of tools, by tool -/
  packageConfig : Entries Json := []
  deriving Repr

/-- What the features of a run ask for together. -/
structure MergedEffects extends Effects where
  /-- the features in the order of their merging -/
  features : List String := []
  deriving Repr

end Scaffold
