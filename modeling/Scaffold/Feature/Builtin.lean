import Scaffold.Feature.CommitChecks
import Scaffold.Feature.Linting
import Scaffold.Feature.Routing
import Scaffold.Feature.Storage
import Scaffold.Feature.Styling
import Scaffold.Feature.UtilityClasses

/-!
# The features that come with the program

Their order is the order of the imports and calls in the entry file.
-/

namespace Scaffold

/-- The features that come with the program. -/
inductive Builtin where
  /-- routes -/
  | routing
  /-- a store -/
  | storage
  /-- linting -/
  | linting
  /-- utility classes -/
  | utilityClasses
  /-- a style strategy -/
  | styling
  /-- commit checks -/
  | commitChecks
  deriving DecidableEq, Repr

namespace Builtin

/-- All features, in order. -/
def all : List Builtin :=
  [.routing, .storage, .linting, .utilityClasses, .styling, .commitChecks]

/-- The provider of a feature. -/
def provider (src : Template.Source) : Builtin → Provider
  | .routing => Feature.routing src
  | .storage => Feature.storage src
  | .linting => Feature.linting src
  | .utilityClasses => Feature.utilityClasses src
  | .styling => Feature.styling
  | .commitChecks => Feature.commitChecks src

end Builtin

/-- The providers of all features, in order. -/
def builtinProviders (src : Template.Source) : List Provider := Builtin.all.map (·.provider src)

end Scaffold
