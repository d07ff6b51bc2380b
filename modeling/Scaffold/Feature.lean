import Scaffold.Effects
import Scaffold.Options
import Scaffold.Template.Source

/-!
# Features

A feature is an optional capability of a project. Its provider writes the files that the feature
owns, below the project's directory, and returns what it asks for beyond them.
-/

namespace Scaffold

/-- The provider of a feature. -/
structure Provider where
  /-- the name of the feature -/
  name : String
  /-- whether the options ask for the feature -/
  selected : Options → Bool
  /-- writes the feature's files below a directory -/
  install : Path → Options → Run Effects

namespace Feature

/-- What the templates of a feature may mention. -/
def context (o : Options) : Template.Context := Template.ofTexts o.templateTexts

/-- A path below the project's directory, given by the names on the way. -/
def below (project : Path) (names : List String) : Path := ⟨project.anchor, project.parts ++ names⟩

/-- The file that configures the build. -/
def buildConfigAt (project : Path) (typescript : Bool) : Path :=
  below project [if typescript then "vite.config.ts" else "vite.config.js"]

/-- The entry file of the application. -/
def entryAt (project : Path) (typescript : Bool) : Path :=
  below project ["src", if typescript then "main.ts" else "main.js"]

/-- The outcome of a patch to the file at a path. -/
def patched {α : Type} (path : Path) (r : Except Text.AnchorFault α) : Run α :=
  orFail (.anchor path) r

end Feature

end Scaffold
