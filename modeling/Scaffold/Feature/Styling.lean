import Scaffold.BuildConfig
import Scaffold.Feature

/-!
# Styling

The styling feature installs the chosen strategy. A preprocessor needs nothing but its package; the
transformer is configured in the build configuration.
-/

namespace Scaffold.Feature

/-- The lines that import what the transformer's configuration needs. -/
def transformerImports : List String :=
  ["import browserslist from 'browserslist'",
   "import \x7b browserslistToTargets \x7d from 'lightningcss'"]

/-- The entries of the build configuration that choose the transformer. -/
def transformerBlock : String := "\n".intercalate
  ["css: \x7b",
   "  transformer: 'lightningcss',",
   "  lightningcss: \x7b",
   "    targets: browserslistToTargets(browserslist('>= 0.25%')),",
   "  \x7d,",
   "\x7d,",
   "build: \x7b",
   "  cssMinify: 'lightningcss',",
   "\x7d,"]

/-- The text that tells that the transformer is chosen already. -/
def transformerMarker : String := "transformer: 'lightningcss'"

/-- Chooses the transformer in a build configuration. -/
def chooseTransformer (content : String) : Except Text.AnchorFault String := do
  BuildConfig.insertSettings (← BuildConfig.insertImports content transformerImports) transformerBlock
    transformerMarker

/-- Chooses the transformer in the build configuration at a path. -/
def patchTransformer (path : Path) : Run Unit := do
  let content ← Disk.require path (some "css")
  Disk.write path (← patched path (chooseTransformer content))
  report (.transformerSet path)

/-- The packages that a strategy needs. Plain style sheets are no strategy to set up. -/
def stylePackages? : StyleStrategy → Option (List String)
  | .none => none
  | .sass => some ["sass"]
  | .less => some ["less"]
  | .lightningcss => some ["lightningcss", "browserslist"]

/-- The styling feature. -/
def styling : Provider where
  name := "css"
  selected o := o.css != .none
  install project o := do
    if o.css == .lightningcss then
      patchTransformer (buildConfigAt project o.typescript)
    match stylePackages? o.css with
    | none => failWith .noStrategy
    | some packages => return { devDependencies := packages }

end Scaffold.Feature
