import Scaffold.BuildConfig
import Scaffold.Feature

/-!
# Utility classes

The feature adds the configuration of the engine that generates utility classes, and registers the
engine with the build.
-/

namespace Scaffold.Feature

/-- The line that imports the engine's plugin. -/
def utilityImport : String := "import UnoCSS from 'unocss/vite'"

/-- The call of the engine's plugin. -/
def utilityCall : String := "UnoCSS()"

/-- Registers the engine in a build configuration. -/
def registerUtility (content : String) : Except Text.AnchorFault String := do
  BuildConfig.insertPlugin (← BuildConfig.insertImports content [utilityImport]) utilityCall

/-- What the utility class feature asks for. -/
def utilityEffects : Effects where
  devDependencies := ["unocss", "@unocss/eslint-plugin"]
  imports := ["import 'virtual:uno.css'"]

/-- The utility class feature. -/
def utilityClasses (src : Template.Source) : Provider where
  name := "unocss"
  selected o := o.unocss
  install project o := do
    src.emit "unocss/uno.config.js.tpl" (below project [s!"uno.config.{o.scriptExtension}"])
      (context o)
    let path := buildConfigAt project o.typescript
    let content ← Disk.require path (some "unocss")
    Disk.write path (← patched path (registerUtility content))
    return utilityEffects

end Scaffold.Feature
