import Scaffold.Feature

/-!
# The store

The store feature adds the instance that holds the application's stores, and an example store.
-/

namespace Scaffold.Feature

/-- What the store feature asks for. -/
def storageEffects : Effects where
  dependencies := ["pinia"]
  imports := ["import pinia from './store'"]
  useCalls := [".use(pinia)"]

/-- The store feature. -/
def storage (src : Template.Source) : Provider where
  name := "store"
  selected o := o.store
  install project o := do
    let ext := o.scriptExtension
    let file (name : String) := below project ["src", "store", s!"{name}.{ext}"]
    src.emit s!"store/index.{ext}.tpl" (file "index") (context o)
    src.emit s!"store/counter.{ext}.tpl" (file "counter") (context o)
    return storageEffects

end Scaffold.Feature
