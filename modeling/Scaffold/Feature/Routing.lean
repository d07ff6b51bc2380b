import Scaffold.AppView
import Scaffold.Feature

/-!
# Routing

The routing feature adds the routes and a first view, and lets the root component show the current
route instead of the greeting.
-/

namespace Scaffold.Feature

/-- Lets the root component show the current route. -/
def patchAppView (path : Path) : Run Unit := do
  let content ← Disk.require path (some "router")
  if AppView.showsRoute content then
    report (.routeShownBefore path)
  else
    Disk.write path (← patched path (AppView.showRoute content))
    report (.routeShown path)

/-- What the routing feature asks for. -/
def routingEffects : Effects where
  dependencies := ["vue-router"]
  imports := ["import router from './router'"]
  useCalls := [".use(router)"]

/-- The routing feature. -/
def routing (src : Template.Source) : Provider where
  name := "router"
  selected o := o.router
  install project o := do
    let ext := o.scriptExtension
    src.emit s!"router/router.{ext}.tpl" (below project ["src", "router", s!"index.{ext}"])
      (context o)
    src.emit "router/Home.vue.tpl" (below project ["src", "views", "Home.vue"]) (context o)
    patchAppView (below project ["src", "App.vue"])
    return routingEffects

end Scaffold.Feature
