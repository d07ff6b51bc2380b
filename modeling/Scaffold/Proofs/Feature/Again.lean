import Scaffold.Proofs.Feature.Settled

/-!
# Setting up a feature again

Setting up a feature where it is set up already gives the same effects and changes no file. The
routing feature does not where it lost the route: it finds no place for the route any more.

* **The second run may come later.** Only the files count that the first one left.
* **Shipped templates** are there in every session, so a project with a root component is enough to
  set up the routing feature.
-/

namespace Scaffold

open Run Feature

variable {src : Template.Source} {project : Path} {o : Options} {b : Builtin} {s t u : Session}
  {e : Effects}

namespace Builtin

/-- Where the route was lost, the feature ends at the root component. -/
theorem perform_routing_of_lost (hroutes : RoutesWritten src project o s)
    (hlost : RouteLost (appViewAt project) s) :
    ∃ t, ((provider src .routing).install project o).perform s =
      (.error (.anchor (appViewAt project) ⟨AppView.greetingPattern, 0⟩), t) ∧ SameFiles s t := by
  obtain ⟨e, hinstall⟩ := exists_install_routing src project o
  obtain ⟨t, hwrite, hst⟩ := ((settles_writeRoutes src project o).stays hroutes).perform_eq
  rw [hinstall, perform_bind_of_ok hwrite]
  exact ⟨t, perform_bind_of_error (hlost.congr hst).perform_patchAppView, hst⟩

/-- **Setting up a feature again** succeeds with the same effects and changes no file, unless the
route was lost; then it fails and changes no file. -/
theorem install_again (h : ((b.provider src).install project o).perform s = (.ok e, t))
    (ht : SameFiles t u) :
    (¬ b.Loses src project o s → Stays ((b.provider src).install project o) e u) ∧
      (b.Loses src project o s → ∃ v, ((b.provider src).install project o).perform u =
        (.error (.anchor (appViewAt project) ⟨AppView.greetingPattern, 0⟩), v) ∧ SameFiles u v) := by
  constructor
  · intro hkept
    obtain ⟨e', hinstalls⟩ := exists_installs src project o b
    obtain rfl := hinstalls.effects h
    exact hinstalls.lasts.stays (hinstalls.lasts.congr ht (hinstalls.settled h hkept))
  · rintro ⟨rfl, hloses⟩
    obtain ⟨hroutes, ⟨hkept, -⟩ | ⟨-, hlost⟩⟩ := perform_routing_ok h
    · exact absurd hloses hkept
    · exact perform_routing_of_lost ((settles_writeRoutes src project o).toLasts.congr ht hroutes)
        (hlost.congr ht)

/-! ## A project with a root component -/

/-- A project that holds nothing but a root component. -/
def viewSeed (view : String) : Session where
  tree := ⟨
    [(["demo"], .directory), (["demo", "src"], .directory),
     (["demo", "src", "App.vue"], .file view.toUTF8)]⟩
  here := ["demo"]
  log := []

theorem reads_viewSeed {view : String} (hr : '\r' ∉ view.toList) :
    Disk.Reads (appViewAt ⟨.here, []⟩) view (viewSeed view) :=
  ⟨view.toUTF8, rfl, Disk.textOf_toUTF8 hr⟩

/-- The options of a project with routes. -/
def routerOptions : Options := { projectName := "demo", router := true }

set_option maxRecDepth 100000 in
/-- Both files of the routing feature can be written, whatever they hold. -/
theorem perform_writes_viewSeed (view text text' : String) : ((do
    Disk.write (below ⟨.here, []⟩ ["src", "router", s!"index.{routerOptions.scriptExtension}"]) text
    Disk.write (below ⟨.here, []⟩ ["src", "views", "Home.vue"]) text' : Run Unit).perform
      (viewSeed view)).1.isOk = true := by
  rfl

theorem exists_writeRoutes_viewSeed (view : String) :
    ∃ u, (writeRoutes .shipped ⟨.here, []⟩ routerOptions).perform (viewSeed view) = (.ok (), u) := by
  have hshipped := templateNames_subset routerOptions.typescript .routing (mem_all _)
  obtain ⟨text, htext⟩ := Template.exists_render_shipped (context routerOptions) (hshipped (.head _))
  obtain ⟨text', htext'⟩ :=
    Template.exists_render_shipped (context routerOptions) (hshipped (.tail _ (.head _)))
  obtain ⟨_, u, hwrites⟩ := exists_perform_ok (perform_writes_viewSeed view text text')
  obtain ⟨_, v, hfirst, hsecond⟩ := perform_bind_ok.1 hwrites
  refine ⟨u, perform_bind_ok.2 ⟨(), v, ?_, ?_⟩⟩
  · exact (perform_bind_of_ok (htext _)).trans hfirst
  · exact (perform_bind_of_ok (htext' v)).trans hsecond

/-- The root component is patched after the other files have been written. -/
theorem exists_routing_viewSeed (view text : String) (hr : '\r' ∉ view.toList)
    (hnew : AppView.showsRoute view = false) (hshow : AppView.showRoute view = .ok text) :
    (LosesRoute .shipped ⟨.here, []⟩ routerOptions (viewSeed view) ↔ AppView.GreetingOnImport view) ∧
      ∃ e t, ((provider .shipped .routing).install ⟨.here, []⟩ routerOptions).perform
        (viewSeed view) = (.ok e, t) := by
  have hplain := plain_appView routerOptions
  have hpath := suffix_below ⟨.here, []⟩ ["src", "App.vue"]
  obtain ⟨u, hroutes⟩ := exists_writeRoutes_viewSeed view
  have hview := reads_viewSeed hr
  have hreads : Disk.Reads (appViewAt ⟨.here, []⟩) view u := by
    have hframe := (settles_writeRoutes .shipped ⟨.here, []⟩ routerOptions).within.frame_of_perform
      hroutes
    exact hview.of_frame hframe hplain hpath (apart_appView routerOptions)
  constructor
  · exact ⟨fun hloses => hloses.greetingOnImport hview, fun hon => ⟨u, hroutes, view, hreads, hnew, hon⟩⟩
  · obtain ⟨e, hinstall⟩ := exists_install_routing .shipped ⟨.here, []⟩ routerOptions
    obtain ⟨v, hpatch⟩ : ∃ v, (patchAppView (appViewAt ⟨.here, []⟩)).perform u = (.ok (), v) :=
      exists_perform_patchAppView (parts_below_ne_nil hplain) (by decide) hreads hnew hshow
    rw [hinstall, perform_bind_of_ok hroutes, perform_bind_of_ok hpatch]
    exact ⟨e, v, rfl⟩

/-- A root component with its greeting on a line of its own. -/
def plainView : String := "<template>\n  <HelloWorld />\n</template>\n"

/-- A root component with its greeting in a comment behind the import of the greeting. -/
def lossyView : String := "import HelloWorld from './HelloWorld.vue' // <HelloWorld />\n"

theorem not_greetingOnImport_plainView : ¬ AppView.GreetingOnImport plainView := by
  rintro ⟨before, g, after, above, start, below, hfound, himport⟩
  have hplain : Text.find? AppView.greeting? plainView.toList =
      some ("<template>\n  ".toList, "<HelloWorld />".toList, "\n</template>\n".toList) := by
    decide +kernel
  cases hplain.symm.trans hfound
  have hstart : 'r' ∈ start.dropWhile Text.isSpacing := himport.imports.subset (by decide)
  have hbefore : 'r' ∈ above ++ start :=
    List.mem_append_right above ((List.dropWhile_suffix _).subset hstart)
  rw [← himport.split] at hbefore
  revert hbefore
  decide

theorem greetingOnImport_lossyView : AppView.GreetingOnImport lossyView := by
  have hlossy : Text.find? AppView.greeting? lossyView.toList =
      some ("import HelloWorld from './HelloWorld.vue' // ".toList, "<HelloWorld />".toList, ['\n']) := by
    decide +kernel
  refine ⟨_, _, _, [], _, [], hlossy, ⟨rfl, .inl ⟨rfl, rfl⟩, rfl, by decide, by decide, [], by decide, rfl⟩⟩

theorem install_again_plainView : ∃ e t,
    ((provider .shipped .routing).install ⟨.here, []⟩ routerOptions).perform (viewSeed plainView) =
      (.ok e, t) ∧ Stays ((provider .shipped .routing).install ⟨.here, []⟩ routerOptions) e t := by
  obtain ⟨hloses, e, t, hrun⟩ := exists_routing_viewSeed plainView
    "<template>\n  <router-view />\n</template>\n" (by decide) (by decide +kernel)
    (by decide +kernel)
  refine ⟨e, t, hrun, (install_again hrun (SameFiles.refl t)).1 ?_⟩
  exact fun h => not_greetingOnImport_plainView (hloses.1 h.2)

/-- Setting up a feature again does not always succeed: with the templates that come with the program,
the routing feature fails where its first run has lost the route. -/
theorem not_stays_after_install :
    ¬ ∀ (b : Builtin) (project : Path) (o : Options) (s t : Session) (e : Effects),
      (b.provider .shipped).selected o →
      ((b.provider .shipped).install project o).perform s = (.ok e, t) →
      Stays ((b.provider .shipped).install project o) e t := by
  intro h
  obtain ⟨hloses, e, t, hrun⟩ := exists_routing_viewSeed lossyView "" (by decide)
    (by decide +kernel) (by decide +kernel)
  obtain ⟨hroutes, ⟨hkept, -⟩ | ⟨-, hlost⟩⟩ := perform_routing_ok hrun
  · exact hkept (hloses.2 greetingOnImport_lossyView)
  · obtain ⟨u, hfails, -⟩ := perform_routing_of_lost hroutes hlost
    have hstays := (h .routing ⟨.here, []⟩ routerOptions _ t e rfl hrun).outcome
    rw [hfails] at hstays
    cases hstays

end Builtin

end Scaffold
