import Scaffold.Proofs.Assembly.Rerun
import Scaffold.Proofs.Composition.Replay

/-!
# Running again after a failure

A run that ended at one feature has left the files of the features before it. A run without that
feature goes over them again and ends like a run on the project as it was before.

* **Replaying.** The features that were set up before the failure are settled: setting them up again
  gives the same ledger and changes no file, and both runs go on from there alike.
* **One exception.** Where the routing feature lost the route, the second run ends at the root
  component.
* **Templates in a folder** make a project that is small enough to run, with routes and all.
-/

namespace Scaffold.Assembly

open Run

variable {plan : Plan} {path project : Path} {o : Options} {s t u : Session} {seed : Seed}
  {src : Template.Source} {bs cs : List Builtin} {x : Provider} {f : Failure} {a : Ledger}

/-! ## After the preflight -/

theorem within_finish (plan : Plan) (project : Path) (o : Options) (seed : Seed) (a : Ledger) :
    Within (sharedNames o.typescript ++ restNames) (finish plan project o seed a) := by
  refine (Within.report _).bind fun _ => Within.bind ?_ fun manifest => Within.bind ?_ fun _ => ?_
  · exact (within_writeShared _ _ _ _ _).mono (List.subset_append_left _ _)
  · exact (within_addRest _ _ _).mono (List.subset_append_right _ _)
  · exact (Quiet.pure _).within

/-- The names of the features that come with the program differ. -/
theorem repeatedNames_builtin (src : Template.Source) :
    repeatedNames ((builtinProviders src).map (·.name)) = [] := by
  refine repeatedNames_of_nodup ?_
  change ["router", "store", "eslint", "unocss", "css", "git-hooks"].Nodup
  decide

theorem SeedAt.of_frame {L : List (List String)} {factory : String}
    (h : SeedAt factory project o seed s) (hframe : Frame L s t)
    (hapart : ∀ names ∈ sharedNames o.typescript, Apart L names) :
    SeedAt factory project o seed t := by
  obtain ⟨c, text, hc, hmanifest⟩ := h.manifest
  obtain ⟨c', hc', hentry⟩ := h.entry
  exact ⟨⟨c, text, holdsBytes_of_frame hframe hapart (.head _) hc, hmanifest⟩,
    ⟨c', holdsBytes_of_frame hframe hapart (.tail _ (.head _)) hc', hentry⟩, h.mount⟩

/-- The preflight gives the same seed after features have been set up. -/
theorem perform_preflight_of_frame
    (hpre : (preflight plan path o).perform s = (.ok (project, seed), s))
    (hframe : Frame (bs.flatMap (·.targets o)) s t) :
    (preflight plan path o).perform t = (.ok (project, seed), t) := by
  obtain ⟨-, hresolved, hdirectory, hseed⟩ := perform_preflight_ok.1 hpre
  refine perform_preflight_ok.2 ⟨rfl, ?_, isDirectory_of_frame hframe hdirectory, ?_⟩
  · rw [hframe.here, hresolved]
  · refine hseed.of_frame hframe fun names hnames other hother => ?_
    obtain ⟨b, -, htarget⟩ := List.mem_flatMap.1 hother
    exact apart_fileNames _ _ names hnames b (Builtin.mem_all b) other htarget

/-! ## A run that ends at a feature -/

/-- The plan with another feature between those that come with the program. -/
def insertFeature (plan : Plan) (src : Template.Source) (bs : List Builtin) (x : Provider)
    (cs : List Builtin) : Plan :=
  { plan with providers := bs.map (·.provider src) ++ x :: cs.map (·.provider src) }

/-- The run in which the feature `x` stands between `bs` and `cs` comes to `x`, and `x` makes it fail:
it cannot be set up, or its effects collide with those of an earlier feature. -/
structure EndsAt (plan : Plan) (src : Template.Source) (path : Path) (o : Options)
    (bs : List Builtin) (x : Provider) (cs : List Builtin) (s : Session) (f : Failure) (t : Session) :
    Prop where
  /-- the project is as it should be -/
  seed : ∃ seed, (preflight plan path o).perform s = (.ok (path.resolve s.here, seed), s)
  /-- no name occurs twice -/
  names : repeatedNames ((insertFeature plan src bs x cs).providers.map (·.name)) = []
  /-- the features before are set up, and the feature fails -/
  step : ∃ a u, (composeSteps src (path.resolve s.here) o bs {}).perform (started o s) = (.ok a, u) ∧
    (composeStep (path.resolve s.here) o a x).perform u = (.error f, t)

theorem EndsAt.perform_assemble (h : EndsAt plan src path o bs x cs s f t) :
    (assemble (insertFeature plan src bs x cs) path o).perform s = (.error f, t) := by
  obtain ⟨⟨seed, hpre⟩, hnames, a, u, hbefore, hx⟩ := h
  have hpre' : (preflight (insertFeature plan src bs x cs) path o).perform s =
      (.ok (path.resolve s.here, seed), s) := hpre
  rw [Assembly.perform_assemble hpre' hnames]
  refine perform_bind_of_error ?_
  rw [insertFeature, List.foldlM_append]
  refine (perform_bind_of_ok hbefore).trans ?_
  rw [List.foldlM_cons]
  exact perform_bind_of_error hx

/-- A run with the features of the program, cut in two. -/
theorem perform_assemble_builtin (hlist : bs ++ cs = Builtin.all)
    (hproviders : plan.providers = builtinProviders src)
    (hpre : (preflight plan path o).perform s = (.ok (project, seed), s)) :
    (assemble plan path o).perform s =
      (composeSteps src project o bs {} >>= fun a => composeSteps src project o cs a >>=
        finish plan project o seed).perform (started o s) := by
  have hnames : repeatedNames (plan.providers.map (·.name)) = [] := by
    rw [hproviders, repeatedNames_builtin]
  rw [Assembly.perform_assemble hpre hnames, hproviders, builtinProviders, ← hlist, List.map_append,
    List.foldlM_append, bind_assoc]
  rfl

/-- What a run with the features of the program does from the feature on that follows `bs`. -/
theorem perform_assemble_after (hlist : bs ++ cs = Builtin.all)
    (hproviders : plan.providers = builtinProviders src)
    (hpre : (preflight plan path o).perform s = (.ok (project, seed), s))
    (hbefore : (composeSteps src project o bs {}).perform (started o s) = (.ok a, u)) :
    (assemble plan path o).perform s =
      (composeSteps src project o cs a >>= finish plan project o seed).perform u := by
  rw [perform_assemble_builtin hlist hproviders hpre]
  exact perform_bind_of_ok hbefore

theorem within_after (src : Template.Source) (project : Path) (plan : Plan) (o : Options)
    (cs : List Builtin) (seed : Seed) (a : Ledger) :
    Within (cs.flatMap (·.targets o) ++ (sharedNames o.typescript ++ restNames))
      (composeSteps src project o cs a >>= finish plan project o seed) := by
  refine Within.bind ?_ fun a' => ?_
  · exact (within_composeSteps src project o cs a).mono (List.subset_append_left _ _)
  · exact (within_finish plan project o seed a').mono (List.subset_append_right _ _)

/-- The routing feature is the first of all. -/
theorem exists_cons_of_routing_mem (hlist : bs ++ cs = Builtin.all) (h : .routing ∈ bs) :
    ∃ bs', bs = .routing :: bs' := by
  cases bs with
  | nil => cases h
  | cons b bs' =>
    obtain ⟨rfl, -⟩ := List.cons.inj hlist
    exact ⟨bs', rfl⟩

/-! ## Running again -/

/-- The routing feature is among the given ones, and loses the route. -/
def LostBefore (src : Template.Source) (project : Path) (o : Options) (bs : List Builtin)
    (s : Session) : Prop :=
  .routing ∈ bs ∧ o.router = true ∧ Builtin.LosesRoute src project o s

/-- **A run after a failure ends like a run on the project as it was**, with the same outcome and the
same files, unless the route was lost before the failure; then it ends at the root component and
changes no file. -/
theorem retry_converges (hlist : bs ++ cs = Builtin.all)
    (hproviders : plan.providers = builtinProviders src)
    (hidle : ∀ u, SameFiles u ((x.install (path.resolve s.here) o).perform u).2)
    (hends : EndsAt plan src path o bs x cs s f t) (htu : SameFiles t u) :
    (assemble (insertFeature plan src bs x cs) path o).perform s = (.error f, t) ∧
      (¬ LostBefore src (path.resolve s.here) o bs s →
        ((assemble plan path o).perform u).1 = ((assemble plan path o).perform s).1 ∧
          SameFiles ((assemble plan path o).perform s).2 ((assemble plan path o).perform u).2) ∧
      (LostBefore src (path.resolve s.here) o bs s →
        ∃ v, (assemble plan path o).perform u =
          (.error (.anchor (Builtin.appViewAt (path.resolve s.here)) ⟨AppView.greetingPattern, 0⟩), v) ∧
            SameFiles u v) := by
  refine ⟨hends.perform_assemble, ?_⟩
  obtain ⟨⟨seed, hpre⟩, -, a, w, hbefore, hx⟩ := hends
  have horder : bs.Pairwise Builtin.Precedes :=
    Builtin.pairwise_all.sublist (hlist ▸ List.sublist_append_left bs cs)
  have hwt : SameFiles w t := by
    have := sameFiles_composeStep hidle a w
    rwa [hx] at this
  have hwu : SameFiles w u := hwt.trans htu
  have hframe : Frame (bs.flatMap (·.targets o)) s u :=
    ((sameFiles_started o s).frame.trans
      ((within_composeSteps src _ o bs {}).frame_of_perform hbefore)).trans hwu.frame
  have hpre' := perform_preflight_of_frame hpre hframe
  have hstarted : SameFiles w (started o u) := hwu.trans (sameFiles_started o u)
  constructor
  · intro hkept
    have hsettled : ∀ b ∈ bs, SettledIfSelected src (path.resolve s.here) o b (started o u) := by
      intro b hb hselected
      obtain ⟨_, hinstalls⟩ := Builtin.exists_installs src (path.resolve s.here) o b
      refine hinstalls.lasts.congr hstarted (settled_of_composeSteps horder ?_ hbefore b hb hselected)
      rintro b' hb' hselected' hloses
      obtain ⟨rfl, hlost⟩ := hloses.congr (sameFiles_started o s).symm
      exact hkept ⟨hb', hselected', hlost⟩
    obtain ⟨v, hagain, hv⟩ := (stays_composeSteps hbefore hsettled).perform_eq
    rw [perform_assemble_after hlist hproviders hpre hbefore,
      perform_assemble_after hlist hproviders hpre' hagain]
    exact (within_after src _ plan o cs seed a).blind (hstarted.trans hv)
  · rintro ⟨hrouting, hselected, hloses⟩
    obtain ⟨bs', rfl⟩ := exists_cons_of_routing_mem hlist hrouting
    have hother : ∀ b ∈ bs', b ≠ .routing := fun b hb =>
      ((List.pairwise_cons.1 horder).1 b hb).1
    have hgone : RouteGone src (path.resolve s.here) o w :=
      routeGone_of_composeSteps hother hselected
        (Builtin.Loses.congr ⟨rfl, hloses⟩ (sameFiles_started o s)) hbefore
    obtain ⟨v, hfails, hv⟩ := (hgone.congr hstarted).perform_composeSteps hselected bs' {}
    refine ⟨v, ?_, (sameFiles_started o u).trans hv⟩
    rw [perform_assemble_builtin hlist hproviders hpre']
    exact perform_bind_of_error hfails

/-! ## A feature that cannot be set up -/

/-- A feature that cannot be set up, and writes nothing. -/
def refusal : Provider where
  name := "extra"
  selected _ := true
  install _ _ := failWith .noStrategy

theorem sameFiles_refusal (project : Path) (o : Options) (s : Session) :
    SameFiles s ((refusal.install project o).perform s).2 := SameFiles.refl s

/-- The run ends at the refusal if it comes so far. -/
theorem exists_endsAt_refusal (hseed : ((preflight plan path o).perform s).1.isOk = true)
    (hnames : ((insertFeature plan src bs refusal cs).providers.map (·.name)).Nodup)
    (hbefore : ((composeSteps src (path.resolve s.here) o bs {}).perform (started o s)).1.isOk = true) :
    ∃ t, EndsAt plan src path o bs refusal cs s .noStrategy t := by
  obtain ⟨⟨project, seed⟩, s', hpre⟩ := exists_perform_ok hseed
  obtain ⟨rfl, hresolved, -⟩ := perform_preflight_ok.1 hpre
  obtain rfl := resolve_of_resolved hresolved
  obtain ⟨a, u, hrun⟩ := exists_perform_ok hbefore
  exact ⟨_, ⟨seed, hpre⟩, repeatedNames_of_nodup hnames, a, u, hrun, rfl⟩

/-- Empty templates in a folder of the project. -/
def folderSource : Template.Source := .folder ⟨.here, ["tpl"]⟩

/-- A run with the templates of the folder. -/
def folderPlan : Plan := { templates := folderSource, providers := builtinProviders folderSource }

/-- A project with a root component, and with the templates that a run with routes needs. -/
def routedSeed (view : String) : Session where
  tree := ⟨
    [(["demo"], .directory), (["demo", "package.json"], .file "\x7b\x7d".toUTF8),
     (["demo", "src"], .directory), (["demo", "src", "main.ts"], .file freshEntry.toUTF8),
     (["demo", "src", "App.vue"], .file view.toUTF8),
     (["demo", "tpl"], .directory), (["demo", "tpl", "router"], .directory),
     (["demo", "tpl", "router", "router.ts.tpl"], .file "".toUTF8),
     (["demo", "tpl", "router", "Home.vue.tpl"], .file "".toUTF8),
     (["demo", "tpl", "vscode"], .directory),
     (["demo", "tpl", "vscode", "settings.json.tpl"], .file "".toUTF8),
     (["demo", "tpl", "readme"], .directory),
     (["demo", "tpl", "readme", "README.md.tpl"], .file "".toUTF8)]⟩
  here := ["demo"]
  log := []

/-- The features after the routing feature. -/
def restFeatures : List Builtin := [.storage, .linting, .utilityClasses, .styling, .commitChecks]

/-- The run with the refusal behind the routing feature. -/
def refusedPlan : Plan := insertFeature folderPlan folderSource [.routing] refusal restFeatures

theorem nodup_refusedPlan : (refusedPlan.providers.map (·.name)).Nodup := by
  change ["router", "extra", "store", "eslint", "unocss", "css", "git-hooks"].Nodup
  decide

theorem not_lostBefore_plainView (bs : List Builtin) :
    ¬ LostBefore folderSource (Path.resolve ["demo"] ⟨.here, []⟩) Builtin.routerOptions bs
      (routedSeed Builtin.plainView) := by
  rintro ⟨-, -, hloses⟩
  have hreads : Disk.Reads (Builtin.appViewAt (Path.resolve ["demo"] ⟨.here, []⟩)) Builtin.plainView
      (routedSeed Builtin.plainView) :=
    ⟨Builtin.plainView.toUTF8, rfl, Disk.textOf_toUTF8 (by decide)⟩
  exact Builtin.not_greetingOnImport_plainView (hloses.greetingOnImport hreads)

set_option maxRecDepth 100000 in
theorem retry_converges_plainView : ∃ t u v out,
    (assemble refusedPlan ⟨.here, []⟩ Builtin.routerOptions).perform (routedSeed Builtin.plainView) =
      (.error .noStrategy, t) ∧
    (assemble folderPlan ⟨.here, []⟩ Builtin.routerOptions).perform (routedSeed Builtin.plainView) =
      (.ok out, u) ∧
    (assemble folderPlan ⟨.here, []⟩ Builtin.routerOptions).perform t = (.ok out, v) ∧
      SameFiles u v := by
  obtain ⟨t, hends⟩ : ∃ t, EndsAt folderPlan folderSource ⟨.here, []⟩ Builtin.routerOptions [.routing]
      refusal restFeatures (routedSeed Builtin.plainView) .noStrategy t :=
    exists_endsAt_refusal (by decide +kernel) nodup_refusedPlan (by decide +kernel)
  have hdirect : ((assemble folderPlan ⟨.here, []⟩ Builtin.routerOptions).perform
      (routedSeed Builtin.plainView)).1.isOk = true := by
    decide +kernel
  obtain ⟨out, u, hrun⟩ := exists_perform_ok hdirect
  have hlist : [.routing] ++ restFeatures = Builtin.all := rfl
  have hproviders : folderPlan.providers = builtinProviders folderSource := rfl
  obtain ⟨hfails, hkept, -⟩ :=
    retry_converges hlist hproviders (sameFiles_refusal _ _) hends (SameFiles.refl t)
  obtain ⟨houtcome, hfiles⟩ := hkept (not_lostBefore_plainView [.routing])
  rcases hagain : (assemble folderPlan ⟨.here, []⟩ Builtin.routerOptions).perform t with ⟨r, v⟩
  rw [hrun, hagain] at houtcome hfiles
  subst houtcome
  exact ⟨t, u, v, out, hfails, hrun, hagain, hfiles⟩

set_option maxRecDepth 100000 in
/-- A run after a failure does not always end like a run on the project as it was: the route may have
been lost before the failure. -/
theorem not_retry_converges :
    ¬ ∀ (plan : Plan) (src : Template.Source) (path : Path) (o : Options) (bs : List Builtin)
      (x : Provider) (cs : List Builtin) (s t : Session) (f : Failure),
      bs ++ cs = Builtin.all → plan.providers = builtinProviders src →
      (∀ u, SameFiles u ((x.install (path.resolve s.here) o).perform u).2) →
      EndsAt plan src path o bs x cs s f t → ((assemble plan path o).perform s).1.isOk = true →
      ((assemble plan path o).perform t).1.isOk = true := by
  intro h
  obtain ⟨t, hends⟩ : ∃ t, EndsAt folderPlan folderSource ⟨.here, []⟩ Builtin.routerOptions [.routing]
      refusal restFeatures (routedSeed Builtin.lossyView) .noStrategy t :=
    exists_endsAt_refusal (by decide +kernel) nodup_refusedPlan (by decide +kernel)
  have hdirect : ((assemble folderPlan ⟨.here, []⟩ Builtin.routerOptions).perform
      (routedSeed Builtin.lossyView)).1.isOk = true := by
    decide +kernel
  have hretry : ((assemble folderPlan ⟨.here, []⟩ Builtin.routerOptions).perform
      ((assemble refusedPlan ⟨.here, []⟩ Builtin.routerOptions).perform
        (routedSeed Builtin.lossyView)).2).1.isOk = false := by
    decide +kernel
  have hagain := h folderPlan folderSource ⟨.here, []⟩ Builtin.routerOptions [.routing] refusal
    restFeatures (routedSeed Builtin.lossyView) t .noStrategy rfl rfl (sameFiles_refusal _ _) hends
    hdirect
  have hfails : (assemble refusedPlan ⟨.here, []⟩ Builtin.routerOptions).perform
      (routedSeed Builtin.lossyView) = (.error .noStrategy, t) := hends.perform_assemble
  rw [hfails, hagain] at hretry
  cases hretry

end Scaffold.Assembly
