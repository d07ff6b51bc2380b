import Scaffold.Proofs.Feature.Patches

/-!
# What a feature leaves

Each feature has a condition that it brings about, `Settled`, and it stays wherever the condition
holds.

* **The condition** is about the feature's own files and its templates, which no other feature
  touches, except for the file that two of them patch.
* **One exception.** The routing feature loses the route if the greeting stands on the import of the
  greeting.
-/

namespace Scaffold

open Run Feature

variable {src : Template.Source} {project : Path} {o : Options} {b b' : Builtin} {s t u : Session}
  {e : Effects}

namespace Builtin

/-! ## Names -/

/-- What a feature depends on once it is set up: its files and its templates. -/
def traces (o : Options) (b : Builtin) : List (List String) :=
  b.targets o ++ (b.templateNames o.typescript).map fun name => (Path.ofString name).parts

/-- Whether a feature patches the build configuration. -/
def patchesBuild : Builtin → Bool
  | .utilityClasses | .styling => true
  | _ => false

theorem fileNames_subset (typescript transformed : Bool) (b : Builtin) :
    b.fileNames typescript transformed ⊆ b.fileNames typescript true := by
  cases b with
  | styling => cases transformed <;> simp [fileNames]
  | _ => exact List.Subset.refl _

/-- No file of a feature is a template. -/
theorem apart_templateNames : ∀ typescript, ∀ b ∈ all, ∀ name ∈ b.templateNames typescript,
    ∀ b' ∈ all, Apart (b'.fileNames typescript true) (Path.ofString name).parts := by
  decide +kernel

/-- The files of a feature are apart from each other. -/
theorem pairwise_fileNames : ∀ typescript transformed, ∀ b ∈ all,
    (b.fileNames typescript transformed).Pairwise fun names other => Apart [other] names := by
  decide

/-- The files of two features are apart, except for the build configuration. -/
theorem apart_fileNames : ∀ typescript, ∀ b ∈ all, ∀ b' ∈ all, b ≠ b' →
    (b.patchesBuild && b'.patchesBuild) = false → ∀ names ∈ b.fileNames typescript true,
      Apart (b'.fileNames typescript true) names := by
  decide

theorem apart_targets_template {name : String} (hname : name ∈ b.templateNames o.typescript) :
    Apart (b'.targets o) (Path.ofString name).parts :=
  fun other hother => apart_templateNames o.typescript b (mem_all b) name hname b' (mem_all b') other
    (fileNames_subset _ _ _ hother)

/-- **What a feature depends on is not touched by another one.** -/
theorem apart_traces (hne : b ≠ b') (hbuild : (b.patchesBuild && b'.patchesBuild) = false) :
    ∀ names ∈ b.traces o, Apart (b'.targets o) names := by
  intro names hnames
  rcases List.mem_append.1 hnames with hfile | htemplate
  · exact fun other hother => apart_fileNames o.typescript b (mem_all b) b' (mem_all b') hne hbuild
      names (fileNames_subset _ _ _ hfile) other (fileNames_subset _ _ _ hother)
  · obtain ⟨name, hname, rfl⟩ := List.mem_map.1 htemplate
    exact apart_targets_template hname

theorem apart_of_sublist {names : List String} {T : List (List String)}
    (h : (names :: T).Sublist (b.targets o)) : Apart T names := by
  have hpairwise := (pairwise_fileNames o.typescript _ b (mem_all b)).sublist h
  exact fun other hother => (List.pairwise_cons.1 hpairwise).1 other hother other (.head _)

/-! ## Steps -/

section Steps

variable {names : List String} {T : List (List String)} {name text : String} {ctx : Template.Context}
  {α : Type} {y : Run α} {a : α} {Q : Session → Prop}

/-- The names of an emitted template are among the traces of its feature. -/
theorem subset_traces (hnames : names ∈ b.targets o) (hname : name ∈ b.templateNames o.typescript) :
    [names, (Path.ofString name).parts] ⊆ b.traces o := by
  intro other hother
  rcases List.mem_cons.1 hother with rfl | hother
  · exact List.mem_append_left _ hnames
  · obtain rfl := List.mem_singleton.1 hother
    exact List.mem_append_right _ (List.mem_map_of_mem hname)

theorem settles_emit_below (src : Template.Source) (project : Path) (ctx : Template.Context)
    (hnames : names ∈ b.targets o) (hname : name ∈ b.templateNames o.typescript) :
    Settles [names] [names, (Path.ofString name).parts]
      (Template.Emitted src name (below project names) ctx)
      (src.emit name (below project names) ctx) () := by
  refine settles_emit (plain_of_mem_targets hnames) (suffix_below project names)
    (relative_templateNames hname).2 fun other hother => ?_
  obtain rfl := List.mem_singleton.1 hother
  exact apart_targets_template hname other hnames

/-- A template is the last thing that is emitted. -/
theorem settles_emit_last (src : Template.Source) (project : Path) (ctx : Template.Context)
    (hnames : names ∈ b.targets o) (hname : name ∈ b.templateNames o.typescript) :
    Settles [names] (b.traces o) (Template.Emitted src name (below project names) ctx)
      (src.emit name (below project names) ctx) () :=
  (settles_emit_below src project ctx hnames hname).mono (subset_traces hnames hname)

/-- A template is emitted, and then the rest of the feature is set up. -/
theorem settles_emit_then (src : Template.Source) (project : Path) (ctx : Template.Context)
    (hname : name ∈ b.templateNames o.typescript) (h : (names :: T).Sublist (b.targets o))
    (hy : Settles T (b.traces o) Q y a) :
    Settles (names :: T) (b.traces o)
      (fun s => Template.Emitted src name (below project names) ctx s ∧ Q s)
      (src.emit name (below project names) ctx >>= fun _ => y) a := by
  have hnames : names ∈ b.targets o := h.subset (.head _)
  refine (settles_emit_below src project ctx hnames hname).bind hy (fun other hother => ?_)
    (subset_traces hnames hname)
  rcases List.mem_cons.1 hother with rfl | hother
  · exact apart_of_sublist h
  · obtain rfl := List.mem_singleton.1 hother
    exact fun n hn => apart_targets_template hname n (h.subset (.tail _ hn))

/-- A text is written, and then the rest of the feature is set up. -/
theorem settles_write_then (project : Path) (text : String)
    (h : (names :: T).Sublist (b.targets o)) (hy : Settles T (b.traces o) Q y a) :
    Settles (names :: T) (b.traces o) (fun s => Disk.Holds (below project names) text s ∧ Q s)
      (Disk.write (below project names) text >>= fun _ => y) a := by
  have hnames : names ∈ b.targets o := h.subset (.head _)
  refine (settles_write (plain_of_mem_targets hnames) (suffix_below project names) text).bind hy
    (fun other hother => ?_) fun other hother => ?_
  · obtain rfl := List.mem_singleton.1 hother
    exact apart_of_sublist h
  · obtain rfl := List.mem_singleton.1 hother
    exact List.mem_append_left _ hnames

/-- A step on one file of the feature may be the last one. -/
theorem subset_traces_of_mem (hnames : names ∈ b.targets o) : [names] ⊆ b.traces o := by
  intro other hother
  obtain rfl := List.mem_singleton.1 hother
  exact List.mem_append_left _ hnames

end Steps

/-! ## The condition -/

/-- What a template of the linting feature may mention. -/
def lintContext (o : Options) : Template.Context :=
  Template.ofTexts (o.templateTexts ++
    [("typeScriptConfig", if o.typescript then "typescript: true," else ""),
     ("unoESLintConfig", if o.unocss then "unocss: true," else "")])

/-- The path of the root component. -/
def appViewAt (project : Path) : Path := below project ["src", "App.vue"]

/-- Both files of the routing feature are there. -/
def RoutesWritten (src : Template.Source) (project : Path) (o : Options) (s : Session) : Prop :=
  Template.Emitted src s!"router/router.{o.scriptExtension}.tpl"
    (below project ["src", "router", s!"index.{o.scriptExtension}"]) (context o) s ∧
  Template.Emitted src "router/Home.vue.tpl" (below project ["src", "views", "Home.vue"])
    (context o) s

/-- What a feature leaves, and what it finds there when it is set up again. -/
def Settled (src : Template.Source) (project : Path) (o : Options) (b : Builtin) (s : Session) :
    Prop :=
  match b with
  | .routing => RoutesWritten src project o s ∧ RouteShown (appViewAt project) s
  | .storage =>
    Template.Emitted src s!"store/index.{o.scriptExtension}.tpl"
      (below project ["src", "store", s!"index.{o.scriptExtension}"]) (context o) s ∧
    Template.Emitted src s!"store/counter.{o.scriptExtension}.tpl"
      (below project ["src", "store", s!"counter.{o.scriptExtension}"]) (context o) s
  | .linting =>
    Template.Emitted src "eslint/eslint.config.js.tpl"
      (below project [s!"eslint.config.{o.scriptExtension}"]) (lintContext o) s ∧
    if o.typescript then
      Included s!"eslint.config.{o.scriptExtension}" (below project [checkedFilesName]) s
    else True
  | .utilityClasses =>
    Template.Emitted src "unocss/uno.config.js.tpl"
      (below project [s!"uno.config.{o.scriptExtension}"]) (context o) s ∧
    Rewritten registerUtility (buildConfigAt project o.typescript) s
  | .styling =>
    if o.css == .lightningcss then
      Rewritten chooseTransformer (buildConfigAt project o.typescript) s ∧ (stylePackages? o.css).isSome
    else (stylePackages? o.css).isSome
  | .commitChecks =>
    Template.Emitted src "git/commitlint.config.js.tpl" (below project ["commitlint.config.js"])
      (context o) s ∧
    Disk.Holds (below project [".husky", "pre-commit"]) preCommitHook s ∧
    Disk.Holds (below project [".husky", "commit-msg"]) commitMessageHook s

theorem settles_storage (src : Template.Source) (project : Path) (o : Options) :
    ∃ e, Settles (targets o .storage) (traces o .storage) (Settled src project o .storage)
      ((provider src .storage).install project o) e := by
  have hcounter := settles_emit_last (b := .storage) (o := o) src project (context o)
    (.tail _ (.head _)) (.tail _ (.head _))
  exact ⟨_, settles_emit_then src project (context o) (.head _) (.refl _) (hcounter.then_idle (settles_pure _))⟩

theorem settles_linting (src : Template.Source) (project : Path) (o : Options) :
    ∃ e, Settles (targets o .linting) (traces o .linting) (Settled src project o .linting)
      ((provider src .linting).install project o) e := by
  have hrest (e : Effects) : Settles (if o.typescript then [[checkedFilesName]] else [])
      (traces o .linting)
      (fun s => if o.typescript then
        Included s!"eslint.config.{o.scriptExtension}" (below project [checkedFilesName]) s else True)
      (if o.typescript then
        patchCheckedFiles (below project [checkedFilesName]) s!"eslint.config.{o.scriptExtension}" >>=
          fun _ => pure e
      else pure e) e := by
    refine Settles.ite (fun htypescript => ?_) fun _ => settles_pure e
    have hmem : [checkedFilesName] ∈ targets o .linting := by simp [targets, fileNames, htypescript]
    have hpatch := settles_patchCheckedFiles s!"eslint.config.{o.scriptExtension}"
      (plain_of_mem_targets hmem) (suffix_below project [checkedFilesName])
    rw [if_pos htypescript]
    exact (hpatch.then_idle (settles_pure e)).mono (subset_traces_of_mem hmem)
  exact ⟨_, settles_emit_then src project (lintContext o) (.head _) (.refl _) (hrest _)⟩

theorem settles_utilityClasses (src : Template.Source) (project : Path) (o : Options) :
    ∃ e, Settles (targets o .utilityClasses) (traces o .utilityClasses)
      (Settled src project o .utilityClasses)
      ((provider src .utilityClasses).install project o) e := by
  have hmem : buildConfigNames o.typescript ∈ targets o .utilityClasses := .tail _ (.head _)
  have hpatch := settles_registerUtility (plain_of_mem_targets hmem)
    (suffix_below project (buildConfigNames o.typescript))
  have hrest (e : Effects) := (hpatch.then_idle (settles_pure e)).mono (subset_traces_of_mem hmem)
  simp only [rewriteFile_then] at hrest
  exact ⟨_, settles_emit_then src project (context o) (.head _) (.refl _) (hrest _)⟩

theorem settles_styling (src : Template.Source) (project : Path) (o : Options) :
    ∃ e, Settles (targets o .styling) (traces o .styling) (Settled src project o .styling)
      ((provider src .styling).install project o) e := by
  have hpackages (L N) : Settles L N (fun _ => (stylePackages? o.css).isSome = true) (askForStyle o)
      { devDependencies := (stylePackages? o.css).getD [] } := by
    cases h : stylePackages? o.css with
    | none =>
      rw [askForStyle_none h]
      exact ⟨⟨(Quiet.failWith _).within, fun _ _ h => h, nofun⟩, fun h => nomatch h⟩
    | some packages =>
      rw [askForStyle_some h]
      exact ⟨⟨(Quiet.pure _).within, fun _ _ h => h, fun _ => Stays.pure _ _⟩,
        fun h => by cases h; exact ⟨rfl, rfl⟩⟩
  refine ⟨_, Settles.ite (c := o.css == .lightningcss) (fun htransformed => ?_) fun _ => hpackages _ _⟩
  have htargets : targets o .styling = [buildConfigNames o.typescript] := by
    simp [targets, fileNames, htransformed]
  have hmem : buildConfigNames o.typescript ∈ targets o .styling := by
    rw [htargets]
    exact .head _
  have hpatch := (settles_chooseTransformer (plain_of_mem_targets hmem)
    (suffix_below project (buildConfigNames o.typescript))).then_idle
      (settles_report (.transformerSet (buildConfigAt project o.typescript)))
  have hall := hpatch.bind (hpackages [] (traces o .styling)) (fun names _ => apart_nil names)
    (subset_traces_of_mem hmem)
  rw [rewriteFile_then] at hall
  rw [htargets]
  exact hall

theorem settles_commitChecks (src : Template.Source) (project : Path) (o : Options) :
    ∃ e, Settles (targets o .commitChecks) (traces o .commitChecks)
      (Settled src project o .commitChecks) ((provider src .commitChecks).install project o) e := by
  have hmem : [".husky", "commit-msg"] ∈ targets o .commitChecks := .tail _ (.tail _ (.head _))
  have hmessage := (settles_write (plain_of_mem_targets hmem)
    (suffix_below project [".husky", "commit-msg"]) commitMessageHook).mono (subset_traces_of_mem hmem)
  have hhooks (e : Effects) := settles_write_then project preCommitHook
    (List.sublist_cons_self _ _) (hmessage.then_idle (settles_pure e))
  exact ⟨_, settles_emit_then src project (context o) (.head _) (.refl _) (hhooks _)⟩

/-! ## Routing -/

/-- Writes the files of the routing feature that are its own. -/
def writeRoutes (src : Template.Source) (project : Path) (o : Options) : Run Unit := do
  src.emit s!"router/router.{o.scriptExtension}.tpl"
    (below project ["src", "router", s!"index.{o.scriptExtension}"]) (context o)
  src.emit "router/Home.vue.tpl" (below project ["src", "views", "Home.vue"]) (context o)

/-- The routing feature puts the route on the import of the greeting, which is removed: the root
component as it is when the feature comes to it has its greeting there, and no route. -/
def LosesRoute (src : Template.Source) (project : Path) (o : Options) (s : Session) : Prop :=
  ∃ u, (writeRoutes src project o).perform s = (.ok (), u) ∧ GreetingInWay (appViewAt project) u

theorem exists_install_routing (src : Template.Source) (project : Path) (o : Options) :
    ∃ e, (provider src .routing).install project o =
      (writeRoutes src project o >>= fun _ => patchAppView (appViewAt project) >>= fun _ => pure e) := by
  apply Exists.intro
  simp only [writeRoutes, bind_assoc]
  rfl

/-- What the files of the routing feature depend on. -/
def routeTraces (typescript : Bool) : List (List String) :=
  [["src", "router", s!"index.{fileNames.extension typescript}"],
   (Path.ofString s!"router/router.{fileNames.extension typescript}.tpl").parts,
   ["src", "views", "Home.vue"], (Path.ofString "router/Home.vue.tpl").parts]

theorem routeTraces_subset (o : Options) : routeTraces o.typescript ⊆ traces o .routing := by
  have hindex := subset_traces (b := .routing) (o := o) (.head _) (.head _)
  have hview := subset_traces (b := .routing) (o := o) (.tail _ (.head _)) (.tail _ (.head _))
  exact List.append_subset.2 ⟨hindex, hview⟩

/-- The view is none of the files before it. -/
theorem apart_homeView (o : Options) :
    ∀ names ∈ (routeTraces o.typescript).take 2, Apart [["src", "views", "Home.vue"]] names := by
  have hmem : ["src", "views", "Home.vue"] ∈ targets o .routing := .tail _ (.head _)
  refine List.forall_mem_cons.2 ⟨?index, List.forall_mem_singleton.2 ?router⟩
  case index =>
    exact apart_of_sublist (b := .routing) (o := o) (.cons_cons _ (.cons_cons _ (List.nil_sublist _)))
  case router =>
    refine List.forall_mem_singleton.2 ?_
    exact apart_targets_template (b := .routing) (o := o) (.head _) _ hmem

/-- The root component is none of the files before it. -/
theorem apart_routeTraces (o : Options) :
    ∀ names ∈ routeTraces o.typescript, Apart [["src", "App.vue"]] names := by
  have hmem : ["src", "App.vue"] ∈ targets o .routing := .tail _ (.tail _ (.head _))
  refine List.forall_mem_cons.2 ⟨?index, List.forall_mem_cons.2 ⟨?router,
    List.forall_mem_cons.2 ⟨?view, List.forall_mem_singleton.2 ?home⟩⟩⟩
  case index =>
    exact apart_of_sublist (b := .routing) (o := o) (.cons_cons _ (.cons _ (.refl _)))
  case view =>
    exact apart_of_sublist (b := .routing) (o := o) (.cons _ (.refl _))
  case router =>
    refine List.forall_mem_singleton.2 ?_
    exact apart_targets_template (b := .routing) (o := o) (.head _) _ hmem
  case home =>
    refine List.forall_mem_singleton.2 ?_
    exact apart_targets_template (b := .routing) (o := o) (.tail _ (.head _)) _ hmem

/-- The root component is none of the files of the feature's own. -/
theorem apart_appView (o : Options) :
    Apart [["src", "router", s!"index.{o.scriptExtension}"], ["src", "views", "Home.vue"]]
      ["src", "App.vue"] := by
  have hroutes := apart_routeTraces o
  refine List.forall_mem_cons.2 ⟨?_, List.forall_mem_singleton.2 ?_⟩
  · exact (hroutes _ (.head _) _ (.head _)).symm
  · exact (hroutes _ (.tail _ (.tail _ (.head _))) _ (.head _)).symm

theorem settles_writeRoutes (src : Template.Source) (project : Path) (o : Options) :
    Settles [["src", "router", s!"index.{o.scriptExtension}"], ["src", "views", "Home.vue"]]
      (routeTraces o.typescript) (RoutesWritten src project o) (writeRoutes src project o) () := by
  have hindex := settles_emit_below (b := .routing) (o := o) src project (context o)
    (.head _) (.head _)
  have hview := settles_emit_below (b := .routing) (o := o) src project (context o)
    (.tail _ (.head _)) (.tail _ (.head _))
  exact hindex.bind (hview.mono (List.drop_subset 2 (routeTraces o.typescript)))
    (apart_homeView o) (List.take_subset 2 (routeTraces o.typescript))

theorem plain_appView (o : Options) : Plain ["src", "App.vue"] :=
  plain_of_mem_targets (b := .routing) (o := o) (.tail _ (.tail _ (.head _)))

/-- The root component is as it was when the feature comes to it. -/
theorem LosesRoute.greetingOnImport {view : String} (h : LosesRoute src project o s)
    (hreads : Disk.Reads (appViewAt project) view s) : AppView.GreetingOnImport view := by
  obtain ⟨u, hwrite, view', hreads', -, hon⟩ := h
  have hframe := (settles_writeRoutes src project o).within.frame_of_perform hwrite
  have hkept := hreads.of_frame hframe (plain_appView o) (suffix_below project ["src", "App.vue"])
    (apart_appView o)
  exact hkept.unique hreads' ▸ hon

/-- What setting up the routing feature brings about. -/
theorem perform_routing_ok (h : ((provider src .routing).install project o).perform s = (.ok e, t)) :
    RoutesWritten src project o t ∧
      (¬ LosesRoute src project o s ∧ RouteShown (appViewAt project) t ∨
        LosesRoute src project o s ∧ RouteLost (appViewAt project) t) := by
  obtain ⟨e', hinstall⟩ := exists_install_routing src project o
  rw [hinstall] at h
  obtain ⟨_, u, hwrite, hrest⟩ := perform_bind_ok.1 h
  obtain ⟨_, v, hpatch, hpure⟩ := perform_bind_ok.1 hrest
  cases hpure
  have hroutes := settles_writeRoutes src project o
  have hroot := lasts_patchAppView (plain_appView o) (suffix_below project ["src", "App.vue"])
  refine ⟨hroutes.kept (apart_routeTraces o)
    (hroot.within.frame_of_perform hpatch) (hroutes.reached hwrite).2, ?_⟩
  have hloses : LosesRoute src project o s ↔ GreetingInWay (appViewAt project) u := by
    constructor
    · rintro ⟨u', hwrite', hin⟩
      cases hwrite.symm.trans hwrite'
      exact hin
    · exact fun hin => ⟨u, hwrite, hin⟩
  rw [hloses]
  exact routeShown_or_routeLost (plain_appView o) (suffix_below project ["src", "App.vue"]) hpatch

/-! ## What setting up brings about -/

/-- Setting up the feature loses the route. -/
def Loses (src : Template.Source) (project : Path) (o : Options) (b : Builtin) (s : Session) : Prop :=
  b = .routing ∧ LosesRoute src project o s

theorem Loses.congr (h : b.Loses src project o s) (hst : SameFiles s t) : b.Loses src project o t := by
  obtain ⟨hb, u, hwrite, hin⟩ := h
  obtain ⟨hsame, hfiles⟩ := (settles_writeRoutes src project o).within.blind hst
  rw [hwrite] at hsame hfiles
  exact ⟨hb, ((writeRoutes src project o).perform t).2, Prod.ext hsame rfl, hin.congr hfiles⟩

/-- The feature has the effects `e`, and stays where it is settled. It is settled after a success,
unless it loses the route. -/
structure Installs (src : Template.Source) (project : Path) (o : Options) (b : Builtin) (e : Effects) :
    Prop where
  /-- the feature stays where it is settled -/
  lasts : Lasts (b.targets o) (b.traces o) (Settled src project o b)
    ((b.provider src).install project o) e
  /-- no other effects come out of it -/
  effects {s t : Session} {r : Effects} :
    ((b.provider src).install project o).perform s = (.ok r, t) → r = e
  /-- the feature is settled after a success -/
  settled {s t : Session} {r : Effects} :
    ((b.provider src).install project o).perform s = (.ok r, t) → ¬ b.Loses src project o s →
      Settled src project o b t

theorem installs_routing (src : Template.Source) (project : Path) (o : Options) :
    ∃ e, Installs src project o .routing e := by
  obtain ⟨e, hinstall⟩ := exists_install_routing src project o
  refine ⟨e, ?_, fun hrun => ?_, fun hrun hkept => ?_⟩
  · have hmem : ["src", "App.vue"] ∈ targets o .routing := .tail _ (.tail _ (.head _))
    have hroot := ((lasts_patchAppView (plain_appView o)
      (suffix_below project ["src", "App.vue"])).mono (subset_traces_of_mem hmem)).then_idle
        (settles_pure e).toLasts
    rw [hinstall]
    exact (settles_writeRoutes src project o).toLasts.bind hroot (routeTraces_subset o)
  · rw [hinstall] at hrun
    obtain ⟨_, u, -, hrest⟩ := perform_bind_ok.1 hrun
    obtain ⟨_, v, -, hpure⟩ := perform_bind_ok.1 hrest
    cases hpure
    rfl
  · obtain ⟨hroutes, ⟨-, hshown⟩ | ⟨hloses, -⟩⟩ := perform_routing_ok hrun
    · exact ⟨hroutes, hshown⟩
    · exact absurd ⟨rfl, hloses⟩ hkept

theorem exists_installs (src : Template.Source) (project : Path) (o : Options) (b : Builtin) :
    ∃ e, Installs src project o b e := by
  have hsettles {b : Builtin} (h : ∃ e, Settles (b.targets o) (b.traces o)
      (Settled src project o b) ((b.provider src).install project o) e) :
      ∃ e, Installs src project o b e := by
    obtain ⟨e, he⟩ := h
    exact ⟨e, he.toLasts, fun hrun => (he.reached hrun).1, fun hrun _ => (he.reached hrun).2⟩
  cases b with
  | routing => exact installs_routing src project o
  | storage => exact hsettles (settles_storage src project o)
  | linting => exact hsettles (settles_linting src project o)
  | utilityClasses => exact hsettles (settles_utilityClasses src project o)
  | styling => exact hsettles (settles_styling src project o)
  | commitChecks => exact hsettles (settles_commitChecks src project o)

/-! ## Other features -/

/-- The features whose patches look for text in one file come in this order, and the routing feature
is the first of all. -/
def Precedes (b b' : Builtin) : Prop :=
  b' ≠ .routing ∧ b ≠ b' ∧ ¬ (b = .styling ∧ b' = .utilityClasses)

instance (b b' : Builtin) : Decidable (b.Precedes b') := inferInstanceAs (Decidable (_ ∧ _))

theorem pairwise_all : all.Pairwise Precedes := by decide

/-- Both features that patch the build configuration: the transformer is chosen last. -/
theorem Precedes.eq_of_patchesBuild (h : b.Precedes b')
    (hbuild : (b.patchesBuild && b'.patchesBuild) = true) : b = .utilityClasses ∧ b' = .styling := by
  revert h hbuild
  cases b <;> cases b' <;> decide

theorem apart_utilityConfig (o : Options) :
    Apart (fileNames o.typescript true .styling) [s!"uno.config.{o.scriptExtension}"] :=
  apart_of_sublist (b := .utilityClasses) (o := o) (.refl _)

/-- What the utility class feature left is there after the transformer was chosen. -/
theorem settled_utilityClasses_of_styling (h : Settled src project o .utilityClasses s)
    (hrun : ((provider src .styling).install project o).perform s = (.ok e, t)) :
    Settled src project o .utilityClasses t := by
  have hframe := (within_install src .styling project o).frame_of_perform hrun
  have hconfig := settles_emit_below (b := .utilityClasses) (o := o) src project (context o)
    (.head _) (.head _)
  have hmem : buildConfigNames o.typescript ∈ targets o .utilityClasses := .tail _ (.head _)
  have hplain := plain_of_mem_targets hmem
  have hpath := suffix_below project (buildConfigNames o.typescript)
  have hpatch := settles_registerUtility hplain hpath
  refine ⟨hconfig.kept (fun names hnames => ?_) hframe h.1, ?_⟩
  · rcases List.mem_cons.1 hnames with rfl | hnames
    · exact fun other hother => apart_utilityConfig o other (fileNames_subset _ _ _ hother)
    · obtain rfl := List.mem_singleton.1 hnames
      exact apart_targets_template (b := .utilityClasses) (.head _)
  · cases htransformed : o.css == .lightningcss with
    | false =>
      have hnone : targets o .styling = [] := by simp [targets, fileNames, htransformed]
      rw [hnone] at hframe
      exact hpatch.kept (fun names _ => apart_nil names) hframe h.2
    | true =>
      change (if o.css == .lightningcss then _ else _ : Run Effects).perform s = _ at hrun
      rw [if_pos htransformed] at hrun
      obtain ⟨_, u, htransformer, hend⟩ := perform_bind_ok.1 hrun
      have hu := h.2.patchTransformer hplain hpath htransformer
      cases hpackages : stylePackages? o.css with
      | none =>
        rw [hpackages] at hend
        cases hend
      | some packages =>
        rw [hpackages] at hend
        cases hend
        exact hu

/-- **A feature that is settled stays so while a later one is set up.** -/
theorem Settled.of_later (horder : b.Precedes b') (h : Settled src project o b s)
    (hrun : ((b'.provider src).install project o).perform s = (.ok e, t)) :
    Settled src project o b t := by
  cases hbuild : b.patchesBuild && b'.patchesBuild with
  | false =>
    obtain ⟨_, hinstalls⟩ := exists_installs src project o b
    exact hinstalls.lasts.kept (apart_traces horder.2.1 hbuild)
      ((b'.within_install src project o).frame_of_perform hrun) h
  | true =>
    obtain ⟨rfl, rfl⟩ := horder.eq_of_patchesBuild hbuild
    exact settled_utilityClasses_of_styling h hrun

end Builtin

end Scaffold
