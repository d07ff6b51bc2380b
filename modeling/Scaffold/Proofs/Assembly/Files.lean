import Scaffold.Proofs.Assembly.Shared

/-!
# The files of a run

Which files a run may create or change, whatever the tree, the options and the point where it ends.

* **One list.** `ownNames` names the files of a run below the project's directory: the two shared ones,
  the rest, and those of the enabled features.
* **One stage.** Behind the preflight, which writes nothing, all of a run is confined to these names.
* **Their places** are known, since the preflight makes sure that the project's path leads to a
  directory, and this path has no double dots left.
-/

namespace Scaffold.Assembly

open Run

variable {plan : Plan} {src : Template.Source} {path project : Path} {o : Options} {s t : Session}
  {L : List (List String)} {seed : Seed}

/-! ## The names -/

/-- The names of the files that a run may write, below the project's directory. -/
def ownNames (o : Options) : List (List String) :=
  let ext := o.scriptExtension
  [["package.json"], ["src", s!"main.{ext}"], [".vscode", "extensions.json"],
    [".vscode", "settings.json"], ["README.md"]] ++
  (if o.router then
    [["src", "router", s!"index.{ext}"], ["src", "views", "Home.vue"], ["src", "App.vue"]] else []) ++
  (if o.store then [["src", "store", s!"index.{ext}"], ["src", "store", s!"counter.{ext}"]] else []) ++
  (if o.eslint then [s!"eslint.config.{ext}"] :: if o.typescript then [["tsconfig.node.json"]] else []
    else []) ++
  (if o.unocss then [[s!"uno.config.{ext}"], [s!"vite.config.{ext}"]] else []) ++
  (if o.css == .lightningcss then [[s!"vite.config.{ext}"]] else []) ++
  (if o.gitHooks then
    [["commitlint.config.js"], [".husky", "pre-commit"], [".husky", "commit-msg"]] else [])

theorem entryName_eq (o : Options) :
    (if o.typescript then "main.ts" else "main.js") = s!"main.{o.scriptExtension}" := by
  rw [Options.scriptExtension]
  cases o.typescript <;> rfl

theorem buildConfigNames_eq (o : Options) :
    Feature.buildConfigNames o.typescript = [s!"vite.config.{o.scriptExtension}"] := by
  rw [Feature.buildConfigNames, Options.scriptExtension]
  cases o.typescript <;> rfl

theorem sharedNames_subset (o : Options) : sharedNames o.typescript ⊆ ownNames o := by
  rw [sharedNames, entryName_eq, ownNames]
  simp [Manifest.fileName]

theorem restNames_subset (o : Options) : restNames ⊆ ownNames o := by
  simp [restNames, ownNames]

/-- The files of an enabled feature are among them. -/
theorem targets_subset (b : Builtin) (h : (b.provider src).selected o = true) :
    b.targets o ⊆ ownNames o := by
  intro names hmem
  rw [ownNames]
  simp only [List.mem_append]
  cases b with
  | routing =>
    rw [if_pos (show o.router = true from h)]
    exact .inl (.inl (.inl (.inl (.inl (.inr hmem)))))
  | storage =>
    rw [if_pos (show o.store = true from h)]
    exact .inl (.inl (.inl (.inl (.inr hmem))))
  | linting =>
    rw [if_pos (show o.eslint = true from h)]
    exact .inl (.inl (.inl (.inr hmem)))
  | utilityClasses =>
    rw [Builtin.targets, Builtin.fileNames, buildConfigNames_eq] at hmem
    rw [if_pos (show o.unocss = true from h)]
    exact .inl (.inl (.inr hmem))
  | styling =>
    rw [Builtin.targets, Builtin.fileNames, buildConfigNames_eq] at hmem
    exact .inl (.inr hmem)
  | commitChecks =>
    rw [if_pos (show o.gitHooks = true from h)]
    exact .inr hmem

/-- The names of the files as the stages of a run give them. -/
def stageNames (src : Template.Source) (o : Options) : List (List String) :=
  sharedNames o.typescript ++ restNames ++
    (Builtin.all.filter fun b => (b.provider src).selected o).flatMap (·.targets o)

theorem stageNames_subset (src : Template.Source) (o : Options) : stageNames src o ⊆ ownNames o := by
  intro names hmem
  rcases List.mem_append.1 hmem with hmem | hmem
  · rcases List.mem_append.1 hmem with hshared | hrest
    · exact sharedNames_subset o hshared
    · exact restNames_subset o hrest
  · obtain ⟨b, hb, htarget⟩ := List.mem_flatMap.1 hmem
    exact targets_subset b (List.mem_filter.1 hb).2 htarget

theorem plain_of_mem_stageNames : ∀ names ∈ stageNames src o, Plain names := by
  intro names hmem
  rcases List.mem_append.1 hmem with hmem | hmem
  · rcases List.mem_append.1 hmem with hshared | hrest
    · exact plain_of_mem_sharedNames o.typescript names hshared
    · exact plain_of_mem_restNames names hrest
  · obtain ⟨b, -, htarget⟩ := List.mem_flatMap.1 hmem
    exact Builtin.plain_of_mem_targets htarget

/-! ## Behind the preflight -/

theorem confined_composeStep {p : Provider}
    (hp : p.selected o → Confined src project L (p.install project o)) (a : Ledger) :
    Confined src project L (composeStep project o a p) := by
  rw [composeStep]
  split
  · rename_i hselected
    refine (Confined.report _).bind fun _ => (hp hselected).bind fun e => ?_
    rw [recordEffects]
    rcases a.record p.name e with ⟨a, _ | events⟩
    · exact .failWith _
    · exact (Confined.forM events fun _ _ => .report _).bind fun _ => .pure _
  · exact (Confined.report _).bind fun _ => .pure _

/-- A composition is confined where its features are. -/
theorem confined_compose {providers : List Provider}
    (hproviders : ∀ p ∈ providers, p.selected o → Confined src project L (p.install project o)) :
    Confined src project L (compose project o providers) := by
  rw [compose]
  split
  · refine Confined.bind ?_ fun a => (Confined.report _).bind fun _ => .pure _
    exact Confined.foldlM _ (fun a p hp => confined_composeStep (hproviders p hp) a) _
  · exact .failWith _

/-- A run behind the preflight. -/
def carryOut (plan : Plan) (o : Options) (project : Path) (seed : Seed) : Run Outcome := do
  report (.composing o.projectName)
  let effects ← compose project o plan.providers
  let manifest ← writeShared plan project o seed effects.toEffects
  addRest plan project o
  return { project, effects, manifest, entry := entryAt project o }

theorem assemble_eq_carryOut (plan : Plan) (path : Path) (o : Options) :
    assemble plan path o = preflight plan path o >>= fun found =>
      carryOut plan o found.1 found.2 := by
  rw [assemble_eq, composeShared]
  simp only [bind_assoc, pure_bind]
  rfl

/-- **Behind the preflight a run reads and writes its own files only.** -/
theorem confined_carryOut (plan : Plan)
    (hproviders : plan.providers = builtinProviders plan.templates) (o : Options) (project : Path)
    (seed : Seed) :
    Confined plan.templates project (stageNames plan.templates o)
      (carryOut plan o project seed) := by
  refine (Confined.report _).bind fun _ => Confined.bind ?_ fun effects => ?_
  · rw [hproviders]
    apply confined_compose
    intro p hp hselected
    obtain ⟨b, hb, rfl⟩ := List.mem_map.1 hp
    refine (b.confined_install plan.templates project o).mono fun names hnames => ?_
    exact List.mem_append_right _
      (List.mem_flatMap.2 ⟨b, List.mem_filter.2 ⟨hb, hselected⟩, hnames⟩)
  · have hshared : sharedNames o.typescript ⊆ stageNames plan.templates o := fun _ h =>
      List.mem_append_left _ (List.mem_append_left _ h)
    have hrest : restNames ⊆ stageNames plan.templates o := fun _ h =>
      List.mem_append_left _ (List.mem_append_right _ h)
    refine ((confined_writeShared _ _ _ _ _).mono hshared).bind fun m => ?_
    exact ((confined_addRest plan project o).mono hrest).bind fun _ => .pure _

/-! ## Their places -/

/-- Taking double dots away leaves none. -/
theorem not_mem_collapse (parts : List String) : ".." ∉ Path.collapse parts := by
  suffices ∀ seen : List String, ".." ∉ seen → ".." ∉ parts.foldl
      (fun seen part => if part == ".." then seen.dropLast else seen ++ [part]) seen from
    this [] List.not_mem_nil
  induction parts with
  | nil => exact fun seen hseen => hseen
  | cons part parts ih =>
    intro seen hseen
    rw [List.foldl_cons]
    apply ih
    split
    · exact fun hmem => hseen (List.dropLast_subset _ hmem)
    · rename_i hpart
      intro hmem
      rcases List.mem_append.1 hmem with hmem | hmem
      · exact hseen hmem
      · exact hpart (beq_of_eq (List.mem_singleton.1 hmem).symm)

/-- A resolved path leads to the place that it spells. -/
theorem leadsTo_resolve (h : s.tree.isDirectory s.here (path.resolve s.here) = true) :
    LeadsTo (path.resolve s.here) (path.resolve s.here).parts s := by
  rw [Tree.isDirectory] at h
  split at h
  · rename_i q hq
    have hplace : q = (path.resolve s.here).parts :=
      Tree.reaches_eq_append (not_mem_collapse (path.absolute s.here)) (by
        rw [← Tree.find]
        exact congrArg Tree.Found.reaches hq)
    rw [LeadsTo, hq, hplace]
  · cases h

/-- The plan with the features that come with the program. -/
def stockPlan (src : Template.Source) (names : EntryNames) (version : String) : Plan where
  templates := src
  providers := builtinProviders src
  names := names
  version := version

/-- **A run with the features that come with the program touches its own files only**, whatever becomes
of it. -/
theorem assemble_touches_own_files (src : Template.Source) (names : EntryNames) (version : String)
    (path : Path) (o : Options) (s : Session) :
    ((assemble (stockPlan src names version) path o).perform s).2.here = s.here ∧
      ∀ place, place ∉ placesOf (path.resolve s.here).parts (ownNames o) → ∀ c,
        (((assemble (stockPlan src names version) path o).perform s).2.tree.get? place =
            some (.file c) ↔
          s.tree.get? place = some (.file c)) := by
  have hframe : FrameAt (placesOf (path.resolve s.here).parts (stageNames src o)) s
      ((assemble (stockPlan src names version) path o).perform s).2 := by
    rw [assemble_eq_carryOut, perform_bind]
    rcases hpre : (preflight (stockPlan src names version) path o).perform s with
      ⟨f | ⟨project, seed⟩, u⟩ <;> obtain rfl := (quiet_preflight _ _ _).eq_of_perform hpre
    · exact .refl _ u
    · obtain ⟨-, hresolved, hdirectory, -⟩ := perform_preflight_ok.1 hpre
      obtain rfl := resolve_of_resolved hresolved
      have hconfined := confined_carryOut (stockPlan src names version) rfl o
        (path.resolve u.here) seed
      exact hconfined.frameAt plain_of_mem_stageNames (leadsTo_resolve hdirectory)
  refine ⟨hframe.here, fun place hplace c => hframe.tree.file place c ?_⟩
  intro hmem
  exact hplace (List.map_subset _ (stageNames_subset src o) hmem)

end Scaffold.Assembly
