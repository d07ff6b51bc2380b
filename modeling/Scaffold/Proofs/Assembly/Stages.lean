import Scaffold.Assembly
import Scaffold.Proofs.Feature.Targets

/-!
# The stages of a run

A run checks the seed project, sets up the features, writes the two shared files and then adds the
rest. Here each stage is a run of its own, so that a run can be taken apart where it ended.

* **The preflight** is quiet: nothing is written before both shared files have been read and checked.
* **The rest** is the editor files and the description, which are no shared files.
-/

namespace Scaffold.Assembly

open Run

variable {plan : Plan} {path project : Path} {o : Options} {s t : Session}

/-- The checks of a project's directory and its seed. -/
def checkSeed (plan : Plan) (o : Options) (project : Path) : Run (Path × Seed) := do
  if !(← Disk.isDirectory project) then
    failWith (.noSeedFile project none)
  let seed ← readSeed plan project o
  return (project, seed)

/-- The checks before the first feature is set up. -/
def preflight (plan : Plan) (path : Path) (o : Options) : Run (Path × Seed) := do
  let s ← get
  orFail id (Disk.resolved s.here path) >>= checkSeed plan o

/-- What is known when the shared files have been written. -/
structure Shared where
  /-- the directory of the project -/
  project : Path
  /-- the two files as they were read -/
  seed : Seed
  /-- the merged effects of the features -/
  effects : MergedEffects
  /-- the new manifest -/
  manifest : Manifest

/-- A run up to and with the writing of the shared files. -/
def composeShared (plan : Plan) (path : Path) (o : Options) : Run Shared := do
  let (project, seed) ← preflight plan path o
  report (.composing o.projectName)
  let effects ← compose project o plan.providers
  let manifest ← writeShared plan project o seed effects.toEffects
  return { project, seed, effects, manifest }

/-- What is written after the shared files. -/
def addRest (plan : Plan) (project : Path) (o : Options) : Run Unit := do
  let _ ← EditorFiles.write plan.templates project o
  let _ ← Description.write plan.templates project o

/-- What a run reports to have achieved. -/
def Shared.outcome (r : Shared) (o : Options) : Outcome where
  project := r.project
  effects := r.effects
  manifest := r.manifest
  entry := entryAt r.project o

/-- A run is its stages. -/
theorem assemble_eq (plan : Plan) (path : Path) (o : Options) :
    assemble plan path o = do
      let r ← composeShared plan path o
      addRest plan r.project o
      return r.outcome o := by
  simp only [assemble, composeShared, preflight, checkSeed, addRest, Shared.outcome, bind_assoc, pure_bind]
  refine bind_congr fun s => bind_congr fun project => bind_congr fun found => ?_
  split <;> simp only [bind_assoc, pure_bind]

/-! ## The preflight -/

/-- What a seed project has to look like: both shared files are there and can be read. -/
structure SeedAt (factory : String) (project : Path) (o : Options) (seed : Seed) (s : Session) :
    Prop where
  /-- the manifest is read from its file -/
  manifest : ∃ c text, s.tree.readFile? s.here (manifestPath project) = some c ∧
    Disk.textOf c = .ok text ∧ Manifest.ofText text = .ok seed.manifest
  /-- the entry file is read from its file -/
  entry : ∃ c, s.tree.readFile? s.here (entryAt project o) = some c ∧
    Disk.textOf c = .ok seed.entry
  /-- the entry file has one mount expression -/
  mount : ∃ split, SplitEntry.ofText factory seed.entry = .ok split

theorem perform_ofFile_ok {p : Path} {m : Manifest} :
    (Manifest.ofFile p).perform s = (.ok m, t) ↔
      t = s ∧ ∃ c text, s.tree.readFile? s.here p = some c ∧ Disk.textOf c = .ok text ∧
        Manifest.ofText text = .ok m := by
  simp only [Manifest.ofFile, perform_bind_ok, Disk.perform_require_ok, perform_orFail_iff]
  constructor
  · rintro ⟨text, u, ⟨rfl, c, hc, htext⟩, hm, rfl⟩
    exact ⟨rfl, c, text, hc, htext, hm⟩
  · rintro ⟨rfl, c, text, hc, htext, hm⟩
    exact ⟨text, _, ⟨rfl, c, hc, htext⟩, hm, rfl⟩

theorem perform_readSeed_ok {seed : Seed} :
    (readSeed plan project o).perform s = (.ok seed, t) ↔
      t = s ∧ SeedAt plan.names.factory project o seed s := by
  simp only [readSeed, perform_bind_ok, perform_ofFile_ok, Disk.perform_require_ok,
    Feature.patched, perform_orFail_iff, perform_pure]
  constructor
  · rintro ⟨m, u, ⟨rfl, hm⟩, entry, u, ⟨rfl, hentry⟩, split, u, ⟨hsplit, rfl⟩, h⟩
    cases h
    exact ⟨rfl, hm, hentry, split, hsplit⟩
  · rintro ⟨rfl, hm, hentry, split, hsplit⟩
    exact ⟨seed.manifest, _, ⟨rfl, hm⟩, seed.entry, _, ⟨rfl, hentry⟩, split, _, ⟨hsplit, rfl⟩, rfl⟩

theorem quiet_readSeed (plan : Plan) (project : Path) (o : Options) :
    Quiet (readSeed plan project o) := by
  refine ((Disk.quiet_require _ _).bind fun _ => Quiet.orFail _ _).bind fun _ => ?_
  refine (Disk.quiet_require _ _).bind fun _ => ?_
  exact (Feature.quiet_patched _ _).bind fun _ => Quiet.pure _

theorem quiet_checkSeed (plan : Plan) (o : Options) (project : Path) :
    Quiet (checkSeed plan o project) := by
  have hseed : Quiet (readSeed plan project o >>= fun seed => pure (project, seed)) :=
    (quiet_readSeed plan project o).bind fun _ => Quiet.pure _
  refine (Disk.quiet_isDirectory project).bind fun found => ?_
  split
  · exact (Quiet.failWith _).bind fun _ => hseed
  · exact hseed

/-- The preflight is the checks of the project that the path leads to. -/
theorem perform_preflight (plan : Plan) (path : Path) (o : Options) (s : Session) :
    (preflight plan path o).perform s =
      (orFail id (Disk.resolved s.here path) >>= checkSeed plan o).perform s := by
  rw [preflight, perform_bind_of_ok (perform_get s)]

/-- **The preflight writes nothing.** -/
theorem quiet_preflight (plan : Plan) (path : Path) (o : Options) :
    Quiet (preflight plan path o) where
  still s := by
    rw [perform_preflight]
    exact ((Quiet.orFail _ _).bind fun _ => quiet_checkSeed plan o _).still s
  blind {s t} hst := by
    rw [perform_preflight, perform_preflight, hst.here]
    exact ((Quiet.orFail _ _).bind fun _ => quiet_checkSeed plan o _).blind hst

theorem perform_isDirectory (p : Path) (s : Session) :
    (Disk.isDirectory p).perform s = (.ok (s.tree.isDirectory s.here p), s) := rfl

/-- The checks are passed exactly if the directory is there and the seed is as it should be. -/
theorem perform_checkSeed_ok {p : Path} {seed : Seed} :
    (checkSeed plan o p).perform s = (.ok (project, seed), t) ↔
      t = s ∧ p = project ∧ s.tree.isDirectory s.here p = true ∧
        SeedAt plan.names.factory p o seed s := by
  rw [checkSeed, perform_bind_of_ok (perform_isDirectory p s)]
  cases hfound : s.tree.isDirectory s.here p with
  | false =>
    have hfail := perform_failWith (α := PUnit) (.noSeedFile p none) s
    simp [perform_bind_of_error hfail]
  | true =>
    simp only [Bool.not_true, Bool.false_eq_true, if_false, perform_bind_ok, perform_readSeed_ok]
    constructor
    · rintro ⟨seed', u, ⟨rfl, hseed⟩, h⟩
      cases h
      exact ⟨rfl, rfl, trivial, hseed⟩
    · rintro ⟨rfl, rfl, -, hseed⟩
      exact ⟨seed, _, ⟨rfl, hseed⟩, rfl⟩

/-- The preflight succeeds exactly if the project that the path leads to passes the checks. -/
theorem perform_preflight_ok {seed : Seed} :
    (preflight plan path o).perform s = (.ok (project, seed), t) ↔
      t = s ∧ Disk.resolved s.here path = .ok project ∧
        s.tree.isDirectory s.here project = true ∧ SeedAt plan.names.factory project o seed s := by
  rw [perform_preflight, perform_bind_ok]
  constructor
  · rintro ⟨p, u, hresolved, hcheck⟩
    obtain ⟨hp, rfl⟩ := perform_orFail_iff.1 hresolved
    obtain ⟨rfl, rfl, hchecked⟩ := perform_checkSeed_ok.1 hcheck
    exact ⟨rfl, hp, hchecked⟩
  · rintro ⟨rfl, hp, hchecked⟩
    exact ⟨project, _, perform_orFail_iff.2 ⟨hp, rfl⟩, perform_checkSeed_ok.2 ⟨rfl, rfl, hchecked⟩⟩

/-! ## The rest -/

/-- The names of the files that are written after the shared ones. -/
def restNames : List (List String) :=
  [[".vscode", "extensions.json"], [".vscode", "settings.json"], ["README.md"]]

theorem plain_of_mem_restNames : ∀ names ∈ restNames, Plain names := by decide

theorem confined_qualitySections (src : Template.Source) (project : Path) (o : Options) :
    Confined src project restNames (Description.qualitySections src o) := by
  have hbranch {c : Bool} {name : String} {ctx : Template.Context} {f : String → Run String}
      (hname : (Path.ofString name).anchor = .here)
      (hf : ∀ text, Confined src project restNames (f text)) :
      Confined src project restNames (if c then src.render name ctx >>= f else pure "" >>= f) := by
    split
    · exact (Confined.render hname _).bind hf
    · exact (Confined.pure _).bind hf
  rw [Description.qualitySections]
  split
  · apply hbranch (by decide)
    intro linting
    apply hbranch (by decide)
    intro commits
    exact .render (by decide) _
  · exact .pure _

theorem confined_editorFiles (src : Template.Source) (project : Path) (o : Options) :
    Confined src project restNames (EditorFiles.write src project o) := by
  refine (Confined.writeString (.head _) _).bind fun _ => ?_
  exact (Confined.emit (by decide) (.tail _ (.head _)) _).bind fun _ => .pure _

theorem confined_description (src : Template.Source) (project : Path) (o : Options) :
    Confined src project restNames (Description.write src project o) := by
  refine Confined.bind ?_ fun texts => ?_
  · exact (confined_qualitySections src project o).bind fun _ => .pure _
  · refine Confined.bind ?_ fun _ => .pure _
    exact .emit (by decide) (.tail _ (.tail _ (.head _))) _

/-- **The rest reads and writes its own files only.** -/
theorem confined_addRest (plan : Plan) (project : Path) (o : Options) :
    Confined plan.templates project restNames (addRest plan project o) := by
  refine (confined_editorFiles _ _ _).bind fun _ => ?_
  exact (confined_description _ _ _).bind fun _ => .pure _

/-- **The rest touches no other file.** -/
theorem within_addRest (plan : Plan) (project : Path) (o : Options) :
    Within restNames (addRest plan project o) :=
  (confined_addRest plan project o).within plain_of_mem_restNames

/-! ## After the preflight -/

/-- The session in which the first feature is set up. -/
def started (o : Options) (s : Session) : Session :=
  { s with log := s.log ++ [.composing o.projectName] }

theorem sameFiles_started (o : Options) (s : Session) : SameFiles s (started o s) := ⟨rfl, rfl⟩

/-- What a run does when all features have been set up. -/
def finish (plan : Plan) (project : Path) (o : Options) (seed : Seed) (a : Ledger) : Run Outcome := do
  let effects := a.total
  report (.composed effects.features effects.dependencies effects.devDependencies)
  let manifest ← writeShared plan project o seed effects.toEffects
  addRest plan project o
  return { project, effects, manifest, entry := entryAt project o }

/-- After the preflight a run composes its features, and then writes. -/
theorem perform_assemble_compose {seed : Seed}
    (hpre : (preflight plan path o).perform s = (.ok (project, seed), s)) :
    (assemble plan path o).perform s = (do
      let effects ← compose project o plan.providers
      let manifest ← writeShared plan project o seed effects.toEffects
      addRest plan project o
      return { project, effects, manifest, entry := entryAt project o } : Run Outcome).perform
        (started o s) := by
  rw [assemble_eq, composeShared]
  simp only [bind_assoc]
  rw [perform_bind_of_ok hpre, perform_bind_of_ok (perform_report _ _)]
  simp only [pure_bind]
  rfl

/-- The features are set up, one after another, if they have different names. -/
theorem perform_assemble {seed : Seed}
    (hpre : (preflight plan path o).perform s = (.ok (project, seed), s))
    (hnames : repeatedNames (plan.providers.map (·.name)) = []) :
    (assemble plan path o).perform s =
      (plan.providers.foldlM (composeStep project o) {} >>= finish plan project o seed).perform
        (started o s) := by
  rw [perform_assemble_compose hpre, compose, hnames]
  simp only [bind_assoc, pure_bind]
  rfl

end Scaffold.Assembly
