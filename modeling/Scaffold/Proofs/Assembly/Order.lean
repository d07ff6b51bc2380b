import Scaffold.Proofs.Assembly.Stages
import Scaffold.Proofs.Composition.Course
import Scaffold.Proofs.Disk.Texts

/-!
# The order of a run

A run reads the two shared files, sets up the features, and only then writes both files anew.

* **In between** the run itself writes nothing: what happens to the files while features are set up
  is done by the features (`Course`).
* **The new contents** are known when the last feature has been set up. They come from the texts that
  were read before the first one and from the merged effects (`renewed`), whatever the features have
  made of the files since. Working them out cannot fail, because the checks of the seed have found the
  mount expression that is rewritten.
* **The manifest is written first**, then the entry file, then the rest (`publish`).
-/

namespace Scaffold.Assembly

open Run

variable {plan : Plan} {path project : Path} {o : Options} {s t : Session} {seed : Seed}
  {e : Effects} {a : Ledger}

/-! ## The new contents -/

/-- What the two shared files are to hold. -/
structure Renewal where
  /-- the new manifest -/
  manifest : Manifest
  /-- the new text of the entry file -/
  entry : String

/-- The effects as they go into the manifest of a project that is driven with the package manager. -/
def withManager (manager : PackageManager) (e : Effects) : Effects :=
  if manager == .pnpm && !e.devDependencies.contains "pnpm" then
    { e with devDependencies := e.devDependencies ++ ["pnpm"] }
  else e

/-- The new contents for the texts that the manifest and the entry file had. -/
def renewed (names : EntryNames) (version : String) (manager : PackageManager)
    (manifest entry : String) (e : Effects) : Option Renewal := do
  let m ← (Manifest.ofText manifest).toOption
  let entry ← (rewriteEntry names entry e.imports e.useCalls).toOption
  return { manifest := m.withEffects version (withManager manager e), entry }

theorem manifestEffects_eq (o : Options) (e : Effects) :
    manifestEffects o e = withManager o.packageManager e := rfl

/-- An entry file that was split can be rewritten. -/
theorem rewriteEntry_of_split {names : EntryNames} {content : String} {split : SplitEntry}
    (h : SplitEntry.ofText names.factory content = .ok split) (imports useCalls : List String) :
    rewriteEntry names content imports useCalls =
      .ok (split.withFeatures imports useCalls names.name) := by
  rw [rewriteEntry, h]
  rfl

/-! ## Writing -/

/-- Writes the new contents, the manifest first, and then the rest. -/
def publish (plan : Plan) (project : Path) (o : Options) (effects : MergedEffects) (new : Renewal) :
    Run Outcome := do
  report (.composed effects.features effects.dependencies effects.devDependencies)
  Disk.writeString (manifestPath project) new.manifest.toText
  Disk.write (entryAt project o) new.entry
  report (.updated (entryAt project o).name Manifest.fileName)
  addRest plan project o
  return { project, effects, manifest := new.manifest, entry := entryAt project o }

/-- **After the last feature a run cannot fail before it writes.** The contents it writes come from
the seed. -/
theorem exists_renewed (hseed : SeedAt plan.names.factory project o seed s) (a : Ledger) :
    ∃ manifest new, Disk.Reads (manifestPath project) manifest s ∧
      Disk.Reads (entryAt project o) seed.entry s ∧
      renewed plan.names plan.version o.packageManager manifest seed.entry a.total.toEffects =
        some new ∧
      finish plan project o seed a = publish plan project o a.total new := by
  obtain ⟨c, manifest, hbytes, htext, hmanifest⟩ := hseed.manifest
  obtain ⟨split, hsplit⟩ := hseed.mount
  have hrewrite := rewriteEntry_of_split hsplit a.total.imports a.total.useCalls
  let new : Renewal := {
    manifest := seed.manifest.withEffects plan.version
      (withManager o.packageManager a.total.toEffects)
    entry := split.withFeatures a.total.imports a.total.useCalls plan.names.name }
  refine ⟨manifest, new, ⟨c, hbytes, htext⟩, hseed.entry, ?_, ?_⟩
  · rw [renewed, hmanifest, hrewrite]
    rfl
  · unfold finish publish writeShared
    simp only [hrewrite, manifestEffects_eq, Feature.patched, orFail, bind_assoc, pure_bind, new]

/-! ## The whole run -/

/-- How a run goes that starts at the session `s`: its outcome and the session at its end. -/
inductive Unfolds (plan : Plan) (path : Path) (o : Options) (s : Session) :
    Except Failure Outcome × Session → Prop
  /-- the seed project is refused, and nothing is done -/
  | refused {f : Failure} :
      (preflight plan path o).perform s = (.error f, s) →
      Unfolds plan path o s (.error f, s)
  /-- features are refused because they share a name, and none is set up -/
  | repeated {project : Path} {seed : Seed} {name : String} {names : List String} :
      (preflight plan path o).perform s = (.ok (project, seed), s) →
      repeatedNames (plan.providers.map (·.name)) = name :: names →
      Unfolds plan path o s (.error (.repeatedProviders (name :: names)), started o s)
  /-- a feature ends the run, and nothing is written after it -/
  | stopped {project : Path} {seed : Seed} {f : Failure} {t : Session} :
      (preflight plan path o).perform s = (.ok (project, seed), s) →
      repeatedNames (plan.providers.map (·.name)) = [] →
      Course project o plan.providers {} (started o s) (.error f) t →
      Unfolds plan path o s (.error f, t)
  /-- all features are set up, and the contents that are written then come from the texts read before
  the first one -/
  | published {project : Path} {seed : Seed} {a : Ledger} {t : Session} {manifest : String}
      {new : Renewal} :
      (preflight plan path o).perform s = (.ok (project, seed), s) →
      Disk.Reads (manifestPath project) manifest s →
      Disk.Reads (entryAt project o) seed.entry s →
      repeatedNames (plan.providers.map (·.name)) = [] →
      Course project o plan.providers {} (started o s) (.ok a) t →
      renewed plan.names plan.version o.packageManager manifest seed.entry a.total.toEffects =
        some new →
      Unfolds plan path o s ((publish plan project o a.total new).perform t)

theorem perform_assemble_refused {f : Failure}
    (hpre : (preflight plan path o).perform s = (.error f, s)) :
    (assemble plan path o).perform s = (.error f, s) := by
  rw [assemble_eq, composeShared]
  simp only [bind_assoc]
  exact perform_bind_of_error hpre

theorem perform_assemble_repeated {name : String} {names : List String}
    (hpre : (preflight plan path o).perform s = (.ok (project, seed), s))
    (hnames : repeatedNames (plan.providers.map (·.name)) = name :: names) :
    (assemble plan path o).perform s =
      (.error (.repeatedProviders (name :: names)), started o s) := by
  rw [perform_assemble_compose hpre, compose, hnames]
  exact perform_bind_of_error (perform_failWith _ _)

/-- **How a run goes**: it checks, sets up the features, and writes the shared files last, with
contents that only depend on what was read first and on the merged effects. -/
theorem unfolds_assemble (plan : Plan) (path : Path) (o : Options) (s : Session) :
    Unfolds plan path o s ((assemble plan path o).perform s) := by
  rcases hpre : (preflight plan path o).perform s with ⟨f | ⟨project, seed⟩, u⟩ <;>
    obtain rfl := (quiet_preflight plan path o).eq_of_perform hpre
  · rw [perform_assemble_refused hpre]
    exact .refused hpre
  · cases hnames : repeatedNames (plan.providers.map (·.name)) with
    | cons name names =>
      rw [perform_assemble_repeated hpre hnames]
      exact .repeated hpre hnames
    | nil =>
      -- the course decides whether the run comes to its writes
      obtain ⟨-, -, -, hseed⟩ := perform_preflight_ok.1 hpre
      rw [perform_assemble hpre hnames, perform_bind]
      rcases hcourse : (plan.providers.foldlM (composeStep project o) {}).perform (started o u) with
        ⟨f | a, t⟩
      · exact .stopped hpre hnames (course_iff.2 hcourse)
      · obtain ⟨manifest, new, hmanifest, hentry, hnew, hfinish⟩ := exists_renewed hseed a
        simp only [hfinish]
        exact .published hpre hmanifest hentry hnames (course_iff.2 hcourse) hnew

end Scaffold.Assembly
