import Scaffold.Proofs.Assembly.Shared
import Scaffold.Proofs.Composition.Harmless
import Scaffold.Proofs.Disk.Texts
import Scaffold.Proofs.Manifest.Reload

/-!
# Running again after a success

A run that succeeds leaves an entry file without a mount expression. The next run reads the manifest,
finds no place in the entry file, and ends there: no feature is set up, and nothing is written.

* **Readable again.** Both shared files are texts that are read as they were written.
* **No place.** The entry file is refused because its anchor is there zero times.
-/

namespace Scaffold.Assembly

open Run

variable {plan plan₂ : Plan} {path project : Path} {o o₂ : Options} {s t : Session} {seed : Seed}

/-- What a successful run leaves in the shared files. -/
structure Finished (project : Path) (o : Options) (s : Session) : Prop where
  /-- the manifest can be read -/
  manifest : ∃ (m : Manifest) (text : String), m.WellFormed ∧ m.toText = .text text ∧
    HoldsBytes (manifestPath project) text.toUTF8 s
  /-- the entry file has no mount expression -/
  entry : ∃ entry : String, '\r' ∉ entry.toList ∧
    SplitEntry.ofText defaultFactory entry = .error ⟨mountForm defaultFactory, 0⟩ ∧
    HoldsBytes (entryAt project o) entry.toUTF8 s

theorem Finished.of_frame {L : List (List String)} (h : Finished project o s) (hframe : Frame L s t)
    (hapart : ∀ names ∈ sharedNames o.typescript, Apart L names) : Finished project o t := by
  obtain ⟨m, text, hm, htext, hmanifest⟩ := h.manifest
  obtain ⟨entry, hplain, hsplit, hentry⟩ := h.entry
  exact ⟨⟨m, text, hm, htext, holdsBytes_of_frame hframe hapart (.head _) hmanifest⟩, entry, hplain,
    hsplit, holdsBytes_of_frame hframe hapart (.tail _ (.head _)) hentry⟩

theorem Finished.of_language (h : Finished project o s) (hlanguage : o₂.typescript = o.typescript) :
    Finished project o₂ s := by
  refine ⟨h.manifest, ?_⟩
  rw [entryAt, hlanguage]
  exact h.entry

theorem within_composeShared {src : Template.Source} (hproviders : plan.providers = builtinProviders src) :
    Within (Builtin.allTargets o ++ sharedNames o.typescript) (composeShared plan path o) := by
  refine (quiet_preflight plan path o).within.bind fun _ => (Within.report _).bind fun _ => ?_
  rw [hproviders]
  refine Within.bind ?_ fun effects => ?_
  · refine within_compose fun p hp _ => ?_
    exact (Builtin.within_builtinProviders src _ o p hp).mono (List.subset_append_left _ _)
  · refine Within.bind ?_ fun _ => (Quiet.pure _).within
    exact (within_writeShared _ _ _ _ _).mono (List.subset_append_right _ _)

theorem yields_composeShared {src : Template.Source}
    (hproviders : plan.providers = builtinProviders src) :
    Yields (fun r => r.effects.toEffects.Harmless) (composeShared plan path o) := by
  unfold composeShared
  refine Yields.of_last fun _ => Yields.of_last fun _ => ?_
  rw [hproviders]
  refine (yields_compose (harmless_builtinProviders src)).bind fun effects he => ?_
  exact Yields.of_last fun _ => Yields.pure he

/-- The texts of a run with harmless effects are readable, and have no mount expression. -/
theorem Finished.of_renewed {r : Shared} (hnames : plan.names = {}) (h : Renewed plan path o s t r)
    (heffects : r.effects.toEffects.Harmless)
    (hselector : ∀ split, SplitEntry.ofText defaultFactory r.seed.entry = .ok split →
      ¬ construction <:+: split.mount.selector.toList) : Finished r.project o t := by
  obtain ⟨text, entry, htexts, htext, hmanifest, hentry⟩ := h.texts
  obtain ⟨-, -, -, hseed⟩ := perform_preflight_ok.1 h.seed
  obtain ⟨_, _, -, -, hold⟩ := hseed.manifest
  obtain ⟨_, -, holdEntry⟩ := hseed.entry
  refine ⟨⟨r.manifest, text, ?_, htext, hmanifest⟩, entry, ?_⟩
  · have hconfig : (manifestEffects o r.effects.toEffects).packageConfig = r.effects.packageConfig := by
      unfold manifestEffects
      split <;> rfl
    rw [htexts.manifest]
    refine (Manifest.WellFormed.of_ofText hold).withEffects _ ?_
    rw [hconfig]
    exact heffects.config
  · have hrewrite := htexts.entry
    rw [hnames, rewriteEntry] at hrewrite
    obtain ⟨split, hsplit, hsplitText⟩ := bind_eq_ok_iff.1 hrewrite
    cases hsplitText
    refine ⟨?_, ?_, hentry⟩
    · exact SplitEntry.not_mem_withFeatures hsplit (Disk.not_mem_of_textOf holdEntry)
        heffects.statements
    · exact SplitEntry.ofText_withFeatures hsplit (hselector split hsplit) heffects.statements

/-- A file below a directory is there only if the directory is. -/
theorem isDirectory_of_holdsBytes {c : ByteArray} (h : HoldsBytes (manifestPath project) c s) :
    s.tree.isDirectory s.here project = true := by
  obtain ⟨q, hq⟩ := find_of_readFile? h
  have habsolute : (manifestPath project).absolute s.here =
      project.absolute s.here ++ [Manifest.fileName] := by
    unfold manifestPath Feature.below Path.absolute
    cases project.anchor <;> simp
  rw [habsolute] at hq
  obtain ⟨d, hd⟩ := Tree.findFrom_append_reaches (show [Manifest.fileName] ≠ [] by simp)
    (by rw [← Tree.find, hq]; rfl)
  unfold Tree.isDirectory Tree.find
  rw [hd]

/-- The preflight ends at the entry file. -/
theorem Finished.perform_preflight (h : Finished project o s) (hnames : plan.names = {})
    (hproject : Disk.resolved s.here path = .ok project) :
    (preflight plan path o).perform s =
      (.error (.anchor (entryAt project o) ⟨mountForm defaultFactory, 0⟩), s) := by
  obtain ⟨m, text, hm, htext, hmanifest⟩ := h.manifest
  obtain ⟨entry, hplain, hsplit, hentry⟩ := h.entry
  obtain ⟨m', hread⟩ := hm.exists_ofText_toText
  rw [htext] at hread
  have hplain' : '\r' ∉ text.toList := Json.not_mem_of_toFile hm.sound_toJson htext
  have hofFile : (Manifest.ofFile (manifestPath project)).perform s = (.ok m', s) :=
    perform_ofFile_ok.2 ⟨rfl, _, _, hmanifest, Disk.textOf_toUTF8 hplain', hread⟩
  have hrequire : (Disk.require (entryAt project o) none).perform s = (.ok entry, s) :=
    Disk.perform_require_ok.2 ⟨rfl, _, hentry, Disk.textOf_toUTF8 hplain⟩
  have hseed : (readSeed plan project o).perform s =
      (.error (.anchor (entryAt project o) ⟨mountForm defaultFactory, 0⟩), s) := by
    rw [readSeed, perform_bind_of_ok hofFile, perform_bind_of_ok hrequire, hnames]
    refine perform_bind_of_error ?_
    rw [hsplit]
    rfl
  have hdirectory : (Disk.isDirectory project).perform s = (.ok true, s) := by
    rw [← isDirectory_of_holdsBytes hmanifest]
    rfl
  rw [Assembly.perform_preflight, hproject, perform_bind_of_ok (perform_orFail_ok _ _ _), checkSeed,
    perform_bind_of_ok hdirectory]
  exact perform_bind_of_error hseed

/-- **A run after a successful one ends at the entry file and changes nothing.** -/
theorem rerun_refused {src : Template.Source} {out : Outcome}
    (hproviders : plan.providers = builtinProviders src) (hnames : plan.names = {})
    (hnames₂ : plan₂.names = {}) (hlanguage : o₂.typescript = o.typescript)
    (hselector : ∀ seed split, SeedAt defaultFactory (path.resolve s.here) o seed s →
      SplitEntry.ofText defaultFactory seed.entry = .ok split →
      Text.occursIn construction split.mount.selector.toList = false)
    (h : (assemble plan path o).perform s = (.ok out, t)) :
    (assemble plan₂ path o₂).perform t =
      (.error (.anchor (entryAt (path.resolve s.here) o₂) ⟨mountForm defaultFactory, 0⟩), t) := by
  have hspares : ∀ p ∈ plan.providers, p.selected o → SparesShared (path.resolve s.here) o p := by
    rw [hproviders]
    exact fun p hp _ => sparesShared_builtin src _ o p hp
  rw [assemble_eq, perform_bind_ok] at h
  obtain ⟨r, u, hshared, hrest⟩ := h
  obtain ⟨_, v, hadd, hpure⟩ := perform_bind_ok.1 hrest
  cases hpure
  rcases perform_composeShared hspares hshared with ⟨_, hr, -⟩ | ⟨_, hr, -⟩ | ⟨_, hr, hrenewed⟩ <;>
    cases hr
  have heffects := (yields_composeShared hproviders).of_perform hshared
  obtain ⟨-, hresolved, -, hseed⟩ := perform_preflight_ok.1 hrenewed.seed
  have hproject := resolve_of_resolved hresolved
  rw [hnames] at hseed
  have hfinished : Finished r.project o u := by
    refine .of_renewed hnames hrenewed heffects fun split hsplit hin => ?_
    have hnone := hselector r.seed split (hproject ▸ hseed) hsplit
    rw [Text.occursIn_iff.2 hin] at hnone
    cases hnone
  have hframe := (within_composeShared hproviders).frame_of_perform hshared
  have hframeRest := (within_addRest plan r.project o).frame_of_perform hadd
  have hkept := hfinished.of_frame hframeRest (apart_restNames o.typescript)
  have hresolved' : Disk.resolved t.here path = .ok r.project := by
    rw [hframeRest.here, hframe.here, hresolved]
  have hentry : entryAt r.project o₂ = entryAt (path.resolve s.here) o₂ := by rw [hproject]
  rw [assemble_eq, composeShared, ← hentry]
  refine perform_bind_of_error (perform_bind_of_error ?_)
  exact Finished.perform_preflight (hkept.of_language hlanguage) hnames₂ hresolved'

/-- The entry file of a fresh project. -/
def freshEntry : String := "createApp(App).mount('#app')\n"

/-- A fresh project, with empty templates for the files that every project receives. -/
def freshSeed : Session where
  tree := ⟨
    [(["demo"], .directory), (["demo", "package.json"], .file "\x7b\x7d".toUTF8),
     (["demo", "src"], .directory), (["demo", "src", "main.ts"], .file freshEntry.toUTF8),
     (["demo", "tpl"], .directory), (["demo", "tpl", "vscode"], .directory),
     (["demo", "tpl", "vscode", "settings.json.tpl"], .file "".toUTF8),
     (["demo", "tpl", "readme"], .directory),
     (["demo", "tpl", "readme", "README.md.tpl"], .file "".toUTF8)]⟩
  here := ["demo"]
  log := []

/-- A run with the templates of the fresh project. -/
def freshPlan : Plan := { templates := .folder ⟨.here, ["tpl"]⟩ }

/-- The options of a project with another style strategy. -/
def lessOptions : Options := { projectName := "demo", packageManager := .npm, css := .less }

theorem selector_freshSeed {seed : Seed} {split : SplitEntry}
    (hseed : SeedAt defaultFactory (Path.resolve freshSeed.here ⟨.here, []⟩) sassOptions seed freshSeed)
    (hsplit : SplitEntry.ofText defaultFactory seed.entry = .ok split) :
    Text.occursIn construction split.mount.selector.toList = false := by
  obtain ⟨c, hc, htext⟩ := hseed.entry
  have hfile : freshSeed.tree.readFile? freshSeed.here
      (entryAt (Path.resolve freshSeed.here ⟨.here, []⟩) sassOptions) = some freshEntry.toUTF8 := by
    rfl
  cases hfile.symm.trans hc
  have hseedText : seed.entry = freshEntry :=
    Except.ok.inj (htext.symm.trans (Disk.textOf_toUTF8 (by decide)))
  have hfresh : SplitEntry.ofText defaultFactory freshEntry =
      .ok ⟨"", ⟨"createApp", "App", "#app", '\x27'⟩, "\n"⟩ := by
    decide +kernel
  rw [hseedText] at hsplit
  cases hfresh.symm.trans hsplit
  decide

set_option maxRecDepth 100000 in
theorem rerun_refused_fresh : ∃ out t,
    (assemble freshPlan ⟨.here, []⟩ sassOptions).perform freshSeed = (.ok out, t) ∧
      (assemble freshPlan ⟨.here, []⟩ lessOptions).perform t =
        (.error (.anchor (entryAt (Path.resolve freshSeed.here ⟨.here, []⟩) lessOptions)
          ⟨mountForm defaultFactory, 0⟩), t) := by
  have hsucceeds :
      ((assemble freshPlan ⟨.here, []⟩ sassOptions).perform freshSeed).1.isOk = true := by
    decide +kernel
  obtain ⟨out, t, hrun⟩ := exists_perform_ok hsucceeds
  refine ⟨out, t, hrun, ?_⟩
  have hproviders : freshPlan.providers = builtinProviders .shipped := rfl
  have hlanguage : lessOptions.typescript = sassOptions.typescript := rfl
  exact rerun_refused hproviders rfl rfl hlanguage
    (fun _ _ hseed hsplit => selector_freshSeed hseed hsplit) hrun

end Scaffold.Assembly
