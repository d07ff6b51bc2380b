import Scaffold.Proofs.Assembly.Stages
import Scaffold.Proofs.Composition.Steps

/-!
# The shared files of a run

The manifest and the entry file are written by the run itself, and only once. A run that fails up to
that point has not touched them; a run that fails after it has written both of them whole.

* **Sparing.** A feature may do anything else, as long as both files keep their bytes.
* **Two writes, one outcome.** Where both files are there, either both writes succeed or the first
  one is refused: the only thing that can be wrong with the paths is wrong with both of them.
* **A manifest without an encoding** is the exception. The run ends between the two writes, and nothing
  is said about the manifest then.
-/

namespace Scaffold.Assembly

open Run

variable {plan : Plan} {path project : Path} {o : Options} {s t : Session} {seed : Seed}

/-- The files that a run writes for all features together. -/
def sharedFiles (project : Path) (o : Options) : List Path :=
  [manifestPath project, entryAt project o]

/-- The path leads to a file with the given bytes. -/
def HoldsBytes (q : Path) (c : ByteArray) (s : Session) : Prop :=
  s.tree.readFile? s.here q = some c

/-- The feature leaves the bytes of the shared files alone. -/
def SparesShared (project : Path) (o : Options) (p : Provider) : Prop :=
  ∀ q ∈ sharedFiles project o, ∀ c, Maintains (HoldsBytes q c) (p.install project o)

/-- The names of the manifest and the entry file. -/
def sharedNames (typescript : Bool) : List (List String) :=
  [[Manifest.fileName], ["src", if typescript then "main.ts" else "main.js"]]

theorem plain_of_mem_sharedNames :
    ∀ typescript, ∀ names ∈ sharedNames typescript, Plain names := by decide

theorem apart_of_mem_sharedNames :
    ∀ typescript, ∀ names ∈ sharedNames typescript, ∀ other ∈ sharedNames typescript,
      names ≠ other → Apart [names] other := by decide

theorem sharedFiles_eq (project : Path) (o : Options) :
    sharedFiles project o = (sharedNames o.typescript).map (Feature.below project) := rfl

/-- A shared file is kept by every run that touches only names apart from those of the two. -/
theorem holdsBytes_of_frame {L : List (List String)} {q : Path} {c : ByteArray}
    (hframe : Frame L s t) (hapart : ∀ names ∈ sharedNames o.typescript, Apart L names)
    (hq : q ∈ sharedFiles project o) (h : HoldsBytes q c s) : HoldsBytes q c t := by
  rw [sharedFiles_eq, List.mem_map] at hq
  obtain ⟨names, hmem, rfl⟩ := hq
  exact readFile?_of_frame hframe (plain_of_mem_sharedNames o.typescript names hmem)
    (Feature.suffix_below project names) (hapart names hmem) h

/-- A composition of features that spare the shared files spares them. -/
theorem holdsBytes_of_compose {providers : List Provider} {r : Except Failure MergedEffects}
    {q : Path} {c : ByteArray}
    (hspares : ∀ p ∈ providers, p.selected o → SparesShared project o p)
    (hq : q ∈ sharedFiles project o) (h : (compose project o providers).perform s = (r, t))
    (hs : HoldsBytes q c s) : HoldsBytes q c t := by
  have hframe {s t} (hst : Frame [] s t) : HoldsBytes q c s → HoldsBytes q c t :=
    holdsBytes_of_frame hst (fun names _ => apart_nil names) hq
  have hmaintains : Maintains (HoldsBytes q c) (compose project o providers) :=
    maintains_compose hframe fun p hp hselected => hspares p hp hselected q hq c
  have ht := hmaintains s hs
  rwa [h] at ht

/-! ## Writing both -/

/-- The new manifest of a run. -/
def newManifest (plan : Plan) (o : Options) (seed : Seed) (e : Effects) : Manifest :=
  seed.manifest.withEffects plan.version (manifestEffects o e)

/-- The texts that the shared files are to hold. -/
structure SharedTexts (plan : Plan) (o : Options) (seed : Seed) (e : Effects) (m : Manifest)
    (entry : String) : Prop where
  /-- the manifest with the effects -/
  manifest : m = newManifest plan o seed e
  /-- the entry file with the effects -/
  entry : rewriteEntry plan.names seed.entry e.imports e.useCalls = .ok entry

theorem holdsNull_entryAt (project : Path) (o : Options) :
    (entryAt project o).holdsNull = project.holdsNull := by
  unfold entryAt Feature.entryAt
  rw [Feature.holdsNull_below]
  cases o.typescript <;> simp

theorem holdsNull_manifestPath (project : Path) :
    (manifestPath project).holdsNull = project.holdsNull := by
  unfold manifestPath
  rw [Feature.holdsNull_below]
  simp [Manifest.fileName]

/-- A write to one of the shared files leaves the other one alone. -/
theorem holdsBytes_of_write {names other : List String} {text : String} {c : ByteArray}
    (hnames : names ∈ sharedNames o.typescript) (hother : other ∈ sharedNames o.typescript)
    (hne : names ≠ other)
    (h : (Disk.write (Feature.below project names) text).perform s = (.ok (), t))
    (hs : HoldsBytes (Feature.below project other) c s) :
    HoldsBytes (Feature.below project other) c t := by
  have hplain := plain_of_mem_sharedNames o.typescript
  have hframe := (Disk.within_write (L := [names]) (hplain _ hnames)
    (Feature.suffix_below project names) (.head _) text).frame_of_perform h
  refine readFile?_of_frame hframe (hplain _ hother) (Feature.suffix_below project other) ?_ hs
  exact apart_of_mem_sharedNames _ _ hnames _ hother hne

theorem holdsBytes_entry_of_write {text : String} {c : ByteArray}
    (h : (Disk.write (manifestPath project) text).perform s = (.ok (), t))
    (hs : HoldsBytes (entryAt project o) c s) : HoldsBytes (entryAt project o) c t := by
  have hmem : [Manifest.fileName] ∈ sharedNames o.typescript := .head _
  exact holdsBytes_of_write hmem (.tail _ (.head _)) (by simp) h hs

/-- Where both shared files are there, both can be written unless the path is refused. -/
theorem exists_perform_writes {old oldEntry : ByteArray} (hnull : project.holdsNull = false)
    (hold : HoldsBytes (manifestPath project) old s)
    (holdEntry : HoldsBytes (entryAt project o) oldEntry s) (text entry : String) :
    ∃ u t, (Disk.write (manifestPath project) text).perform s = (.ok (), u) ∧
      (Disk.write (entryAt project o) entry).perform u = (.ok (), t) ∧
      HoldsBytes (manifestPath project) text.toUTF8 t ∧
      HoldsBytes (entryAt project o) entry.toUTF8 t := by
  have hmem : [Manifest.fileName] ∈ sharedNames o.typescript := .head _
  have hmemEntry : ["src", if o.typescript then "main.ts" else "main.js"] ∈ sharedNames o.typescript :=
    .tail _ (.head _)
  have hne : [Manifest.fileName] ≠ ["src", if o.typescript then "main.ts" else "main.js"] := by
    simp
  have hparts : (manifestPath project).parts ≠ [] :=
    Feature.parts_below_ne_nil (plain_of_mem_sharedNames o.typescript _ hmem)
  have hpartsEntry : (entryAt project o).parts ≠ [] :=
    Feature.parts_below_ne_nil (plain_of_mem_sharedNames o.typescript _ hmemEntry)
  obtain ⟨u, hu⟩ :=
    Disk.exists_perform_write hparts ((holdsNull_manifestPath project).trans hnull) hold text
  obtain ⟨t, ht⟩ := Disk.exists_perform_write hpartsEntry ((holdsNull_entryAt project o).trans hnull)
    (holdsBytes_entry_of_write hu holdEntry) entry
  refine ⟨u, t, hu, ht, ?_, (Disk.holds_of_write hpartsEntry ht).bytes⟩
  exact holdsBytes_of_write hmemEntry hmem hne.symm ht (Disk.holds_of_write hparts hu).bytes

/-- **Where both shared files are there, both can be written or the first write is refused.** -/
theorem perform_writes {old oldEntry : ByteArray} (hold : HoldsBytes (manifestPath project) old s)
    (holdEntry : HoldsBytes (entryAt project o) oldEntry s) (text entry : String) :
    (∃ f, (Disk.write (manifestPath project) text).perform s = (.error f, s)) ∨
      ∃ u t, (Disk.write (manifestPath project) text).perform s = (.ok (), u) ∧
        (Disk.write (entryAt project o) entry).perform u = (.ok (), t) ∧
        HoldsBytes (manifestPath project) text.toUTF8 t ∧
        HoldsBytes (entryAt project o) entry.toUTF8 t := by
  cases hnull : project.holdsNull with
  | true =>
    have hparts : (manifestPath project).parts ≠ [] :=
      Feature.parts_below_ne_nil (plain_of_mem_sharedNames o.typescript _ (.head _))
    rw [← holdsNull_manifestPath] at hnull
    exact .inl (Disk.perform_write_of_holdsNull hparts hnull hold text)
  | false => exact .inr (exists_perform_writes hnull hold holdEntry text entry)

/-- Where the entry file can be rewritten, it is written after the manifest. -/
theorem perform_writeShared_of_rewrite {e : Effects} {entry : String}
    (h : rewriteEntry plan.names seed.entry e.imports e.useCalls = .ok entry) :
    (writeShared plan project o seed e).perform s =
      (do
        Disk.writeString (manifestPath project) (newManifest plan o seed e).toText
        Disk.write (entryAt project o) entry
        report (.updated (entryAt project o).name Manifest.fileName)
        return newManifest plan o seed e).perform s := by
  rw [writeShared, h, Feature.patched, perform_bind_of_ok (perform_orFail_ok _ _ _)]
  rfl

/-- The shared files are written both, or neither is touched; unless the new manifest has no
encoding. -/
theorem perform_writeShared {e : Effects} {r : Except Failure Manifest}
    {old oldEntry : ByteArray} (hold : HoldsBytes (manifestPath project) old s)
    (holdEntry : HoldsBytes (entryAt project o) oldEntry s)
    (h : (writeShared plan project o seed e).perform s = (r, t)) :
    (∃ f, r = .error f ∧ t = s) ∨
      (∃ halves, (newManifest plan o seed e).toText.asText = .error halves ∧
        r = .error (.unencodable halves) ∧ HoldsBytes (entryAt project o) oldEntry t) ∨
      ∃ m text entry, r = .ok m ∧ SharedTexts plan o seed e m entry ∧ m.toText = .text text ∧
        HoldsBytes (manifestPath project) text.toUTF8 t ∧
        HoldsBytes (entryAt project o) entry.toUTF8 t := by
  cases hrewrite : rewriteEntry plan.names seed.entry e.imports e.useCalls with
  | error fault =>
    rw [writeShared, hrewrite, Feature.patched,
      perform_bind_of_error (perform_orFail_error _ _ _)] at h
    cases h
    exact .inl ⟨_, rfl, rfl⟩
  | ok entry =>
    rw [perform_writeShared_of_rewrite hrewrite] at h
    rcases Disk.writeString_cases (manifestPath project) (newManifest plan o seed e).toText with
      ⟨text, htext, hwrite⟩ | ⟨halves, hhalves, hwrite⟩ <;> rw [hwrite] at h
    · rcases perform_writes hold holdEntry text entry with ⟨f, hf⟩ | ⟨u, v, hu, hv, hnew, hnewEntry⟩
      · rw [perform_bind_of_error hf] at h
        cases h
        exact .inl ⟨f, rfl, rfl⟩
      · rw [perform_bind_of_ok hu, perform_bind_of_ok hv, perform_bind_of_ok (perform_report _ _)] at h
        cases h
        exact .inr (.inr ⟨_, text, entry, rfl, ⟨rfl, hrewrite⟩, htext, hnew, hnewEntry⟩)
    -- the manifest is emptied before it is refused, and the entry file is not reached
    · rw [bind_assoc] at h
      rcases perform_writes hold holdEntry "" entry with ⟨f, hf⟩ | ⟨u, -, hu, -⟩
      · rw [perform_bind_of_error hf] at h
        cases h
        exact .inl ⟨f, rfl, rfl⟩
      · rw [perform_bind_of_ok hu, perform_bind_of_error (perform_failWith _ _)] at h
        cases h
        exact .inr (.inl ⟨halves, hhalves, rfl, holdsBytes_entry_of_write hu holdEntry⟩)

theorem confined_writeShared (plan : Plan) (project : Path) (o : Options) (seed : Seed)
    (e : Effects) :
    Confined plan.templates project (sharedNames o.typescript)
      (writeShared plan project o seed e) := by
  refine (Confined.patched _ _).bind fun entry => ?_
  refine (Confined.writeString (.head _) _).bind fun _ => ?_
  refine (Confined.write (.tail _ (.head _)) _).bind fun _ => ?_
  exact (Confined.report _).bind fun _ => .pure _

theorem within_writeShared (plan : Plan) (project : Path) (o : Options) (seed : Seed) (e : Effects) :
    Within (sharedNames o.typescript) (writeShared plan project o seed e) :=
  (confined_writeShared plan project o seed e).within (plain_of_mem_sharedNames o.typescript)

/-! ## Failing runs -/

/-- The shared files hold the new texts, made from the seed that was read at the beginning. -/
structure Renewed (plan : Plan) (path : Path) (o : Options) (s t : Session) (r : Shared) : Prop where
  /-- the seed was read before anything was written -/
  seed : (preflight plan path o).perform s = (.ok (r.project, r.seed), s)
  /-- the texts are in the files -/
  texts : ∃ text entry, SharedTexts plan o r.seed r.effects.toEffects r.manifest entry ∧
    r.manifest.toText = .text text ∧ HoldsBytes (manifestPath r.project) text.toUTF8 t ∧
    HoldsBytes (entryAt r.project o) entry.toUTF8 t

/-- The features have been composed, but the new manifest has a string without an encoding. The entry
file is still to be written. -/
structure Unencoded (plan : Plan) (path : Path) (o : Options) (s t : Session) (f : Failure) : Prop where
  /-- the new manifest is no text -/
  manifest : ∃ seed effects u halves,
    (preflight plan path o).perform s = (.ok (path.resolve s.here, seed), s) ∧
    (compose (path.resolve s.here) o plan.providers).perform (started o s) = (.ok effects, u) ∧
    (newManifest plan o seed effects.toEffects).toText.asText = .error halves ∧
    f = .unencodable halves
  /-- the entry file is as it was -/
  entry : t.tree.readFile? t.here (entryAt (path.resolve s.here) o) =
    s.tree.readFile? s.here (entryAt (path.resolve s.here) o)

theorem resolve_of_resolved {here : List String} (h : Disk.resolved here path = .ok project) :
    project = path.resolve here := by
  unfold Disk.resolved at h
  split at h
  · cases h
  · cases h
    rfl

/-- A run up to the shared writes has touched neither file if it fails, and both if it succeeds; unless
the new manifest has no encoding. -/
theorem perform_composeShared {r : Except Failure Shared}
    (hspares : ∀ p ∈ plan.providers, p.selected o → SparesShared (path.resolve s.here) o p)
    (h : (composeShared plan path o).perform s = (r, t)) :
    (∃ f, r = .error f ∧ ∀ q ∈ sharedFiles (path.resolve s.here) o,
        t.tree.readFile? t.here q = s.tree.readFile? s.here q) ∨
      (∃ f, r = .error f ∧ Unencoded plan path o s t f) ∨
      ∃ a, r = .ok a ∧ Renewed plan path o s t a := by
  unfold composeShared at h
  rcases hpre : (preflight plan path o).perform s with ⟨f | ⟨project, seed⟩, u⟩ <;>
    obtain rfl := (quiet_preflight plan path o).eq_of_perform hpre
  · rw [perform_bind_of_error hpre] at h
    cases h
    exact .inl ⟨f, rfl, fun _ _ => rfl⟩
  obtain ⟨-, hresolved, -, hseed⟩ := perform_preflight_ok.1 hpre
  obtain rfl := resolve_of_resolved hresolved
  obtain ⟨old, -, hold, -⟩ := hseed.manifest
  obtain ⟨oldEntry, holdEntry, -⟩ := hseed.entry
  have hkept {v : Session} (hv : HoldsBytes (manifestPath (path.resolve u.here)) old v)
      (hvEntry : HoldsBytes (entryAt (path.resolve u.here) o) oldEntry v) :
      ∀ q ∈ sharedFiles (path.resolve u.here) o,
        v.tree.readFile? v.here q = u.tree.readFile? u.here q := by
    simp only [sharedFiles, List.forall_mem_cons, List.not_mem_nil, false_implies, implies_true,
      and_true]
    exact ⟨hv.trans hold.symm, hvEntry.trans holdEntry.symm⟩
  -- the features keep what was read, whether all of them succeed or not
  rw [perform_bind_of_ok hpre, perform_bind_of_ok (perform_report _ _)] at h
  rcases hcompose : (compose (path.resolve u.here) o plan.providers).perform
    { u with log := u.log ++ [.composing o.projectName] } with ⟨composed, v⟩
  have hv := holdsBytes_of_compose hspares (.head _) hcompose hold
  have hvEntry := holdsBytes_of_compose hspares (.tail _ (.head _)) hcompose holdEntry
  rcases composed with f | effects
  · rw [perform_bind_of_error hcompose] at h
    cases h
    exact .inl ⟨f, rfl, hkept hv hvEntry⟩
  · rw [perform_bind_of_ok hcompose] at h
    rcases hwrite : (writeShared plan (path.resolve u.here) o seed effects.toEffects).perform v with
      ⟨r', w⟩
    rcases perform_writeShared hv hvEntry hwrite with ⟨f, rfl, rfl⟩ | ⟨halves, hhalves, rfl, hw⟩ |
      ⟨m, text, entry, rfl, htexts, htext, hnew, hnewEntry⟩
    · rw [perform_bind_of_error hwrite] at h
      cases h
      exact .inl ⟨f, rfl, hkept hv hvEntry⟩
    · rw [perform_bind_of_error hwrite] at h
      cases h
      refine .inr (.inl ⟨_, rfl, ⟨seed, effects, v, halves, hpre, hcompose, hhalves, rfl⟩, ?_⟩)
      exact hw.trans holdEntry.symm
    · rw [perform_bind_of_ok hwrite] at h
      cases h
      exact .inr (.inr ⟨_, rfl, hpre, text, entry, htexts, htext, hnew, hnewEntry⟩)

theorem apart_fileNames : ∀ typescript transformed, ∀ names ∈ sharedNames typescript,
    ∀ b ∈ Builtin.all, Apart (b.fileNames typescript transformed) names := by decide

/-- The features that come with the program spare the shared files. -/
theorem sparesShared_builtin (src : Template.Source) (project : Path) (o : Options) :
    ∀ p ∈ builtinProviders src, SparesShared project o p := by
  intro p hp q hq c s hs
  obtain ⟨b, hb, rfl⟩ := List.mem_map.1 hp
  exact holdsBytes_of_frame ((b.within_install src project o).frame s)
    (fun names hnames => apart_fileNames _ _ names hnames b hb) hq hs

theorem apart_restNames : ∀ typescript, ∀ names ∈ sharedNames typescript, Apart restNames names := by
  decide

/-- **A run that fails leaves the shared files as they were, or has written both of them.** It has
written both exactly if it fails at the editor files or the description, which come after them. Only a
new manifest without an encoding ends it in between. -/
theorem shared_of_failed_run {f : Failure}
    (hspares : ∀ p ∈ plan.providers, p.selected o → SparesShared (path.resolve s.here) o p)
    (h : (assemble plan path o).perform s = (.error f, t)) :
    ((composeShared plan path o).perform s = (.error f, t) ∧
        ∀ q ∈ sharedFiles (path.resolve s.here) o,
          t.tree.readFile? t.here q = s.tree.readFile? s.here q) ∨
      ((composeShared plan path o).perform s = (.error f, t) ∧ Unencoded plan path o s t f) ∨
      ∃ r u, (composeShared plan path o).perform s = (.ok r, u) ∧
        (addRest plan r.project o).perform u = (.error f, t) ∧ Renewed plan path o s t r := by
  rw [assemble_eq] at h
  rcases hshared : (composeShared plan path o).perform s with ⟨e | r, u⟩
  · rw [perform_bind_of_error hshared] at h
    cases h
    rcases perform_composeShared hspares hshared with ⟨_, -, hkept⟩ | ⟨_, hr, hlone⟩ | ⟨_, hr, -⟩
    · exact .inl ⟨rfl, hkept⟩
    · cases hr
      exact .inr (.inl ⟨rfl, hlone⟩)
    · cases hr
  · rw [perform_bind_of_ok hshared] at h
    rcases perform_composeShared hspares hshared with ⟨_, hr, -⟩ | ⟨_, hr, -⟩ |
      ⟨_, hr, hseed, text, entry, htexts, htext, hm, he⟩
    · cases hr
    · cases hr
    cases hr
    rcases perform_bind_error.1 h with hrest | ⟨_, v, -, hpure⟩
    · have hframe := (within_addRest plan r.project o).frame_of_perform hrest
      have hkeep {q : Path} {c : ByteArray} (hq : q ∈ sharedFiles r.project o) :
          HoldsBytes q c u → HoldsBytes q c t :=
        holdsBytes_of_frame hframe (apart_restNames o.typescript) hq
      exact .inr (.inr ⟨r, u, rfl, hrest, hseed, text, entry, htexts, htext, hkeep (.head _) hm,
        hkeep (.tail _ (.head _)) he⟩)
    · cases hpure

/-- A seed project with a file in the place of the directory for the editor files. -/
def blockedSeed : Session where
  tree := ⟨
    [(["demo"], .directory), (["demo", "package.json"], .file "\x7b\x7d".toUTF8),
     (["demo", "src"], .directory),
     (["demo", "src", "main.ts"], .file "createApp(App).mount('#app')\n".toUTF8),
     (["demo", ".vscode"], .file "".toUTF8)]⟩
  here := ["demo"]
  log := []

/-- The options of a project with a style strategy. -/
def sassOptions : Options := { projectName := "demo", packageManager := .npm, css := .sass }

set_option maxRecDepth 100000 in
theorem shared_of_failed_run_blocked : ∃ f t,
    (assemble {} ⟨.here, []⟩ sassOptions).perform blockedSeed = (.error f, t) ∧
      (((composeShared {} ⟨.here, []⟩ sassOptions).perform blockedSeed = (.error f, t) ∧
          ∀ q ∈ sharedFiles (.ofPlace ["demo"]) sassOptions,
            t.tree.readFile? t.here q = blockedSeed.tree.readFile? blockedSeed.here q) ∨
        ((composeShared {} ⟨.here, []⟩ sassOptions).perform blockedSeed = (.error f, t) ∧
          Unencoded {} ⟨.here, []⟩ sassOptions blockedSeed t f) ∨
        ∃ r u, (composeShared {} ⟨.here, []⟩ sassOptions).perform blockedSeed = (.ok r, u) ∧
          (addRest {} r.project sassOptions).perform u = (.error f, t) ∧
          Renewed {} ⟨.here, []⟩ sassOptions blockedSeed t r) := by
  have hfails : ((assemble {} ⟨.here, []⟩ sassOptions).perform blockedSeed).1.isOk = false := by
    decide +kernel
  rcases hrun : (assemble {} ⟨.here, []⟩ sassOptions).perform blockedSeed with ⟨f | r, t⟩
  · exact ⟨f, t, rfl, shared_of_failed_run
      (fun p hp _ => sparesShared_builtin .shipped _ sassOptions p hp) hrun⟩
  · rw [hrun] at hfails
    cases hfails

set_option maxRecDepth 100000 in
/-- A run that fails is not always without effect on the shared files: both have been rewritten when
the editor files are refused. -/
theorem not_kept_by_failed_run :
    ¬ ∀ (plan : Plan) (path : Path) (o : Options) (s t : Session) (f : Failure),
      (∀ p ∈ plan.providers, p.selected o → SparesShared (path.resolve s.here) o p) →
      (assemble plan path o).perform s = (.error f, t) →
      ∀ q ∈ sharedFiles (path.resolve s.here) o,
        t.tree.readFile? t.here q = s.tree.readFile? s.here q := by
  intro h
  have hfails : ((assemble {} ⟨.here, []⟩ sassOptions).perform blockedSeed).1.isOk = false := by
    decide +kernel
  have hchanged :
      let t := ((assemble {} ⟨.here, []⟩ sassOptions).perform blockedSeed).2
      ∃ q ∈ sharedFiles (.ofPlace ["demo"]) sassOptions,
        t.tree.readFile? t.here q ≠ blockedSeed.tree.readFile? blockedSeed.here q := by
    decide +kernel
  rcases hrun : (assemble {} ⟨.here, []⟩ sassOptions).perform blockedSeed with ⟨f | r, t⟩
  · obtain ⟨q, hq, hne⟩ := hchanged
    rw [hrun] at hne
    exact hne (h {} ⟨.here, []⟩ sassOptions blockedSeed t f
      (fun p hp _ => sparesShared_builtin .shipped _ sassOptions p hp) hrun q hq)
  · rw [hrun] at hfails
    cases hfails

end Scaffold.Assembly
