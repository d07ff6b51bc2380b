import Scaffold.Proofs.Composition.Reordered
import Scaffold.Proofs.Disk.Lockstep
import Scaffold.Proofs.Feature.Settled

/-!
# The features that come with the program, in another order

These features do not depend on each other, except that two of them patch the build configuration. As
long as the utility classes come before the styling, every order leaves the same files and asks for
the same.

* **Setting up** is what a composition does to the files; the effects are merged beside it
  (`compose_ok_iff`).
* **Independent files.** No file of a feature stands in the way of another's, so the setups can be
  rearranged. That directories are shared does not matter.
* **Fixed effects.** What a feature asks for is decided by the options, if it can be set up at all.
-/

namespace Scaffold

open Run

variable {project : Path} {o : Options} {s s' t t' u : Session} {a b : Ledger} {p : Provider}
  {providers : List Provider} {asked : Provider → Effects} {r : Except Failure Ledger}
  {e e' : MergedEffects}

theorem SameFiles.sameNodes (h : SameFiles s t) : SameNodes s t :=
  ⟨h.here, fun q => by rw [h.tree]⟩

/-! ## Setting up -/

/-- Sets up a feature if it is asked for, and drops what it asks for. -/
def Provider.setUp (project : Path) (o : Options) (p : Provider) : Run Unit :=
  if p.selected o then p.install project o >>= fun _ => pure () else pure ()

theorem perform_setUp_skipped (h : p.selected o = false) :
    (p.setUp project o).perform s = (.ok (), s) := by
  rw [Provider.setUp, if_neg (by simp [h])]
  rfl

theorem perform_setUp_ok (h : p.selected o = true) :
    (p.setUp project o).perform s = (.ok (), t) ↔
      ∃ e, (p.install project o).perform s = (.ok e, t) := by
  rw [Provider.setUp, if_pos h, perform_bind_ok]
  constructor
  · rintro ⟨e, u, hinstall, hend⟩
    cases hend
    exact ⟨e, hinstall⟩
  · rintro ⟨e, hinstall⟩
    exact ⟨e, t, hinstall, rfl⟩

/-- In a course that succeeds, all features are set up. -/
theorem Course.exists_setUps (h : Course project o providers a s (.ok b) t)
    (hblind : ∀ p ∈ providers, p.selected o → Blind (p.install project o)) (hs : SameFiles s s') :
    ∃ t', (providers.forM (Provider.setUp project o)).perform s' = (.ok (), t') ∧
      SameFiles t t' := by
  generalize hr : Except.ok b = r at h
  induction h generalizing s' with
  | done a s => exact ⟨s', rfl, hs⟩
  | skipped hselected _ ih =>
    obtain ⟨t', hlater, ht⟩ :=
      ih (fun p hp => hblind p (.tail _ hp)) hs.of_saying hr
    exact ⟨t', perform_forM_cons_ok.2 ⟨s', perform_setUp_skipped hselected, hlater⟩, ht⟩
  | merged hselected hinstall _ _ ih =>
    obtain ⟨v, hinstall', hv⟩ := (hblind _ (.head _) hselected).perform hs.of_saying hinstall
    obtain ⟨t', hlater, ht⟩ := ih (fun p hp => hblind p (.tail _ hp)) hv.of_saying hr
    exact ⟨t', perform_forM_cons_ok.2 ⟨v, (perform_setUp_ok hselected).2 ⟨_, hinstall'⟩, hlater⟩, ht⟩
  | failed => cases hr
  | clashed => cases hr

/-- Where all features can be set up, only the merging of their effects decides on the outcome. -/
theorem Course.outcome_of_setUps (h : Course project o providers a s r t)
    (hblind : ∀ p ∈ providers, p.selected o → Blind (p.install project o))
    (hasked : ∀ p ∈ providers, Yields (· = asked p) (p.install project o)) (hs : SameFiles s s')
    (hrun : (providers.forM (Provider.setUp project o)).perform s' = (.ok (), t')) :
    r = a.recordAll (askedBy o asked providers) := by
  induction h generalizing s' with
  | done a s => rfl
  | skipped hselected _ ih =>
    obtain ⟨u, hskip, hlater⟩ := perform_forM_cons_ok.1 hrun
    rw [perform_setUp_skipped hselected] at hskip
    cases hskip
    rw [askedBy, List.filter_cons_of_neg (by simp [hselected])]
    exact ih (fun p hp => hblind p (.tail _ hp)) (fun p hp => hasked p (.tail _ hp))
      hs.of_saying hlater
  | merged hselected hinstall hrecord _ ih =>
    obtain ⟨u, hsetUp, hlater⟩ := perform_forM_cons_ok.1 hrun
    obtain ⟨e', hinstall'⟩ := (perform_setUp_ok hselected).1 hsetUp
    obtain ⟨v, hsame, hv⟩ := (hblind _ (.head _) hselected).perform hs.of_saying hinstall
    rw [hinstall'] at hsame
    cases hsame
    obtain rfl := (hasked _ (.head _)).of_perform hinstall
    rw [askedBy, List.filter_cons_of_pos (by simp [hselected]), List.map_cons, Ledger.recordAll,
      hrecord]
    exact ih (fun p hp => hblind p (.tail _ hp)) (fun p hp => hasked p (.tail _ hp)) hv.of_saying hlater
  | failed hselected hinstall =>
    obtain ⟨u, hsetUp, -⟩ := perform_forM_cons_ok.1 hrun
    obtain ⟨e', hinstall'⟩ := (perform_setUp_ok hselected).1 hsetUp
    obtain ⟨v, hsame, -⟩ := (hblind _ (.head _) hselected).perform hs.of_saying hinstall
    rw [hinstall'] at hsame
    cases hsame
  | clashed hselected hinstall hrecord =>
    obtain rfl := (hasked _ (.head _)).of_perform hinstall
    rw [askedBy, List.filter_cons_of_pos (by simp [hselected]), List.map_cons, Ledger.recordAll,
      hrecord]

/-- **A composition succeeds** exactly if all features can be set up and their effects be merged, and
the setups are all that it does to the files. -/
theorem compose_ok_iff (hnames : (providers.map (·.name)).Nodup)
    (hblind : ∀ p ∈ providers, p.selected o → Blind (p.install project o))
    (hasked : ∀ p ∈ providers, Yields (· = asked p) (p.install project o)) :
    (∃ t, (compose project o providers).perform s = (.ok e, t) ∧ SameFiles t u) ↔
      ∃ a u', (providers.forM (Provider.setUp project o)).perform s = (.ok (), u') ∧
        SameFiles u' u ∧ Ledger.recordAll {} (askedBy o asked providers) = .ok a ∧ e = a.total := by
  have hcourse := course_of_foldlM project o providers {} s
  obtain ⟨events, hrun⟩ := exists_events_of_course project o _
  have hcompose := hrun hnames hcourse
  constructor
  · rintro ⟨t, hok, ht⟩
    rw [hcompose] at hok
    cases hr : ((providers.foldlM (composeStep project o) {}).perform s).1 with
    | error f =>
      rw [hr] at hok
      cases hok
    | ok a =>
      rw [hr] at hok hcourse
      cases hok
      obtain ⟨u', hsetUps, hu'⟩ := hcourse.exists_setUps hblind (SameFiles.refl s)
      refine ⟨a, u', hsetUps, ?_, ?_, rfl⟩
      · exact hu'.symm.trans ((sameFiles_saying _ _).trans ht)
      · exact (hcourse.outcome_of_setUps hblind hasked (SameFiles.refl s) hsetUps).symm
  · rintro ⟨a, u', hsetUps, hu', hall, rfl⟩
    have hout := hcourse.outcome_of_setUps hblind hasked (SameFiles.refl s) hsetUps
    rw [hall] at hout
    rw [hout] at hcompose hcourse
    obtain ⟨v, hsetUps', hv⟩ := hcourse.exists_setUps hblind (SameFiles.refl s)
    rw [hsetUps] at hsetUps'
    cases hsetUps'
    exact ⟨_, hcompose, (hv.trans hu').of_saying⟩

/-! ## What the features ask for -/

namespace Effects

/-- Effects with no settings but those of the tool that helps to write messages. -/
structure MessageToolOnly (e : Effects) : Prop extends e.Keyed where
  /-- the settings -/
  config : e.packageConfig = [] ∨ e.packageConfig = Feature.messageToolConfig

theorem MessageToolOnly.of_scripts {e : Effects} (hscripts : e.scripts.keys.Nodup)
    (hlintStaged : e.lintStaged = []) (hconfig : e.packageConfig = []) : e.MessageToolOnly where
  scripts := hscripts
  lintStaged := by
    rw [hlintStaged]
    exact .nil
  packageConfig := by
    rw [hconfig]
    exact .nil
  config := .inl hconfig

theorem MessageToolOnly.regular {e : Effects} (h : e.MessageToolOnly) : e.Regular := by
  refine ⟨h.toKeyed, fun setting hsetting => ?_⟩
  rcases h.config with hconfig | hconfig <;> rw [hconfig] at hsetting
  · cases hsetting
  · obtain rfl := List.mem_singleton.1 hsetting
    exact ⟨Json.sound_obj.2 ⟨by decide, List.forall_mem_singleton.2 trivial⟩, nofun⟩

theorem MessageToolOnly.alike {e e' : Effects} (h : e.MessageToolOnly) (h' : e'.MessageToolOnly) :
    e.Alike e' := by
  intro k v w hv hw
  rcases h.config with hconfig | hconfig <;> rw [hconfig] at hv
  · cases hv
  · rcases h'.config with hconfig' | hconfig' <;> rw [hconfig'] at hw
    · cases hw
    · exact Option.some.inj (hv.symm.trans hw)

end Effects

namespace Builtin

variable {bs bs' : List Builtin} {c c' : Builtin}

/-- The keys that a feature declares in the sections of the manifest. -/
def declaredKeys : Builtin → Section → List String
  | .linting, .scripts => ["lint"]
  | .commitChecks, .scripts => ["cz", "prepare"]
  | .commitChecks, .lintStaged => ["*.\x7bjs,ts,vue\x7d"]
  | .commitChecks, .config => ["commitizen"]
  | _, _ => []

/-- What a feature asks for. -/
def asks (o : Options) : Builtin → Effects
  | .routing => Feature.routingEffects
  | .storage => Feature.storageEffects
  | .linting => Feature.lintingEffects o
  | .utilityClasses => Feature.utilityEffects
  | .styling => { devDependencies := (Feature.stylePackages? o.css).getD [] }
  | .commitChecks => Feature.commitEffects

theorem keys_declared_asks (o : Options) (c : Builtin) (part : Section) :
    ((c.asks o).declared part).keys = c.declaredKeys part := by
  cases c <;> cases part <;> rfl

theorem messageToolOnly_asks (o : Options) (c : Builtin) : (c.asks o).MessageToolOnly := by
  cases c with
  | commitChecks =>
    have hcommit : Feature.commitEffects.MessageToolOnly :=
      ⟨⟨by decide, by decide, by decide⟩, .inr rfl⟩
    exact hcommit
  | linting => exact .of_scripts (List.pairwise_singleton _ _) rfl rfl
  | _ => exact .of_scripts .nil rfl rfl

/-- **What a feature asks for is decided by the options**, if the feature can be set up. -/
theorem yields_asks (src : Template.Source) (c : Builtin) (project : Path) (o : Options) :
    Yields (· = c.asks o) ((c.provider src).install project o) := by
  cases c with
  | routing =>
    exact Yields.of_last fun _ => Yields.of_last fun _ => Yields.of_last fun _ => Yields.pure rfl
  | storage => exact Yields.of_last fun _ => Yields.of_last fun _ => Yields.pure rfl
  | linting =>
    exact Yields.of_last fun _ => Yields.ite (Yields.of_last fun _ => Yields.pure rfl)
      (Yields.pure rfl)
  | utilityClasses =>
    exact Yields.of_last fun _ => Yields.of_last fun _ => Yields.of_last fun _ =>
      Yields.of_last fun _ => Yields.pure rfl
  | styling =>
    have hend : Yields (· = styling.asks o) (askForStyle o) := by
      cases h : Feature.stylePackages? o.css with
      | none =>
        rw [askForStyle_none h]
        exact Yields.failWith _
      | some packages =>
        rw [askForStyle_some h]
        exact Yields.pure (by rw [asks, h]; rfl)
    exact Yields.ite (Yields.of_last fun _ => hend) hend
  | commitChecks =>
    exact Yields.of_last fun _ => Yields.of_last fun _ => Yields.of_last fun _ => Yields.pure rfl

/-- A function that tells what the features ask for. -/
theorem exists_askedBy (src : Template.Source) (project : Path) (o : Options) :
    ∃ asked : Provider → Effects, ∀ p ∈ builtinProviders src,
      Yields (· = asked p) (p.install project o) ∧ (asked p).MessageToolOnly := by
  have h (p : Provider) : ∃ e : Effects, p ∈ builtinProviders src →
      Yields (· = e) (p.install project o) ∧ e.MessageToolOnly := by
    by_cases hp : p ∈ builtinProviders src
    · obtain ⟨c, -, rfl⟩ := List.mem_map.1 hp
      exact ⟨c.asks o, fun _ => ⟨c.yields_asks src project o, c.messageToolOnly_asks o⟩⟩
    · exact ⟨{}, fun hmem => absurd hmem hp⟩
  choose asked hasked using h
  exact ⟨asked, hasked⟩

/-! ## Independent files -/

/-- A feature may be set up before another one, unless the styling comes before the utility classes. -/
def MayPrecede (c c' : Builtin) : Prop := ¬ (c = .styling ∧ c' = .utilityClasses)

instance (c c' : Builtin) : Decidable (c.MayPrecede c') := inferInstanceAs (Decidable (¬ _))

/-- No file of a feature stands in the way of another's, except for the build configuration. -/
theorem independent_fileNames : ∀ typescript transformed, ∀ c ∈ all, ∀ c' ∈ all, c ≠ c' →
    (c.patchesBuild && c'.patchesBuild) = false →
      Independent (c.fileNames typescript transformed) (c'.fileNames typescript transformed) := by
  decide

theorem not_mayPrecede_swap (hne : c ≠ c') (hbuild : (c.patchesBuild && c'.patchesBuild) = true)
    (h : c.MayPrecede c') : ¬ c'.MayPrecede c := by
  revert hne hbuild h
  cases c <;> cases c' <;> decide

theorem independent_of_order (hnodup : bs.Nodup) (horder : bs.Pairwise MayPrecede)
    (horder' : bs'.Pairwise MayPrecede) (h : [c, c'].Sublist bs) (h' : [c', c].Sublist bs') :
    Independent (c.targets o) (c'.targets o) := by
  have hne : c ≠ c' := List.pairwise_iff_forall_sublist.1 hnodup h
  cases hbuild : c.patchesBuild && c'.patchesBuild with
  | false => exact independent_fileNames _ _ c (mem_all c) c' (mem_all c') hne hbuild
  | true =>
    have hnot := not_mayPrecede_swap hne hbuild (List.pairwise_iff_forall_sublist.1 horder h)
    exact absurd (List.pairwise_iff_forall_sublist.1 horder' h') hnot

/-- Setting up a feature reads and writes its own files only. -/
theorem confined_setUp (src : Template.Source) (c : Builtin) (project : Path) (o : Options) :
    Confined src project (c.targets o) ((c.provider src).setUp project o) := by
  rw [Provider.setUp]
  split
  · exact (c.confined_install src project o).bind fun _ => .pure _
  · exact .pure _

theorem nodup_of_perm_all (h : bs.Perm all) : bs.Nodup :=
  h.nodup_iff.2 (by decide)

theorem nodup_names (h : bs.Perm all) :
    ((bs.map (·.provider .shipped)).map (·.name)).Nodup :=
  ((h.map _).map _).nodup_iff.2 (by decide)

theorem mem_builtinProviders {src : Template.Source} (hp : p ∈ bs.map (·.provider src)) :
    p ∈ builtinProviders src := by
  obtain ⟨c, -, rfl⟩ := List.mem_map.1 hp
  exact List.mem_map_of_mem (mem_all c)

theorem blind_of_mem {src : Template.Source} (hp : p ∈ bs.map (·.provider src)) :
    Blind (p.install project o) :=
  .of_within (within_builtinProviders src project o p (mem_builtinProviders hp))

/-- The features can be set up in every order that is kept, and then leave the same files. -/
theorem exists_setUps_of_perm {root : List String} (hperm : bs.Perm all) (hperm' : bs'.Perm all)
    (horder : bs.Pairwise MayPrecede) (horder' : bs'.Pairwise MayPrecede)
    (hs : Grounded project root s)
    (hrun : ((bs.map (·.provider .shipped)).forM (Provider.setUp project o)).perform s =
      (.ok (), t)) :
    ∃ t', ((bs'.map (·.provider .shipped)).forM (Provider.setUp project o)).perform s =
      (.ok (), t') ∧ SameNodes t t' := by
  have hmap (cs : List Builtin) : (cs.map (·.provider .shipped)).forM (Provider.setUp project o) =
      cs.forM fun c => (c.provider .shipped).setUp project o := List.forM_map
  rw [hmap] at hrun ⊢
  refine exists_forM_of_perm (fun c => c.confined_setUp .shipped project o)
    (fun _ _ => plain_of_mem_targets) (hperm.trans hperm'.symm) (fun c c' h h' => ?_) hs hrun
  exact independent_of_order (nodup_of_perm_all hperm) horder horder' h h'

end Builtin

open Builtin

/-- How two compositions end that differ in the order of their features. -/
inductive SameEnd : Except Failure MergedEffects × Session →
    Except Failure MergedEffects × Session → Prop
  /-- both fail -/
  | failed {f f' : Failure} {t t' : Session} : SameEnd (.error f, t) (.error f', t')
  /-- both succeed, ask for the same and leave the same files -/
  | composed {e e' : MergedEffects} {t t' : Session} :
      e.Rearranged e' → e.packageConfig.SameMap e'.packageConfig → SameNodes t t' →
      SameEnd (.ok e, t) (.ok e', t')

/-- What one order composes, every other order composes as well. -/
theorem exists_compose_of_perm {root : List String} {bs bs' : List Builtin} (hperm : bs.Perm all)
    (hperm' : bs'.Perm all) (horder : bs.Pairwise MayPrecede) (horder' : bs'.Pairwise MayPrecede)
    (hs : Grounded project root s)
    (h : (compose project o (bs.map (·.provider .shipped))).perform s = (.ok e, t)) :
    ∃ e' t', (compose project o (bs'.map (·.provider .shipped))).perform s = (.ok e', t') ∧
      SameEnd (.ok e, t) (.ok e', t') := by
  obtain ⟨asked, hasked⟩ := exists_askedBy .shipped project o
  have hyields {cs : List Builtin} : ∀ p ∈ cs.map (·.provider .shipped),
      Yields (· = asked p) (p.install project o) :=
    fun p hp => (hasked p (mem_builtinProviders hp)).1
  have htool : ∀ call ∈ askedBy o asked (bs.map (·.provider .shipped)), call.2.MessageToolOnly := by
    intro call hcall
    obtain ⟨p, hp, rfl⟩ := List.mem_map.1 hcall
    exact (hasked p (mem_builtinProviders (List.mem_filter.1 hp).1)).2
  have hregular : ∀ call ∈ askedBy o asked (bs.map (·.provider .shipped)), call.2.Regular :=
    fun call hcall => (htool call hcall).regular
  have hcalls : (askedBy o asked (bs.map (·.provider .shipped))).Perm
      (askedBy o asked (bs'.map (·.provider .shipped))) :=
    (((hperm.trans hperm'.symm).map _).filter _).map _
  -- the files
  obtain ⟨a, u, hsetUps, hu, hall, rfl⟩ :=
    (compose_ok_iff (nodup_names hperm) (fun p hp _ => blind_of_mem hp) hyields).1
      ⟨t, h, SameFiles.refl t⟩
  obtain ⟨u', hsetUps', hnodes⟩ := exists_setUps_of_perm hperm hperm' horder horder' hs hsetUps
  -- the effects
  obtain ⟨a', hall'⟩ := Ledger.exists_recordAll_of_perm hcalls hregular hall
  obtain ⟨t', hcompose', ht'⟩ :=
    (compose_ok_iff (nodup_names hperm') (fun p hp _ => blind_of_mem hp) hyields).2
      ⟨a', u', hsetUps', SameFiles.refl u', hall', rfl⟩
  refine ⟨a'.total, t', hcompose', .composed ?_ ?_ ?_⟩
  · exact (Ledger.rearranged_of_recordAll hcalls hregular hall hall').1
  · apply Ledger.sameMap_config hcalls hregular _ hall hall'
    exact fun call hcall other hother => (htool call hcall).alike (htool other hother)
  · exact (hu.symm.sameNodes.trans hnodes).trans ht'.symm.sameNodes

/-- **The features that come with the program do not depend on each other.** In every order that has
the utility classes before the styling, a composition in a directory succeeds exactly if it does in the
default order, and then leaves the same files and asks for the same, up to order. -/
theorem compose_of_builtins_reordered {bs : List Builtin} (hperm : bs.Perm all)
    (horder : bs.Pairwise MayPrecede) (project : Path) (o : Options) (s : Session)
    (hproject : s.tree.isDirectory s.here project = true) (hclosed : s.tree.Closed) :
    SameEnd ((compose project o (builtinProviders .shipped)).perform s)
      ((compose project o (bs.map (·.provider .shipped))).perform s) := by
  obtain ⟨root, hroot⟩ : ∃ root, LeadsTo project root s := by
    rw [Tree.isDirectory] at hproject
    split at hproject
    · exact ⟨_, ‹_›⟩
    · cases hproject
  have hs : Grounded project root s := ⟨hroot, hclosed⟩
  have hdefault : all.Pairwise MayPrecede := by decide
  rcases h : (compose project o (builtinProviders .shipped)).perform s with ⟨f | e, t⟩
  · rcases h' : (compose project o (bs.map (·.provider .shipped))).perform s with ⟨f' | e', t'⟩
    · rw [h']
      exact .failed
    · obtain ⟨e, u, hcompose, -⟩ :=
        exists_compose_of_perm hperm (.refl all) horder hdefault hs h'
      change (compose project o (builtinProviders .shipped)).perform s = _ at hcompose
      rw [h] at hcompose
      cases hcompose
  · obtain ⟨e', t', hcompose, hend⟩ :=
      exists_compose_of_perm (.refl all) hperm hdefault horder hs h
    rw [hcompose]
    exact hend

/-- What two features do in an empty directory, in either order. -/
theorem compose_of_builtins_reordered_empty :
    ((compose ⟨.here, []⟩ { projectName := "demo", css := .sass, gitHooks := true }
      (builtinProviders .shipped)).perform emptySession).1.isOk = true ∧
    SameEnd
      ((compose ⟨.here, []⟩ { projectName := "demo", css := .sass, gitHooks := true }
        (builtinProviders .shipped)).perform emptySession)
      ((compose ⟨.here, []⟩ { projectName := "demo", css := .sass, gitHooks := true }
        ([Builtin.commitChecks, .utilityClasses, .linting, .storage, .styling, .routing].map
          (·.provider .shipped))).perform emptySession) := by
  refine ⟨by decide +kernel, ?_⟩
  exact compose_of_builtins_reordered (by decide) (by decide) _ _ _ rfl Tree.closed_empty

end Scaffold
