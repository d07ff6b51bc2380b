import Scaffold.Proofs.Manifest.Updated

/-!
# Updating feature by feature

A manifest may be updated for every feature on its own, or once for the merged effects of all.

* **The two policies** differ: among the merged effects the first value of a key stays, in the manifest
  the last one counts. They agree because a ledger accepts a second value only if it is the first one
  again.
* **The first update** cannot be left out: it sorts the packages even if nothing is asked for.
-/

namespace Scaffold.Manifest

variable {d : Entries Json Wide} {m : Manifest} {a b : Ledger} {x y z : Effects}
  {results : List (String × Effects)}

/-! ## Two updates -/

/-- **Two updates are one update for the joined effects.** -/
theorem WellFormed.withEffects_withEffects (h : m.WellFormed) (hx : x.Keyed) (hy : y.Keyed)
    (hjoined : Effects.Joined x y z) (version : String) :
    (m.withEffects version x).withEffects version y = m.withEffects version z := by
  have hscripts := insertAll_insertAll h.scripts (nodup_scripts hx.scripts) (nodup_scripts hy.scripts)
    (hjoined.scripts.map Wide.text)
  have hlintStaged := writeSection_writeSection h.lintStaged (nodup_commands hx.lintStaged)
    (nodup_commands hy.lintStaged) (hjoined.lintStaged.map fun s : String => LintTask.command s)
  have hdependencies := addPackages_addPackages h.dependencies _ _ _ version hjoined.dependencies
  have hdevDependencies :=
    addPackages_addPackages h.devDependencies _ _ _ version hjoined.devDependencies
  have hconfig := writeSection_writeSection (fun settings hs => (h.config settings hs).1)
    hx.packageConfig hy.packageConfig hjoined.packageConfig
  simp only [Manifest.withEffects, hscripts, hlintStaged, hdependencies, hdevDependencies, hconfig]

/-- An update for a feature is one for the ledger that has accepted the feature alone. -/
theorem WellFormed.withEffects_first (h : m.WellFormed) (hy : y.Keyed)
    (hjoined : Effects.Joined {} y z) (version : String) :
    m.withEffects version y = m.withEffects version z := by
  have hscripts : y.scripts = z.scripts :=
    hjoined.scripts.unique (.nil_left _) List.nodup_nil hy.scripts
  have hlintStaged : y.lintStaged = z.lintStaged :=
    hjoined.lintStaged.unique (.nil_left _) List.nodup_nil hy.lintStaged
  have hconfig : y.packageConfig = z.packageConfig :=
    hjoined.packageConfig.unique (.nil_left _) List.nodup_nil hy.packageConfig
  have hdependencies : addPackages m.dependencies y.dependencies version =
      addPackages m.dependencies z.dependencies version :=
    addPackages_congr h.dependencies version fun k => by simp [hjoined.dependencies]
  have hdevDependencies : addPackages m.devDependencies y.devDependencies version =
      addPackages m.devDependencies z.devDependencies version :=
    addPackages_congr h.devDependencies version fun k => by simp [hjoined.devDependencies]
  simp only [Manifest.withEffects, hscripts, hlintStaged, hconfig, hdependencies, hdevDependencies]

/-! ## All features -/

/-- Once the manifest has been updated for a ledger, it keeps up with the ledger. -/
theorem WellFormed.withEffects_recordAll (h : m.WellFormed) (version : String)
    (ha : a.total.Keyed) (hkeyed : ∀ r ∈ results, r.2.Keyed)
    (halike : ∀ r ∈ results, Effects.Alike a.total.toEffects r.2)
    (hpairs : results.Pairwise fun r r' => Effects.Alike r.2 r'.2)
    (hrecord : a.recordAll results = .ok b) :
    results.foldl (fun m r => m.withEffects version r.2) (m.withEffects version a.total.toEffects) =
      m.withEffects version b.total.toEffects := by
  -- the invariant: the manifest so far is the first one, updated for the ledger so far
  induction results generalizing a with
  | nil =>
    cases hrecord
    rfl
  | cons r results ih =>
    obtain ⟨feature, e⟩ := r
    rw [Ledger.recordAll] at hrecord
    split at hrecord
    · rename_i a' events hstep
      have he := hkeyed _ (.head _)
      have hjoined := Ledger.joined_of_record hstep he (halike _ (.head _))
      obtain ⟨hfirst, hrest⟩ := List.pairwise_cons.1 hpairs
      have hkeyed' : ∀ r ∈ results, r.2.Keyed := by
        intro r hr
        exact hkeyed r (.tail _ hr)
      have halike' : ∀ r ∈ results, Effects.Alike a'.total.toEffects r.2 := by
        intro r hr
        exact hjoined.alike (halike r (.tail _ hr)) (hfirst r hr)
      rw [List.foldl_cons, h.withEffects_withEffects ha he hjoined]
      exact ih (hjoined.keyed ha he) hkeyed' halike' hrest hrecord
    · cases hrecord

/-- **One update for the merged effects is as good as one update for each feature.** -/
theorem withEffects_total (hd : Json.SoundEntries d) (hm : ofMembers d = .ok m) (version : String)
    (hsome : results ≠ []) (hkeyed : ∀ r ∈ results, r.2.Keyed)
    (halike : results.Pairwise fun r r' => Effects.Alike r.2 r'.2)
    (hrecord : Ledger.recordAll {} results = .ok a) :
    (m.withEffects version a.total.toEffects).toJson =
      (results.foldl (fun m r => m.withEffects version r.2) m).toJson := by
  have hwf := WellFormed.of_ofMembers hd hm
  cases results with
  | nil => exact absurd rfl hsome
  | cons r results =>
    obtain ⟨feature, e⟩ := r
    rw [Ledger.recordAll] at hrecord
    split at hrecord
    · rename_i b events hstep
      have he := hkeyed _ (.head _)
      have hjoined := Ledger.joined_of_record hstep he (Effects.alike_empty e)
      obtain ⟨hfirst, hrest⟩ := List.pairwise_cons.1 halike
      have hkeyed' : ∀ r ∈ results, r.2.Keyed := by
        intro r hr
        exact hkeyed r (.tail _ hr)
      have halike' : ∀ r ∈ results, Effects.Alike b.total.toEffects r.2 := by
        intro r hr
        exact hjoined.alike (Effects.alike_empty r.2) (hfirst r hr)
      have hall := hwf.withEffects_recordAll version (hjoined.keyed Effects.keyed_empty he) hkeyed'
        halike' hrest hrecord
      rw [List.foldl_cons, hwf.withEffects_first he hjoined, hall]
    · cases hrecord

/-- Results of three features that repeat a package, a script and a setting. -/
def overlappingResults : List (String × Effects) :=
  [("eslint", mixedEffects),
   ("unocss", {
      devDependencies := ["unocss", "@unocss/reset"]
      scripts := [("build", "vite build"), ("lint", "eslint .")] }),
   ("git-hooks", {
      devDependencies := ["husky"]
      packageConfig := [("cz", .null), ("commitizen", .obj [("path", .str "cz-git")])] })]

theorem keyed_overlapping : ∀ r ∈ overlappingResults, r.2.Keyed := by
  intro r hr
  simp only [overlappingResults, List.mem_cons, List.not_mem_nil, or_false] at hr
  rcases hr with rfl | rfl | rfl <;> exact ⟨by decide, by decide, by decide⟩

theorem alike_overlapping : overlappingResults.Pairwise fun r r' => Effects.Alike r.2 r'.2 := by
  -- all settings are those of the last feature
  have hvalue (r) (hr : r ∈ overlappingResults) (k : String) (v : Json)
      (hv : r.2.packageConfig.get? k = some v) : Entries.get? k
        [("cz", Json.null), ("commitizen", .obj [("path", .str "cz-git")])] = some v := by
    simp only [overlappingResults, List.mem_cons, List.not_mem_nil, or_false] at hr
    rcases hr with rfl | rfl | rfl
    · simp only [mixedEffects, Entries.get?] at hv ⊢
      split at hv
      · rename_i hk
        subst hk
        exact hv
      · cases hv
    · cases hv
    · exact hv
  refine List.pairwise_of_forall_mem_list fun r hr r' hr' k v v' hv hv' => ?_
  exact Option.some.inj ((hvalue r hr k v hv).symm.trans (hvalue r' hr' k v' hv'))

theorem withEffects_total_overlapping : ∃ m a, ofMembers mixedDocument = .ok m ∧
    Ledger.recordAll {} overlappingResults = .ok a ∧
    (m.withEffects latest a.total.toEffects).toJson =
      (overlappingResults.foldl (fun m r => m.withEffects latest r.2) m).toJson := by
  obtain ⟨m, hm⟩ : ∃ m, ofMembers mixedDocument = .ok m := ⟨_, rfl⟩
  obtain ⟨a, ha⟩ : ∃ a, Ledger.recordAll {} overlappingResults = .ok a := ⟨_, rfl⟩
  exact ⟨m, a, hm, ha, withEffects_total sound_mixedDocument hm latest (List.cons_ne_nil _ _)
    keyed_overlapping alike_overlapping ha⟩

end Scaffold.Manifest
