import Scaffold.Proofs.Composition.Prefix
import Scaffold.Proofs.Effects.Rearranged
import Scaffold.Proofs.Manifest.Sections

/-!
# Features in another order

Features whose effects do not depend on the files may be composed in any order: what is asked for in
the end is the same up to order, and so is whether two of them disagree.

* **The outcome** of such a composition is that of merging the effects, whatever files there are.
* **The manifest** does not even tell the order of the packages, which it lists by name.
-/

namespace Scaffold

open Run

/-- The outcomes of two orders: both end in a disagreement, or both ask for the same, and the packages
in a manifest cannot be told apart. -/
inductive SameUpToOrder : Except Failure MergedEffects → Except Failure MergedEffects → Prop
  /-- features disagree in both orders -/
  | refused (clash clash' : Disagreement) :
      SameUpToOrder (.error (.disagreement clash)) (.error (.disagreement clash'))
  /-- the effects are the same up to order -/
  | merged {e e' : MergedEffects} :
      e.Rearranged e' →
      Json.same (.obj e.packageConfig.textKeys) (.obj e'.packageConfig.textKeys) = true →
      (∀ (version : String) (m : Manifest), m.dependencies.keys.Nodup →
        (m.withEffects version e.toEffects).dependencies =
          (m.withEffects version e'.toEffects).dependencies) →
      (∀ (version : String) (m : Manifest), m.devDependencies.keys.Nodup →
        (m.withEffects version e.toEffects).devDependencies =
          (m.withEffects version e'.toEffects).devDependencies) →
      SameUpToOrder (.ok e) (.ok e')

/-- A feature that can be set up whatever files there are, and always asks for the same. -/
def Provider.Asks (p : Provider) (project : Path) (o : Options) (e : Effects) : Prop :=
  ∀ s, ((p.install project o).perform s).1 = .ok e

variable {project : Path} {o : Options} {s t : Session} {a : Ledger}
  {providers providers' : List Provider} {asked : Provider → Effects} {r : Except Failure Ledger}
  {calls calls' : List (String × Effects)}

theorem Provider.Asks.eq_of_ok {p : Provider} {e e' : Effects} (h : p.Asks project o e)
    (hinstall : (p.install project o).perform s = (.ok e', t)) : e' = e := by
  have hout := h s
  rw [hinstall] at hout
  exact Except.ok.inj hout

theorem Provider.Asks.not_error {p : Provider} {e : Effects} {f : Failure}
    (h : p.Asks project o e) : (p.install project o).perform s ≠ (.error f, t) := by
  intro hinstall
  have hout := h s
  rw [hinstall] at hout
  cases hout

/-- The effects of the enabled features, in the order of their providers. -/
def askedBy (o : Options) (asked : Provider → Effects) (providers : List Provider) :
    List (String × Effects) :=
  (providers.filter (·.selected o)).map fun p => (p.name, asked p)

/-- The outcome of a course is that of merging the effects, if the files have no say in them. -/
theorem Course.outcome (h : Course project o providers a s r t)
    (hasked : ∀ p ∈ providers, p.selected o → p.Asks project o (asked p)) :
    r = a.recordAll (askedBy o asked providers) := by
  induction h with
  | done a s => rfl
  | skipped hselected _ ih =>
    rw [askedBy, List.filter_cons_of_neg (by simp [hselected])]
    exact ih fun p hp => hasked p (.tail _ hp)
  | merged hselected hinstall hrecord _ ih =>
    obtain rfl := (hasked _ (.head _) hselected).eq_of_ok hinstall
    rw [askedBy, List.filter_cons_of_pos (by simp [hselected]), List.map_cons, Ledger.recordAll,
      hrecord]
    exact ih fun p hp => hasked p (.tail _ hp)
  | failed hselected hinstall => exact absurd hinstall (hasked _ (.head _) hselected).not_error
  | clashed hselected hinstall hrecord =>
    obtain rfl := (hasked _ (.head _) hselected).eq_of_ok hinstall
    rw [askedBy, List.filter_cons_of_pos (by simp [hselected]), List.map_cons, Ledger.recordAll,
      hrecord]

theorem outcome_of_compose (hnames : (providers.map (·.name)).Nodup)
    (hasked : ∀ p ∈ providers, p.selected o → p.Asks project o (asked p)) (s : Session) :
    ((compose project o providers).perform s).1 =
      (Ledger.recordAll {} (askedBy o asked providers)).map Ledger.total := by
  have hcourse := course_of_foldlM project o providers {} s
  obtain ⟨events, hrun⟩ := exists_events_of_course project o _
  rw [hrun hnames hcourse, hcourse.outcome hasked]

theorem sameUpToOrder_of_perm (hperm : calls.Perm calls')
    (hcalls : ∀ call ∈ calls, call.2.Regular) :
    SameUpToOrder ((Ledger.recordAll {} calls).map Ledger.total)
      ((Ledger.recordAll {} calls').map Ledger.total) := by
  have hcalls' : ∀ call ∈ calls', call.2.Regular :=
    fun call hcall => hcalls call (hperm.mem_iff.2 hcall)
  cases h : Ledger.recordAll {} calls with
  | ok a =>
    obtain ⟨a', h'⟩ := Ledger.exists_recordAll_of_perm hperm hcalls h
    obtain ⟨hlists, hconfig⟩ := Ledger.rearranged_of_recordAll hperm hcalls h h'
    rw [h']
    refine .merged hlists hconfig (fun version m hm => ?_) fun version m hm => ?_
    · exact Manifest.addPackages_congr hm version fun _ => hlists.dependencies.mem_iff
    · exact Manifest.addPackages_congr hm version fun _ => hlists.devDependencies.mem_iff
  | error failure =>
    obtain ⟨clash, rfl⟩ := Ledger.disagreement_of_recordAll hcalls h
    cases h' : Ledger.recordAll {} calls' with
    | ok a' =>
      obtain ⟨a, ha⟩ := Ledger.exists_recordAll_of_perm hperm.symm hcalls' h'
      rw [ha] at h
      cases h
    | error failure' =>
      obtain ⟨clash', rfl⟩ := Ledger.disagreement_of_recordAll hcalls' h'
      exact .refused clash clash'

/-- **The order of the features only affects order**, if the files have no say in what they ask
for. -/
theorem compose_of_reordered (asked : Provider → Effects) (hperm : providers.Perm providers')
    (hnames : (providers.map (·.name)).Nodup)
    (hregular : ∀ p ∈ providers, p.selected o → (asked p).Regular)
    (hasked : ∀ p ∈ providers, p.selected o → p.Asks project o (asked p)) (s s' : Session) :
    SameUpToOrder ((compose project o providers).perform s).1
      ((compose project o providers').perform s').1 := by
  have hnames' : (providers'.map (·.name)).Nodup := (hperm.map _).nodup_iff.1 hnames
  have hasked' : ∀ p ∈ providers', p.selected o → p.Asks project o (asked p) :=
    fun p hp => hasked p (hperm.mem_iff.2 hp)
  rw [outcome_of_compose hnames hasked s, outcome_of_compose hnames' hasked' s']
  apply sameUpToOrder_of_perm
  · exact (hperm.filter _).map _
  · intro call hcall
    obtain ⟨p, hp, rfl⟩ := List.mem_map.1 hcall
    obtain ⟨hmem, hselected⟩ := List.mem_filter.1 hp
    exact hregular p hmem hselected

/-- A feature that asks for a package and for a setting that counts as true. -/
def privateFeature (name : String) (setting : Json) : Provider where
  name := name
  selected _ := true
  install _ _ := pure { dependencies := [name], packageConfig := [("private", setting)] }

/-- What the features ask for. -/
def askedPrivate (p : Provider) : Effects where
  dependencies := [p.name]
  packageConfig := [("private", if p.name = "pinia" then .int 1 else .bool true)]

/-- Two features that spell a setting differently. -/
theorem compose_of_reordered_private :
    SameUpToOrder
      ((compose ⟨.here, []⟩ { projectName := "demo" } [privateFeature "pinia" (.int 1),
        privateFeature "axios" (.bool true)]).perform emptySession).1
      ((compose ⟨.here, []⟩ { projectName := "demo" } [privateFeature "axios" (.bool true),
        privateFeature "pinia" (.int 1)]).perform emptySession).1 := by
  refine compose_of_reordered askedPrivate (.swap _ _ _) (by decide) ?_ ?_ _ _
  · intro p hp _
    simp only [List.mem_cons, List.not_mem_nil, or_false] at hp
    rcases hp with rfl | rfl
    · exact ⟨⟨.nil, .nil, List.pairwise_singleton _ _⟩, List.forall_mem_singleton.2 ⟨trivial, nofun⟩⟩
    · exact ⟨⟨.nil, .nil, List.pairwise_singleton _ _⟩, List.forall_mem_singleton.2 ⟨trivial, nofun⟩⟩
  · intro p hp _ s
    simp only [List.mem_cons, List.not_mem_nil, or_false] at hp
    rcases hp with rfl | rfl <;> rfl

end Scaffold
