import Scaffold.Proofs.Composition.Steps
import Scaffold.Proofs.Feature.Again

/-!
# Composing features again

A composition of features that are set up already gives the same ledger and changes no file.

* **One step.** A step that succeeds has set up its feature, or skipped it, and has merged its
  effects. Merging depends on the effects only.
* **The order matters** for the two features that patch one file, and for the routing feature, whose
  first run may lose the route: it comes before all others.
-/

namespace Scaffold

open Run

variable {src : Template.Source} {project : Path} {o : Options} {b : Builtin} {s t u : Session}
  {a a' : Ledger} {e : Effects} {p : Provider} {bs : List Builtin}

/-! ## Steps -/

/-- What merging effects gives does not depend on the session, and no file is changed. -/
theorem stays_recordEffects {feature : String}
    (h : (recordEffects a feature e).perform s = (.ok a', t)) (u : Session) :
    Stays (recordEffects a feature e) a' u := by
  unfold recordEffects at h ⊢
  rcases hrecord : a.record feature e with ⟨b, _ | events⟩
  · rw [hrecord] at h
    cases h
  · rw [hrecord] at h
    obtain ⟨_, v, -, hpure⟩ := perform_bind_ok.1 h
    cases hpure
    exact (Stays.forM Stays.report events u).bind fun w _ => Stays.pure _ w

/-- Merging changes no file, however it ends. -/
theorem sameFiles_recordEffects (a : Ledger) (feature : String) (e : Effects) (s : Session) :
    SameFiles s ((recordEffects a feature e).perform s).2 := by
  unfold recordEffects
  rcases a.record feature e with ⟨b, _ | events⟩
  · exact SameFiles.refl s
  · exact ((Stays.forM Stays.report events s).bind fun t _ => Stays.pure b t).files

/-- A step changes no file if its feature changes none. -/
theorem sameFiles_composeStep (hp : ∀ s, SameFiles s ((p.install project o).perform s).2)
    (a : Ledger) (s : Session) : SameFiles s ((composeStep project o a p).perform s).2 := by
  have hreport (event : Event) : SameFiles s { s with log := s.log ++ [event] } := ⟨rfl, rfl⟩
  unfold composeStep
  split
  · rw [perform_bind_of_ok (perform_report _ _), perform_bind]
    have hinstall := hp { s with log := s.log ++ [.settingUp p.name] }
    rcases hrun : (p.install project o).perform { s with log := s.log ++ [.settingUp p.name] } with
      ⟨_ | e, t⟩ <;> rw [hrun] at hinstall
    · exact (hreport _).trans hinstall
    · exact ((hreport _).trans hinstall).trans (sameFiles_recordEffects a p.name e t)
  · rw [perform_bind_of_ok (perform_report _ _)]
    exact hreport _

/-- What a step has done that succeeds. -/
inductive StepDone (project : Path) (o : Options) (a : Ledger) (p : Provider) (a' : Ledger)
    (s t : Session) : Prop where
  /-- the feature was skipped -/
  | skipped : p.selected o = false → a' = a → SameFiles s t → StepDone project o a p a' s t
  /-- the feature was set up, and its effects were merged -/
  | installed (e : Effects) (u v : Session) : p.selected o = true → SameFiles s u →
      (p.install project o).perform u = (.ok e, v) →
      (∀ w, Stays (recordEffects a p.name e) a' w) → SameFiles v t → StepDone project o a p a' s t

theorem stepDone_of_ok (h : (composeStep project o a p).perform s = (.ok a', t)) :
    StepDone project o a p a' s t := by
  unfold composeStep at h
  split at h
  · rename_i hselected
    obtain ⟨_, u, hreport, hrest⟩ := perform_bind_ok.1 h
    obtain ⟨e, v, hinstall, hrecord⟩ := perform_bind_ok.1 hrest
    cases hreport
    refine .installed e { s with log := s.log ++ [.settingUp p.name] } v hselected ⟨rfl, rfl⟩ hinstall
      (stays_recordEffects hrecord) ?_
    have hfiles := (stays_recordEffects hrecord v).files
    rwa [hrecord] at hfiles
  · rename_i hselected
    obtain ⟨_, u, hreport, hpure⟩ := perform_bind_ok.1 h
    cases hreport
    cases hpure
    exact .skipped (by simpa using hselected) rfl ⟨rfl, rfl⟩

/-- A step whose feature stays gives the ledger that it gave before. -/
theorem StepDone.stays (h : StepDone project o a p a' s t)
    (hstays : ∀ e v w, p.selected o = true → (p.install project o).perform v = (.ok e, w) →
      ∀ u', SameFiles u u' → Stays (p.install project o) e u') :
    Stays (composeStep project o a p) a' u := by
  unfold composeStep
  cases h with
  | skipped hselected ha =>
    rw [if_neg (by simp [hselected]), ha]
    exact (Stays.report _ u).bind fun v _ => Stays.pure a v
  | installed e v w hselected _ hinstall hrecord =>
    rw [if_pos hselected]
    refine (Stays.report _ u).bind fun u₁ hu₁ => ?_
    exact (hstays e v w hselected hinstall u₁ hu₁).bind fun u₂ _ => hrecord u₂

/-! ## Runs -/

/-- The steps of a list of features, one after another. -/
def composeSteps (src : Template.Source) (project : Path) (o : Options) (bs : List Builtin)
    (a : Ledger) : Run Ledger :=
  (bs.map (·.provider src)).foldlM (composeStep project o) a

theorem composeSteps_cons (b : Builtin) (bs : List Builtin) (a : Ledger) :
    composeSteps src project o (b :: bs) a =
      (composeStep project o a (b.provider src) >>= composeSteps src project o bs) := rfl

theorem within_composeSteps (src : Template.Source) (project : Path) (o : Options)
    (bs : List Builtin) (a : Ledger) :
    Within (bs.flatMap (·.targets o)) (composeSteps src project o bs a) := by
  refine Within.foldlM _ (fun a p hp => within_composeStep (fun _ => ?_) a) a
  obtain ⟨b, hb, rfl⟩ := List.mem_map.1 hp
  exact (b.within_install src project o).mono fun names hnames => List.mem_flatMap.2 ⟨b, hb, hnames⟩

/-- A feature is settled, if it is enabled. -/
def SettledIfSelected (src : Template.Source) (project : Path) (o : Options) (b : Builtin)
    (s : Session) : Prop :=
  (b.provider src).selected o = true → b.Settled src project o s

/-- **Features that are settled are composed to the same ledger** without a change to a file. -/
theorem stays_composeSteps
    (h : (composeSteps src project o bs a).perform s = (.ok a', t))
    (hsettled : ∀ b ∈ bs, SettledIfSelected src project o b u) :
    Stays (composeSteps src project o bs a) a' u := by
  induction bs generalizing a s u with
  | nil =>
    cases h
    exact Stays.pure _ u
  | cons b bs ih =>
    rw [composeSteps_cons] at h ⊢
    obtain ⟨a₁, s₁, hstep, hrest⟩ := perform_bind_ok.1 h
    obtain ⟨e, hinstalls⟩ := Builtin.exists_installs src project o b
    have hfirst : Stays (composeStep project o a (b.provider src)) a₁ u := by
      refine (stepDone_of_ok hstep).stays fun e' v w hselected hinstall u' hu' => ?_
      obtain rfl := hinstalls.effects hinstall
      exact hinstalls.lasts.stays (hinstalls.lasts.congr hu' (hsettled b (.head _) hselected))
    refine hfirst.bind fun v hv => ih hrest fun b' hb' hselected => ?_
    obtain ⟨e', hinstalls'⟩ := Builtin.exists_installs src project o b'
    exact hinstalls'.lasts.congr hv (hsettled b' (.tail _ hb') hselected)

/-- A later step leaves what is settled. -/
theorem SettledIfSelected.of_step {b' : Builtin} (horder : b.Precedes b')
    (h : SettledIfSelected src project o b s)
    (hstep : (composeStep project o a (b'.provider src)).perform s = (.ok a', t)) :
    SettledIfSelected src project o b t := by
  intro hselected
  obtain ⟨_, hinstalls⟩ := Builtin.exists_installs src project o b
  cases stepDone_of_ok hstep with
  | skipped _ _ hst => exact hinstalls.lasts.congr hst (h hselected)
  | installed e u v _ hsu hinstall _ hvt =>
    have hu := hinstalls.lasts.congr hsu (h hselected)
    exact hinstalls.lasts.congr hvt (hu.of_later horder hinstall)

theorem SettledIfSelected.of_steps (horder : ∀ b' ∈ bs, b.Precedes b')
    (h : SettledIfSelected src project o b s)
    (hrun : (composeSteps src project o bs a).perform s = (.ok a', t)) :
    SettledIfSelected src project o b t := by
  induction bs generalizing a s with
  | nil =>
    cases hrun
    exact h
  | cons b' bs ih =>
    rw [composeSteps_cons] at hrun
    obtain ⟨a₁, s₁, hstep, hrest⟩ := perform_bind_ok.1 hrun
    exact ih (fun b'' hb'' => horder b'' (.tail _ hb'')) (h.of_step (horder b' (.head _)) hstep) hrest

/-- A step settles its feature, unless it loses the route. -/
theorem settledIfSelected_of_step
    (hkept : (b.provider src).selected o = true → ¬ b.Loses src project o s)
    (hstep : (composeStep project o a (b.provider src)).perform s = (.ok a', t)) :
    SettledIfSelected src project o b t := by
  intro hselected
  obtain ⟨_, hinstalls⟩ := Builtin.exists_installs src project o b
  cases stepDone_of_ok hstep with
  | skipped hskipped =>
    rw [hskipped] at hselected
    cases hselected
  | installed e u v _ hsu hinstall _ hvt =>
    refine hinstalls.lasts.congr hvt (hinstalls.settled hinstall fun hloses => hkept hselected ?_)
    exact hloses.congr hsu.symm

/-- **After a run all its features are settled**, unless the first of them has lost the route. -/
theorem settled_of_composeSteps (horder : bs.Pairwise Builtin.Precedes)
    (hkept : ∀ b ∈ bs, (b.provider src).selected o = true → ¬ b.Loses src project o s)
    (hrun : (composeSteps src project o bs a).perform s = (.ok a', t)) :
    ∀ b ∈ bs, SettledIfSelected src project o b t := by
  induction bs generalizing a s with
  | nil => exact nofun
  | cons b bs ih =>
    rw [composeSteps_cons] at hrun
    obtain ⟨a₁, s₁, hstep, hrest⟩ := perform_bind_ok.1 hrun
    obtain ⟨hfirst, horder⟩ := List.pairwise_cons.1 horder
    have hlater : ∀ b' ∈ bs, (b'.provider src).selected o = true → ¬ b'.Loses src project o s₁ :=
      fun b' hb' _ hloses => (hfirst b' hb').1 hloses.1
    refine List.forall_mem_cons.2 ⟨?_, ih horder hlater hrest⟩
    exact (settledIfSelected_of_step (hkept b (.head _)) hstep).of_steps hfirst hrest

/-! ## Losing the route -/

/-- The routes are written, but the root component has lost its place for them. -/
def RouteGone (src : Template.Source) (project : Path) (o : Options) (s : Session) : Prop :=
  Builtin.RoutesWritten src project o s ∧ Feature.RouteLost (Builtin.appViewAt project) s

theorem RouteGone.congr (h : RouteGone src project o s) (hst : SameFiles s t) :
    RouteGone src project o t :=
  ⟨(Builtin.settles_writeRoutes src project o).toLasts.congr hst h.1, h.2.congr hst⟩

theorem RouteGone.of_frame {L : List (List String)} (h : RouteGone src project o s)
    (hframe : Frame L s t) (hapart : ∀ names ∈ Builtin.traces o .routing, Apart L names) :
    RouteGone src project o t := by
  have hview : ["src", "App.vue"] ∈ Builtin.traces o .routing :=
    Builtin.subset_traces_of_mem (b := .routing) (o := o) (.tail _ (.tail _ (.head _))) (.head _)
  have hroutes := Builtin.settles_writeRoutes src project o
  exact ⟨hroutes.kept (fun names hnames => hapart names (Builtin.routeTraces_subset o hnames)) hframe h.1,
    h.2.of_frame hframe (Builtin.plain_appView o) (Feature.suffix_below project _) (hapart _ hview)⟩

/-- No other feature touches what the routing feature left. -/
theorem apart_routing (hother : ∀ b ∈ bs, b ≠ .routing) :
    ∀ names ∈ Builtin.traces o .routing, Apart (bs.flatMap (·.targets o)) names := by
  intro names hnames other hmem
  obtain ⟨b, hb, htarget⟩ := List.mem_flatMap.1 hmem
  exact Builtin.apart_traces (hother b hb).symm rfl names hnames other htarget

theorem routeGone_of_composeSteps (hother : ∀ b ∈ bs, b ≠ .routing) (hselected : o.router = true)
    (hloses : Builtin.Loses src project o .routing s)
    (hrun : (composeSteps src project o (.routing :: bs) a).perform s = (.ok a', t)) :
    RouteGone src project o t := by
  rw [composeSteps_cons] at hrun
  obtain ⟨a₁, s₁, hstep, hrest⟩ := perform_bind_ok.1 hrun
  have hgone : RouteGone src project o s₁ := by
    cases stepDone_of_ok hstep with
    | skipped hskipped =>
      cases hselected.symm.trans hskipped
    | installed e u v _ hsu hinstall _ hvt =>
      obtain ⟨hroutes, ⟨hkept, -⟩ | ⟨-, hlost⟩⟩ := Builtin.perform_routing_ok hinstall
      · exact absurd (hloses.congr hsu).2 hkept
      · exact RouteGone.congr ⟨hroutes, hlost⟩ hvt
  exact hgone.of_frame ((within_composeSteps src project o bs a₁).frame_of_perform hrest)
    (apart_routing hother)

/-- The composition ends where the routing feature finds no place for the route. -/
theorem RouteGone.perform_composeSteps (h : RouteGone src project o s) (hselected : o.router = true)
    (bs : List Builtin) (a : Ledger) :
    ∃ t, (composeSteps src project o (.routing :: bs) a).perform s =
      (.error (.anchor (Builtin.appViewAt project) ⟨AppView.greetingPattern, 0⟩), t) ∧
        SameFiles s t := by
  have hreported : SameFiles s { s with log := s.log ++ [.settingUp "router"] } := ⟨rfl, rfl⟩
  obtain ⟨hroutes, hlost⟩ := h.congr hreported
  obtain ⟨t, hfails, ht⟩ := Builtin.perform_routing_of_lost hroutes hlost
  refine ⟨t, ?_, hreported.trans ht⟩
  rw [composeSteps_cons]
  refine perform_bind_of_error ?_
  have hstep : composeStep project o a (Builtin.provider src .routing) =
      (report (.settingUp "router") >>= fun _ =>
        (Builtin.provider src .routing).install project o >>= recordEffects a "router") :=
    if_pos hselected
  rw [hstep, perform_bind_of_ok (perform_report _ _)]
  exact perform_bind_of_error hfails

end Scaffold
