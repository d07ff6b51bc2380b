import Scaffold.Proofs.Composition.Course
import Scaffold.Proofs.Composition.Steps
import Mathlib.Data.List.Sort
import Mathlib.Data.String.Basic

/-!
# Which features a composition sets up

A composition sets up the enabled features from the first one on, until one of them fails or its
effects are refused. The providers that are not asked for only leave their reports.

* **Setups** are the course of a composition without the reports. Each starts from the files that the
  one before it has left.
* **No other setup has a say.** Whatever the features behind the failure would do, the composition
  does the same.
* **Repeated names** are refused before the first setup.
-/

namespace Scaffold

open Run

/-- A run that does not look at the log. -/
def Run.Blind {α : Type} (r : Run α) : Prop :=
  ∀ s t, SameFiles s t →
    (r.perform t).1 = (r.perform s).1 ∧ SameFiles (r.perform s).2 (r.perform t).2

/-- How features are set up one after another, with the ledger so far: those that are set up, those
that are left, and the outcome. -/
inductive Setups (project : Path) (o : Options) :
    Ledger → Session → List Provider → List Provider → Except Failure Ledger → Session → Prop
  /-- all features are set up -/
  | finished {a : Ledger} {s t : Session} :
      SameFiles s t → Setups project o a s [] [] (.ok a) t
  /-- a feature is set up, and its effects are accepted -/
  | merged {a b : Ledger} {s t u v : Session} {p : Provider} {e : Effects} {events : List Event}
      {invoked rest : List Provider} {r : Except Failure Ledger} :
      SameFiles s u →
      (p.install project o).perform u = (.ok e, v) →
      a.record p.name e = (b, .ok events) →
      Setups project o b v invoked rest r t →
      Setups project o a s (p :: invoked) rest r t
  /-- the last one cannot be set up -/
  | failed {a : Ledger} {s t u : Session} {p : Provider} {rest : List Provider} {f : Failure} :
      SameFiles s u →
      (p.install project o).perform u = (.error f, t) →
      Setups project o a s [p] rest (.error f) t
  /-- the effects of the last one are refused -/
  | refused {a b : Ledger} {s t u : Session} {p : Provider} {e : Effects} {rest : List Provider}
      {f : Failure} :
      SameFiles s u →
      (p.install project o).perform u = (.ok e, t) →
      a.record p.name e = (b, .error f) →
      Setups project o a s [p] rest (.error f) t

/-- Two providers that differ at most in what the setup does, and not even there if the first one is
listed. -/
structure Provider.SameIn (invoked : List Provider) (p p' : Provider) : Prop where
  /-- the same name -/
  name : p'.name = p.name
  /-- enabled by the same options -/
  selected : p'.selected = p.selected
  /-- the same provider, if it is listed -/
  listed : p ∈ invoked → p' = p

variable {project : Path} {o : Options} {s s' t u : Session} {a b : Ledger} {p p' : Provider}
  {providers providers' invoked rest : List Provider} {r : Except Failure Ledger}

theorem sameFiles_saying (s : Session) (events : List Event) : SameFiles s (s.saying events) :=
  ⟨rfl, rfl⟩

theorem SameFiles.saying (h : SameFiles s t) {events events' : List Event} :
    SameFiles (s.saying events) (t.saying events') :=
  ⟨h.tree, h.here⟩

theorem SameFiles.of_saying (h : SameFiles s t) {events : List Event} :
    SameFiles (s.saying events) t :=
  ⟨h.tree, h.here⟩

theorem Run.Blind.perform {α : Type} {x : Run α} {out : Except Failure α} (h : Blind x)
    (hst : SameFiles s t) (hx : x.perform s = (out, u)) :
    ∃ v, x.perform t = (out, v) ∧ SameFiles u v := by
  obtain ⟨hout, hfiles⟩ := h s t hst
  rw [hx] at hout hfiles
  exact ⟨(x.perform t).2, Prod.ext hout rfl, hfiles⟩

theorem Run.Blind.of_within {α : Type} {L : List (List String)} {x : Run α} (h : Within L x) :
    Blind x :=
  fun _ _ hst => h.blind hst

/-! ## The enabled features -/

theorem Provider.SameIn.mono {q : Provider} (h : p.SameIn (q :: invoked) p') :
    p.SameIn invoked p' :=
  ⟨h.name, h.selected, fun hp => h.listed (.tail _ hp)⟩

theorem forall₂_mono {q : Provider}
    (h : List.Forall₂ (Provider.SameIn (q :: invoked)) providers providers') :
    List.Forall₂ (Provider.SameIn invoked) providers providers' :=
  h.imp fun _ _ hsame => hsame.mono

theorem map_name_of_forall₂ (h : List.Forall₂ (Provider.SameIn invoked) providers providers') :
    providers'.map (·.name) = providers.map (·.name) := by
  induction h with
  | nil => rfl
  | cons hfirst _ ih => rw [List.map_cons, List.map_cons, hfirst.name, ih]

/-- Only a failure leaves features that are not set up. -/
theorem Setups.rest_eq_nil (h : Setups project o a s invoked rest (.ok b) t) : rest = [] := by
  generalize hr : Except.ok b = r at h
  induction h with
  | finished => rfl
  | merged _ _ _ _ ih => exact ih hr
  | failed => cases hr
  | refused => cases hr

theorem Setups.of_sameFiles (h : Setups project o a t invoked rest r u) (hst : SameFiles s t) :
    Setups project o a s invoked rest r u := by
  cases h with
  | finished hfiles => exact .finished (hst.trans hfiles)
  | merged hfiles hinstall hrecord hlater =>
    exact .merged (hst.trans hfiles) hinstall hrecord hlater
  | failed hfiles hinstall => exact .failed (hst.trans hfiles) hinstall
  | refused hfiles hinstall hrecord => exact .refused (hst.trans hfiles) hinstall hrecord

/-- **A course sets up a prefix of the enabled features**, and takes no notice of what the others
would do. -/
theorem Course.setups (h : Course project o providers a s r t) :
    ∃ invoked rest, providers.filter (·.selected o) = invoked ++ rest ∧
      Setups project o a s invoked rest r t ∧
      ∀ providers', List.Forall₂ (Provider.SameIn invoked) providers providers' →
        Course project o providers' a s r t := by
  induction h with
  | done a s =>
    refine ⟨[], [], rfl, .finished (SameFiles.refl s), fun providers' hsame => ?_⟩
    cases hsame
    exact .done a s
  | @skipped p _ _ s _ _ hselected _ ih =>
    obtain ⟨invoked, rest, hlist, hsetups, hother⟩ := ih
    refine ⟨invoked, rest, ?_, hsetups.of_sameFiles (sameFiles_saying s _), ?_⟩
    · rw [List.filter_cons_of_neg (by simp [hselected]), hlist]
    · rintro _ (_ | ⟨hfirst, hlater⟩)
      refine .skipped (by rw [hfirst.selected, hselected]) ?_
      rw [hfirst.name]
      exact hother _ hlater
  | @merged p _ _ _ s _ u _ _ _ hselected hinstall hrecord _ ih =>
    obtain ⟨invoked, rest, hlist, hsetups, hother⟩ := ih
    refine ⟨p :: invoked, rest, ?_, ?_, ?_⟩
    · rw [List.filter_cons_of_pos (by simp [hselected]), hlist, List.cons_append]
    · exact .merged (sameFiles_saying s _) hinstall hrecord
        (hsetups.of_sameFiles (sameFiles_saying u _))
    · rintro _ (_ | ⟨hfirst, hlater⟩)
      obtain rfl := hfirst.listed (.head _)
      exact .merged hselected hinstall hrecord (hother _ (forall₂_mono hlater))
  | @failed p later _ s _ _ hselected hinstall =>
    refine ⟨[p], later.filter (·.selected o), ?_, .failed (sameFiles_saying s _) hinstall, ?_⟩
    · rw [List.filter_cons_of_pos (by simp [hselected]), List.singleton_append]
    · rintro _ (_ | ⟨hfirst, hlater⟩)
      obtain rfl := hfirst.listed (.head _)
      exact .failed hselected hinstall
  | @clashed p later _ _ s _ _ _ hselected hinstall hrecord =>
    refine ⟨[p], later.filter (·.selected o), ?_, .refused (sameFiles_saying s _) hinstall hrecord,
      ?_⟩
    · rw [List.filter_cons_of_pos (by simp [hselected]), List.singleton_append]
    · rintro _ (_ | ⟨hfirst, hlater⟩)
      obtain rfl := hfirst.listed (.head _)
      exact .clashed hselected hinstall hrecord

/-- The providers that are not asked for can be left out. -/
theorem Course.filter (h : Course project o providers a s r t)
    (hblind : ∀ p ∈ providers, p.selected o → Blind (p.install project o)) (hs : SameFiles s s') :
    ∃ t', Course project o (providers.filter (·.selected o)) a s' r t' ∧ SameFiles t t' := by
  induction h generalizing s' with
  | done a s => exact ⟨s', .done a s', hs⟩
  | skipped hselected _ ih =>
    rw [List.filter_cons_of_neg (by simp [hselected])]
    exact ih (fun p hp => hblind p (.tail _ hp)) hs.of_saying
  | merged hselected hinstall hrecord _ ih =>
    rw [List.filter_cons_of_pos (by simp [hselected])]
    obtain ⟨v, hinstall', hv⟩ := (hblind _ (.head _) hselected).perform hs.saying hinstall
    obtain ⟨t', hcourse, ht'⟩ := ih (fun p hp => hblind p (.tail _ hp)) hv.saying
    exact ⟨t', .merged hselected hinstall' hrecord hcourse, ht'⟩
  | failed hselected hinstall =>
    rw [List.filter_cons_of_pos (by simp [hselected])]
    obtain ⟨v, hinstall', hv⟩ := (hblind _ (.head _) hselected).perform hs.saying hinstall
    exact ⟨v, .failed hselected hinstall', hv⟩
  | clashed hselected hinstall hrecord =>
    rw [List.filter_cons_of_pos (by simp [hselected])]
    obtain ⟨v, hinstall', hv⟩ := (hblind _ (.head _) hselected).perform hs.saying hinstall
    exact ⟨v, .clashed hselected hinstall' hrecord, hv⟩

/-! ## Compositions -/

theorem nodup_eraseDups : (names : List String) → names.eraseDups.Nodup
  | [] => .nil
  | name :: names => by
    rw [List.eraseDups_cons]
    refine List.nodup_cons.2 ⟨?_, nodup_eraseDups (names.filter fun other => !other == name)⟩
    simp [List.mem_eraseDups]
  termination_by names => names.length
  decreasing_by exact Nat.lt_succ_of_le (List.length_filter_le _ names)

/-- The repeated names are listed in ascending order, each once. -/
theorem repeatedNames_spec (names : List String) :
    (repeatedNames names).Pairwise (· < ·) ∧
      ∀ name, name ∈ repeatedNames names ↔ 1 < names.count name := by
  refine ⟨?_, fun name => ?_⟩
  · have hnodup : (repeatedNames names).Nodup :=
      (List.mergeSort_perm _ _).nodup_iff.2 (nodup_eraseDups _)
    refine ((List.pairwise_mergeSort' (· ≤ ·) _).and hnodup).imp ?_
    rintro a b ⟨hle, hne⟩
    exact lt_of_le_of_ne hle hne
  · rw [repeatedNames, List.mem_mergeSort, List.mem_eraseDups, List.mem_filter, decide_eq_true_iff]
    refine ⟨And.right, fun hcount => ⟨?_, hcount⟩⟩
    exact List.count_pos_iff.1 (Nat.lt_of_succ_lt hcount)

theorem nodup_of_repeatedNames {names : List String} (h : repeatedNames names = []) :
    names.Nodup := by
  refine List.nodup_iff_count_le_one.2 fun name => Nat.le_of_not_lt fun hcount => ?_
  have hmem := ((repeatedNames_spec names).2 name).2 hcount
  rw [h] at hmem
  cases hmem

/-- A composition of features with different names is their course, and a report of its outcome. -/
theorem exists_events_of_course (project : Path) (o : Options) (r : Except Failure Ledger) :
    ∃ events, ∀ {providers s t}, (providers.map (·.name)).Nodup →
      Course project o providers {} s r t →
      (compose project o providers).perform s = (r.map Ledger.total, t.saying events) := by
  cases r with
  | ok a =>
    refine ⟨[.composed a.features a.dependencies a.devDependencies], fun hnames h => ?_⟩
    rw [compose, repeatedNames_of_nodup hnames]
    exact perform_bind_of_ok h.perform_eq
  | error f =>
    refine ⟨[], fun hnames h => ?_⟩
    rw [compose, repeatedNames_of_nodup hnames, saying_nil]
    exact perform_bind_of_error h.perform_eq

/-- Repeated names are refused, and nothing is set up or reported. -/
theorem perform_compose_of_repeated (hnames : ¬ (providers.map (·.name)).Nodup) :
    (compose project o providers).perform s =
      (.error (.repeatedProviders (repeatedNames (providers.map (·.name)))), s) := by
  cases hrepeated : repeatedNames (providers.map (·.name)) with
  | nil => exact absurd (nodup_of_repeatedNames hrepeated) hnames
  | cons name names =>
    rw [compose, hrepeated]
    rfl

/-- How a composition of features with different names goes. -/
theorem exists_setups_of_compose (project : Path) (o : Options)
    (hnames : (providers.map (·.name)).Nodup) (s : Session) :
    ∃ invoked rest r t, providers.filter (·.selected o) = invoked ++ rest ∧
      Setups project o {} s invoked rest r t ∧
      ((compose project o providers).perform s).1 = r.map Ledger.total ∧
      SameFiles t ((compose project o providers).perform s).2 ∧
      ∀ providers', List.Forall₂ (Provider.SameIn invoked) providers providers' →
        (compose project o providers').perform s = (compose project o providers).perform s := by
  have hcourse := course_of_foldlM project o providers {} s
  obtain ⟨events, hrun⟩ := exists_events_of_course project o _
  obtain ⟨invoked, rest, hlist, hsetups, hother⟩ := hcourse.setups
  refine ⟨invoked, rest, _, _, hlist, hsetups, ?_, ?_, fun providers' hsame => ?_⟩
  · rw [hrun hnames hcourse]
  · rw [hrun hnames hcourse]
    exact sameFiles_saying _ events
  · have hnames' : (providers'.map (·.name)).Nodup := by rwa [map_name_of_forall₂ hsame]
    rw [hrun hnames hcourse, hrun hnames' (hother providers' hsame)]

/-- Providers that are not asked for change neither the outcome nor the files. -/
theorem compose_of_same_enabled (hnames : (providers.map (·.name)).Nodup)
    (hnames' : (providers'.map (·.name)).Nodup)
    (henabled : providers'.filter (·.selected o) = providers.filter (·.selected o))
    (hblind : ∀ p ∈ providers, p.selected o → Blind (p.install project o)) (s : Session) :
    ((compose project o providers').perform s).1 = ((compose project o providers).perform s).1 ∧
      SameFiles ((compose project o providers).perform s).2
        ((compose project o providers').perform s).2 := by
  have hblind' : ∀ p ∈ providers', p.selected o → Blind (p.install project o) := by
    intro p hp hselected
    have hmem : p ∈ providers.filter (·.selected o) := henabled ▸ List.mem_filter.2 ⟨hp, hselected⟩
    exact hblind p (List.mem_filter.1 hmem).1 hselected
  have hcourse := course_of_foldlM project o providers {} s
  have hcourse' := course_of_foldlM project o providers' {} s
  obtain ⟨events, hrun⟩ := exists_events_of_course project o _
  obtain ⟨events', hrun'⟩ := exists_events_of_course project o _
  obtain ⟨u, hfiltered, hu⟩ := hcourse.filter hblind (SameFiles.refl s)
  obtain ⟨u', hfiltered', hu'⟩ := hcourse'.filter hblind' (SameFiles.refl s)
  -- both lists have the course of their enabled features
  rw [henabled, course_iff, hfiltered.perform_eq] at hfiltered'
  obtain ⟨hout, rfl⟩ := Prod.mk.inj hfiltered'
  rw [hrun hnames hcourse, hrun' hnames' hcourse', hout]
  exact ⟨rfl, (hu.trans hu'.symm).saying⟩

/-- **A composition sets up a prefix of the enabled features**, each once and where the one before it
left off. It is all of them if the composition succeeds; otherwise it ends with the feature that
failed or whose effects were refused. Repeated names are refused before anything is done, and
providers that are not asked for, like those that are not reached, have no say. -/
theorem compose_sets_up_prefix (project : Path) (o : Options) (providers : List Provider)
    (s : Session) :
    (¬ (providers.map (·.name)).Nodup → ∃ names,
      (compose project o providers).perform s = (.error (.repeatedProviders names), s) ∧
      names.Pairwise (· < ·) ∧
      ∀ name, name ∈ names ↔ 1 < (providers.map (·.name)).count name) ∧
    ((providers.map (·.name)).Nodup →
      (∃ invoked rest r t, providers.filter (·.selected o) = invoked ++ rest ∧
        (invoked.map (·.name)).Nodup ∧ Setups project o {} s invoked rest r t ∧
        ((compose project o providers).perform s).1 = r.map Ledger.total ∧
        SameFiles t ((compose project o providers).perform s).2 ∧
        (r.isOk = true → rest = []) ∧
        ∀ providers', List.Forall₂ (Provider.SameIn invoked) providers providers' →
          (compose project o providers').perform s = (compose project o providers).perform s) ∧
      ((∀ p ∈ providers, p.selected o → Blind (p.install project o)) →
        ∀ providers', (providers'.map (·.name)).Nodup →
          providers'.filter (·.selected o) = providers.filter (·.selected o) →
          ((compose project o providers').perform s).1 =
              ((compose project o providers).perform s).1 ∧
            SameFiles ((compose project o providers).perform s).2
              ((compose project o providers').perform s).2)) := by
  refine ⟨fun hnames => ?_, fun hnames => ⟨?_, fun hblind providers' hnames' henabled => ?_⟩⟩
  · exact ⟨_, perform_compose_of_repeated hnames, repeatedNames_spec _⟩
  · obtain ⟨invoked, rest, r, t, hlist, hsetups, hout, hfiles, hother⟩ :=
      exists_setups_of_compose project o hnames s
    refine ⟨invoked, rest, r, t, hlist, ?_, hsetups, hout, hfiles, fun hok => ?_, hother⟩
    · have hinvoked : invoked.Sublist (providers.filter (·.selected o)) :=
        hlist ▸ List.sublist_append_left invoked rest
      exact hnames.sublist ((hinvoked.trans List.filter_sublist).map _)
    · cases r with
      | ok a => exact hsetups.rest_eq_nil
      | error f => cases hok
  · exact compose_of_same_enabled hnames hnames' henabled hblind s

/-- A feature that writes nothing and asks for nothing. -/
def idleFeature (name : String) (enabled : Bool) : Provider where
  name := name
  selected _ := enabled
  install _ _ := pure {}

/-- A feature that cannot be set up. -/
def failingFeature (name : String) : Provider where
  name := name
  selected _ := true
  install _ _ := failWith (.provider "refused")

/-- Nothing at all. -/
def emptySession : Session := { tree := .empty, here := [], log := [] }

/-- A feature that is not asked for is not missed where the composition ends early. -/
theorem compose_sets_up_prefix_failing :
    ((compose ⟨.here, []⟩ { projectName := "demo" } [idleFeature "a" true, idleFeature "x" false,
        failingFeature "b", idleFeature "c" true]).perform emptySession).1 =
      ((compose ⟨.here, []⟩ { projectName := "demo" } [idleFeature "a" true, failingFeature "b",
        idleFeature "c" true]).perform emptySession).1 := by
  obtain ⟨-, hdistinct⟩ := compose_sets_up_prefix ⟨.here, []⟩ { projectName := "demo" }
    [idleFeature "a" true, failingFeature "b", idleFeature "c" true] emptySession
  obtain ⟨-, hother⟩ := hdistinct (by decide)
  refine (hother (fun p hp _ => ?_) [idleFeature "a" true, idleFeature "x" false,
    failingFeature "b", idleFeature "c" true] (by decide) rfl).1
  simp only [List.mem_cons, List.not_mem_nil, or_false] at hp
  rcases hp with rfl | rfl | rfl
  · exact .of_within (L := []) (Quiet.pure _).within
  · exact .of_within (L := []) (Quiet.failWith _).within
  · exact .of_within (L := []) (Quiet.pure _).within

/-- It is not so that a composition succeeds if all enabled features are set up: the last of them may
have failed. -/
theorem not_ok_of_all_set_up :
    ¬ ∀ (project : Path) (o : Options) (providers invoked rest : List Provider) (s t : Session)
      (r : Except Failure Ledger), (providers.map (·.name)).Nodup →
      providers.filter (·.selected o) = invoked ++ rest → Setups project o {} s invoked rest r t →
      (rest = [] ↔ ((compose project o providers).perform s).1.isOk = true) := by
  intro h
  have hsetups : Setups ⟨.here, []⟩ { projectName := "demo" } {} emptySession
      [idleFeature "a" true, failingFeature "b"] [] (.error (.provider "refused")) _ :=
    .merged (SameFiles.refl _) rfl rfl (.failed (SameFiles.refl _) rfl)
  have hall := h ⟨.here, []⟩ { projectName := "demo" } [idleFeature "a" true, failingFeature "b"]
    [idleFeature "a" true, failingFeature "b"] [] emptySession _ _ (by decide) rfl hsetups
  exact absurd (hall.1 rfl) (by decide +kernel)

end Scaffold
