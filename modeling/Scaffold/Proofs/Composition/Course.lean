import Scaffold.Composition
import Scaffold.Proofs.Effects.Joined
import Scaffold.Proofs.Run.Calculus

/-!
# The course of a composition

What happens while the features are set up: each feature that is asked for is set up where the one
before it left off, and its effects are merged. In between nothing is done but reporting.

* **The course is exact.** It tells every session on the way, so there is only one, and it is the
  course that `compose` takes (`course_iff`).
* **The ledger at its end** has merged the results of the features one after another.
-/

namespace Scaffold

open Run

/-- The session with more events in its log. -/
def Session.saying (s : Session) (events : List Event) : Session := { s with log := s.log ++ events }

/-- How features are set up from a session on, with the ledger so far: where it ends and how. -/
inductive Course (project : Path) (o : Options) :
    List Provider → Ledger → Session → Except Failure Ledger → Session → Prop
  /-- all features have had their turn -/
  | done (a : Ledger) (s : Session) : Course project o [] a s (.ok a) s
  /-- a feature that is not asked for -/
  | skipped {p : Provider} {rest : List Provider} {a : Ledger} {s t : Session}
      {r : Except Failure Ledger} :
      p.selected o = false →
      Course project o rest a (s.saying [.skipping p.name]) r t →
      Course project o (p :: rest) a s r t
  /-- a feature that is set up, with effects that are accepted -/
  | merged {p : Provider} {rest : List Provider} {a b : Ledger} {s t u : Session} {e : Effects}
      {events : List Event} {r : Except Failure Ledger} :
      p.selected o = true →
      (p.install project o).perform (s.saying [.settingUp p.name]) = (.ok e, u) →
      a.record p.name e = (b, .ok events) →
      Course project o rest b (u.saying events) r t →
      Course project o (p :: rest) a s r t
  /-- a feature that cannot be set up -/
  | failed {p : Provider} {rest : List Provider} {a : Ledger} {s t : Session} {f : Failure} :
      p.selected o = true →
      (p.install project o).perform (s.saying [.settingUp p.name]) = (.error f, t) →
      Course project o (p :: rest) a s (.error f) t
  /-- a feature whose effects clash with those of an earlier one -/
  | clashed {p : Provider} {rest : List Provider} {a b : Ledger} {s t : Session} {e : Effects}
      {f : Failure} :
      p.selected o = true →
      (p.install project o).perform (s.saying [.settingUp p.name]) = (.ok e, t) →
      a.record p.name e = (b, .error f) →
      Course project o (p :: rest) a s (.error f) t

variable {project : Path} {o : Options} {s t u : Session} {a b : Ledger} {e : Effects}
  {p : Provider} {providers : List Provider} {r : Except Failure Ledger} {f : Failure}
  {events : List Event}

theorem saying_saying (s : Session) (events events' : List Event) :
    (s.saying events).saying events' = s.saying (events ++ events') := by
  simp [Session.saying]

theorem saying_nil (s : Session) : s.saying [] = s := by
  simp [Session.saying]

/-! ## One step -/

theorem perform_forM_report (events : List Event) (s : Session) :
    (events.forM report).perform s = (.ok ⟨⟩, s.saying events) := by
  induction events generalizing s with
  | nil =>
    rw [saying_nil]
    rfl
  | cons event events ih =>
    have hfirst : (report event).perform s = (.ok (), s.saying [event]) := rfl
    refine (perform_bind_of_ok (f := fun _ => events.forM report) hfirst).trans ?_
    rw [ih, saying_saying]
    rfl

theorem perform_recordEffects_ok {feature : String} (h : a.record feature e = (b, .ok events))
    (s : Session) : (recordEffects a feature e).perform s = (.ok b, s.saying events) := by
  unfold recordEffects
  rw [h]
  exact perform_bind_of_ok (perform_forM_report events s)

theorem perform_recordEffects_error {feature : String} (h : a.record feature e = (b, .error f))
    (s : Session) : (recordEffects a feature e).perform s = (.error f, s) := by
  unfold recordEffects
  rw [h]
  rfl

/-- A step sets up the feature and merges its effects, or skips it. -/
theorem perform_composeStep_selected (h : p.selected o = true) (a : Ledger) (s : Session) :
    (composeStep project o a p).perform s =
      (p.install project o >>= recordEffects a p.name).perform (s.saying [.settingUp p.name]) := by
  unfold composeStep
  rw [if_pos h]
  exact perform_bind_of_ok rfl

theorem perform_composeStep_skipped (h : p.selected o = false) (a : Ledger) (s : Session) :
    (composeStep project o a p).perform s = (.ok a, s.saying [.skipping p.name]) := by
  unfold composeStep
  rw [if_neg (by simp [h])]
  rfl

/-! ## The whole course -/

/-- Every composition takes a course. -/
theorem course_of_foldlM (project : Path) (o : Options) (providers : List Provider) (a : Ledger)
    (s : Session) :
    Course project o providers a s
      ((providers.foldlM (composeStep project o) a).perform s).1
      ((providers.foldlM (composeStep project o) a).perform s).2 := by
  induction providers generalizing a s with
  | nil => exact .done a s
  | cons p rest ih =>
    rw [List.foldlM_cons]
    cases hselected : p.selected o with
    | false =>
      rw [perform_bind_of_ok (perform_composeStep_skipped hselected a s)]
      exact .skipped hselected (ih a _)
    | true =>
      rw [perform_bind, perform_composeStep_selected hselected]
      rcases hinstall : (p.install project o).perform (s.saying [.settingUp p.name]) with
        ⟨f | e, u⟩
      · rw [perform_bind_of_error hinstall]
        exact .failed hselected hinstall
      · rw [perform_bind_of_ok hinstall]
        rcases hrecord : a.record p.name e with ⟨b, f | events⟩
        · rw [perform_recordEffects_error hrecord]
          exact .clashed hselected hinstall hrecord
        · rw [perform_recordEffects_ok hrecord]
          exact .merged hselected hinstall hrecord (ih b _)

/-- A composition takes no other course. -/
theorem Course.perform_eq (h : Course project o providers a s r t) :
    (providers.foldlM (composeStep project o) a).perform s = (r, t) := by
  induction h with
  | done a s => rfl
  | skipped hselected _ ih =>
    rw [List.foldlM_cons, perform_bind_of_ok (perform_composeStep_skipped hselected _ _), ih]
  | merged hselected hinstall hrecord _ ih =>
    rw [List.foldlM_cons, perform_bind, perform_composeStep_selected hselected,
      perform_bind_of_ok hinstall, perform_recordEffects_ok hrecord]
    exact ih
  | failed hselected hinstall =>
    rw [List.foldlM_cons, perform_bind, perform_composeStep_selected hselected,
      perform_bind_of_error hinstall]
  | clashed hselected hinstall hrecord =>
    rw [List.foldlM_cons, perform_bind, perform_composeStep_selected hselected,
      perform_bind_of_ok hinstall, perform_recordEffects_error hrecord]

/-- **The course of a composition is what it does.** -/
theorem course_iff : Course project o providers a s r t ↔
    (providers.foldlM (composeStep project o) a).perform s = (r, t) := by
  constructor
  · exact Course.perform_eq
  · intro h
    have hcourse := course_of_foldlM project o providers a s
    rwa [h] at hcourse

/-- **The ledger at the end** has merged the results of features, one after another. -/
theorem Course.recordAll (h : Course project o providers a s (.ok b) t) :
    ∃ results, a.recordAll results = .ok b ∧
      results.map Prod.fst = (providers.filter (·.selected o)).map (·.name) := by
  generalize hr : Except.ok b = r at h
  induction h with
  | done a s =>
    cases hr
    exact ⟨[], rfl, rfl⟩
  | skipped hselected _ ih =>
    obtain ⟨results, hall, hnames⟩ := ih hr
    refine ⟨results, hall, ?_⟩
    rw [List.filter_cons_of_neg (by simp [hselected]), hnames]
  | @merged p _ _ _ _ _ _ e _ _ hselected _ hrecord _ ih =>
    obtain ⟨results, hall, hnames⟩ := ih hr
    refine ⟨(p.name, e) :: results, ?_, ?_⟩
    · rw [Ledger.recordAll, hrecord]
      exact hall
    · rw [List.filter_cons_of_pos (by simp [hselected]), List.map_cons, List.map_cons, hnames]
  | failed => cases hr
  | clashed => cases hr

end Scaffold
