import Scaffold.Run
import Scaffold.Proofs.Outcomes
import Scaffold.Proofs.Tree.Growth

/-!
# Reasoning about runs

A run is known by `Run.perform`. This file takes sequences of runs apart and states, once for all
runs, what they can do to the files.

* **Taking apart.** `perform_bind_ok` and `perform_bind_error` say what a sequence did from what its
  parts did.
* **Quiet runs** leave the session alone, and their outcome depends on its files only.
* **Runs within a list of names** touch no file whose place ends otherwise. They keep the working
  directory, and the log has no say in what they do.
* **A run yields** outcomes of a kind if nothing else comes out of it, and fails with failures of a kind
  if it fails with nothing else.
* **A run stays** at a session if it succeeds there without changing a file. This is what "already
  done" means for a run that is started again.
-/

namespace Scaffold

/-- Two sessions with the same files, seen from the same directory. Their logs may differ. -/
structure SameFiles (s t : Session) : Prop where
  /-- the files are the same -/
  tree : t.tree = s.tree
  /-- the working directory is the same -/
  here : t.here = s.here

theorem SameFiles.refl (s : Session) : SameFiles s s := ⟨rfl, rfl⟩

theorem SameFiles.symm {s t : Session} (h : SameFiles s t) : SameFiles t s :=
  ⟨h.tree.symm, h.here.symm⟩

theorem SameFiles.trans {s t u : Session} (h : SameFiles s t) (h' : SameFiles t u) :
    SameFiles s u :=
  ⟨h'.tree.trans h.tree, h'.here.trans h.here⟩

/-- A place that ends in one of the listed sequences of names. -/
def EndsIn (L : List (List String)) (place : List String) : Prop := ∃ names ∈ L, names <:+ place

/-- The second session has the files of the first, except for those at places that `L` lists. -/
structure Frame (L : List (List String)) (s t : Session) : Prop where
  /-- the working directory is the same -/
  here : t.here = s.here
  /-- the tree has grown -/
  tree : s.tree.Grows (EndsIn L) t.tree

variable {L L' : List (List String)} {s t u : Session}

theorem SameFiles.frame (h : SameFiles s t) : Frame L s t :=
  ⟨h.here, h.tree ▸ Tree.Grows.refl _ _⟩

theorem Frame.refl (L : List (List String)) (s : Session) : Frame L s s := (SameFiles.refl s).frame

theorem Frame.trans (h : Frame L s t) (h' : Frame L t u) : Frame L s u :=
  ⟨h'.here.trans h.here, h.tree.trans h'.tree⟩

theorem Frame.mono (h : Frame L s t) (hL : L ⊆ L') : Frame L' s t :=
  ⟨h.here, h.tree.mono fun _ ⟨names, hmem, hq⟩ => ⟨names, hL hmem, hq⟩⟩

namespace Run

variable {α β : Type} {x : Run α} {f : α → Run β} {a : α} {b : β} {e : Failure}

/-! ## Taking runs apart -/

@[simp]
theorem perform_pure (a : α) (s : Session) : (pure a : Run α).perform s = (.ok a, s) := rfl

@[simp]
theorem perform_failWith (e : Failure) (s : Session) :
    (failWith e : Run α).perform s = (.error e, s) := rfl

@[simp]
theorem perform_report (event : Event) (s : Session) :
    (report event).perform s = (.ok (), { s with log := s.log ++ [event] }) := rfl

@[simp]
theorem perform_get (s : Session) : (get : Run Session).perform s = (.ok s, s) := rfl

@[simp]
theorem perform_set (s t : Session) : (set t : Run Unit).perform s = (.ok (), t) := rfl

@[simp]
theorem perform_orFail_ok {ε : Type} (g : ε → Failure) (a : α) (s : Session) :
    (orFail g (.ok a)).perform s = (.ok a, s) := rfl

@[simp]
theorem perform_orFail_error {ε : Type} (g : ε → Failure) (fault : ε) (s : Session) :
    (orFail g (.error fault) : Run α).perform s = (.error (g fault), s) := rfl

/-- A value is taken out exactly where it is. -/
theorem perform_orFail_iff {ε : Type} {g : ε → Failure} {r : Except ε α} :
    (orFail g r).perform s = (.ok a, t) ↔ r = .ok a ∧ t = s := by
  cases r <;> simp [eq_comm]

theorem perform_bind (x : Run α) (f : α → Run β) (s : Session) :
    (x >>= f).perform s =
      match x.perform s with
      | (.ok a, t) => (f a).perform t
      | (.error e, t) => (.error e, t) := by
  change ExceptT.bindCont f (x.perform s).1 (x.perform s).2 = _
  rcases x.perform s with ⟨_ | _, _⟩ <;> rfl

theorem perform_bind_of_ok (h : x.perform s = (.ok a, t)) :
    (x >>= f).perform s = (f a).perform t := by
  rw [perform_bind, h]

theorem perform_bind_of_error (h : x.perform s = (.error e, t)) :
    (x >>= f).perform s = (.error e, t) := by
  rw [perform_bind, h]

theorem exists_perform_ok (h : (x.perform s).1.isOk = true) : ∃ a t, x.perform s = (.ok a, t) := by
  obtain ⟨a, ha⟩ := isOk_eq_true_iff.1 h
  exact ⟨a, _, Prod.ext ha rfl⟩

/-- A sequence succeeds exactly if both parts do. -/
theorem perform_bind_ok :
    (x >>= f).perform s = (.ok b, u) ↔
      ∃ a t, x.perform s = (.ok a, t) ∧ (f a).perform t = (.ok b, u) := by
  rw [perform_bind]
  rcases x.perform s with ⟨_ | a, t⟩ <;> simp

/-- A sequence fails exactly if one of its parts does. -/
theorem perform_bind_error :
    (x >>= f).perform s = (.error e, u) ↔
      x.perform s = (.error e, u) ∨
        ∃ a t, x.perform s = (.ok a, t) ∧ (f a).perform t = (.error e, u) := by
  rw [perform_bind]
  rcases x.perform s with ⟨_ | a, t⟩ <;> simp

/-- **The rule for loops.** What holds of doing nothing, and of two runs in a row, holds of a loop whose
steps keep an invariant. -/
theorem foldlM_of {γ : Type} {Q : α → Prop} {P : Run α → Prop} {g : α → γ → Run α}
    (hpure : ∀ a, Q a → P (pure a))
    (hbind : ∀ (x : Run α) (f : α → Run α), P x → (∀ a, Q a → P (f a)) → P (x >>= f))
    (xs : List γ) (hg : ∀ a, Q a → ∀ c ∈ xs, P (g a c)) (ha : Q a) : P (xs.foldlM g a) := by
  induction xs generalizing a with
  | nil => exact hpure a ha
  | cons c xs ih =>
    rw [List.foldlM_cons]
    refine hbind _ _ (hg a ha c List.mem_cons_self) fun a' ha' => ?_
    exact ih (fun a ha c hc => hg a ha c (List.mem_cons_of_mem _ hc)) ha'

/-! ## Quiet runs -/

/-- A run that leaves the session alone, and whose outcome depends on the files only. -/
structure Quiet (r : Run α) : Prop where
  /-- the session is left alone -/
  still (s : Session) : (r.perform s).2 = s
  /-- the log has no say in the outcome -/
  blind {s t : Session} : SameFiles s t → (r.perform t).1 = (r.perform s).1

theorem Quiet.perform_eq (h : Quiet x) (s : Session) : x.perform s = ((x.perform s).1, s) :=
  Prod.ext rfl (h.still s)

theorem Quiet.eq_of_perform {r : Except Failure α} (h : Quiet x) (hx : x.perform s = (r, t)) :
    t = s := by
  have := h.still s
  rwa [hx] at this

theorem Quiet.pure (a : α) : Quiet (Pure.pure a : Run α) := ⟨fun _ => rfl, fun _ => rfl⟩

theorem Quiet.failWith (e : Failure) : Quiet (Scaffold.failWith e : Run α) :=
  ⟨fun _ => rfl, fun _ => rfl⟩

theorem Quiet.orFail {ε : Type} (g : ε → Failure) (r : Except ε α) :
    Quiet (Scaffold.orFail g r) := by
  cases r <;> exact ⟨fun _ => rfl, fun _ => rfl⟩

theorem Quiet.bind (hx : Quiet x) (hf : ∀ a, Quiet (f a)) : Quiet (x >>= f) where
  still s := by
    rw [perform_bind, hx.perform_eq s]
    cases (x.perform s).1 with
    | ok a => exact (hf a).still s
    | error e => rfl
  blind {s t} hst := by
    rw [perform_bind, perform_bind, hx.perform_eq s, hx.perform_eq t, hx.blind hst]
    cases (x.perform s).1 with
    | ok a => exact (hf a).blind hst
    | error e => rfl

/-! ## Runs within a list of names -/

/-- A run that touches no file but those whose places end in names of `L`, keeps the working
directory, and does not look at the log. -/
structure Within (L : List (List String)) (r : Run α) : Prop where
  /-- what the run leaves alone -/
  frame (s : Session) : Frame L s (r.perform s).2
  /-- the log has no say in what the run does -/
  blind {s t : Session} : SameFiles s t →
    (r.perform t).1 = (r.perform s).1 ∧ SameFiles (r.perform s).2 (r.perform t).2

theorem Within.frame_of_perform {r : Except Failure α} (h : Within L x) (hx : x.perform s = (r, t)) :
    Frame L s t := by
  have := h.frame s
  rwa [hx] at this

theorem Quiet.within (h : Quiet x) : Within L x where
  frame s := by rw [h.still]; exact Frame.refl L s
  blind {s t} hst := ⟨h.blind hst, by rw [h.still, h.still]; exact hst⟩

theorem Within.mono (h : Within L x) (hL : L ⊆ L') : Within L' x :=
  ⟨fun s => (h.frame s).mono hL, h.blind⟩

theorem Within.report (event : Event) : Within L (Scaffold.report event) :=
  ⟨fun _ => SameFiles.frame ⟨rfl, rfl⟩, fun h => ⟨rfl, h.tree, h.here⟩⟩

theorem Within.bind (hx : Within L x) (hf : ∀ a, Within L (f a)) : Within L (x >>= f) where
  frame s := by
    have hframe := hx.frame s
    rw [perform_bind]
    rcases hs : x.perform s with ⟨_ | a, t⟩ <;> rw [hs] at hframe
    · exact hframe
    · exact hframe.trans ((hf a).frame t)
  blind {s t} hst := by
    obtain ⟨hsame, hfiles⟩ := hx.blind hst
    rw [perform_bind, perform_bind]
    rcases hs : x.perform s with ⟨_ | a, s'⟩ <;> rcases ht : x.perform t with ⟨_ | a', t'⟩ <;>
      rw [hs, ht] at hsame hfiles <;> cases hsame
    · exact ⟨rfl, hfiles⟩
    · exact (hf a).blind hfiles

theorem Within.ite {c : Prop} [Decidable c] {y : Run α} (hx : Within L x) (hy : Within L y) :
    Within L (if c then x else y) := by
  split <;> assumption

theorem Within.forM {γ : Type} {g : γ → Run PUnit} (hg : ∀ c, Within L (g c)) (xs : List γ) :
    Within L (xs.forM g) := by
  induction xs with
  | nil => exact (Quiet.pure _).within
  | cons c xs ih => exact (hg c).bind fun _ => ih

theorem Within.foldlM {γ : Type} {g : α → γ → Run α} (xs : List γ)
    (hg : ∀ a, ∀ c ∈ xs, Within L (g a c)) (a : α) : Within L (xs.foldlM g a) :=
  foldlM_of (Q := fun _ => True) (fun a _ => (Quiet.pure a).within)
    (fun _ _ hx hf => hx.bind fun a => hf a trivial) xs (fun a _ => hg a) trivial

/-! ## Properties that persist -/

/-- A property of sessions that persists under the run, however it ends. -/
def Maintains (P : Session → Prop) (r : Run α) : Prop := ∀ s, P s → P (r.perform s).2

variable {P : Session → Prop}

theorem Quiet.maintains (h : Quiet x) : Maintains P x := fun s hs => by rwa [h.still]

theorem Maintains.bind (hx : Maintains P x) (hf : ∀ a, Maintains P (f a)) :
    Maintains P (x >>= f) := by
  intro s hs
  have hmid := hx s hs
  rw [perform_bind]
  rcases h : x.perform s with ⟨_ | a, t⟩ <;> rw [h] at hmid
  · exact hmid
  · exact hf a t hmid

theorem Maintains.foldlM {γ : Type} {g : α → γ → Run α} (xs : List γ)
    (hg : ∀ a, ∀ c ∈ xs, Maintains P (g a c)) (a : α) : Maintains P (xs.foldlM g a) :=
  foldlM_of (Q := fun _ => True) (fun a _ => (Quiet.pure a).maintains)
    (fun _ _ hx hf => hx.bind fun a => hf a trivial) xs (fun a _ => hg a) trivial

/-! ## Outcomes -/

/-- A run whose outcomes have a property. -/
def Yields (Q : α → Prop) (r : Run α) : Prop := ∀ s a, (r.perform s).1 = .ok a → Q a

variable {Q : α → Prop} {R : β → Prop}

theorem Yields.pure (h : Q a) : Yields Q (Pure.pure a) := by
  rintro s _ ⟨⟩
  exact h

theorem Yields.failWith (e : Failure) : Yields Q (Scaffold.failWith e) := fun _ _ h => nomatch h

theorem Yields.of_perform (h : Yields Q x) (hx : x.perform s = (.ok a, t)) : Q a :=
  h s a (by rw [hx])

theorem Yields.bind (hx : Yields Q x) (hf : ∀ a, Q a → Yields R (f a)) : Yields R (x >>= f) := by
  intro s b hb
  obtain ⟨a, t, ha, hfa⟩ := perform_bind_ok.1 (Prod.ext hb rfl : (x >>= f).perform s = (.ok b, _))
  exact (hf a (hx.of_perform ha)).of_perform hfa

/-- The property may come from the last part of a run alone. -/
theorem Yields.of_last (hf : ∀ a, Yields R (f a)) : Yields R (x >>= f) :=
  Yields.bind (Q := fun _ => True) (fun _ _ _ => trivial) fun a _ => hf a

theorem Yields.ite {c : Prop} [Decidable c] {y : Run α} (hx : Yields Q x) (hy : Yields Q y) :
    Yields Q (if c then x else y) := by
  split <;> assumption

theorem Yields.foldlM {γ : Type} {g : α → γ → Run α} (xs : List γ)
    (hg : ∀ a, Q a → ∀ c ∈ xs, Yields Q (g a c)) (ha : Q a) : Yields Q (xs.foldlM g a) :=
  foldlM_of (fun _ => Yields.pure) (fun _ _ => Yields.bind) xs hg ha

/-! ## Failures -/

/-- A run whose failures are of a kind. -/
def FailsWith (K : Failure → Prop) (r : Run α) : Prop := ∀ s e, (r.perform s).1 = .error e → K e

variable {K : Failure → Prop}

theorem FailsWith.pure (a : α) : FailsWith K (Pure.pure a : Run α) := fun _ _ h => nomatch h

theorem FailsWith.failWith (h : K e) : FailsWith K (Scaffold.failWith e : Run α) := by
  rintro s _ ⟨⟩
  exact h

theorem FailsWith.orFail {ε : Type} {g : ε → Failure} {r : Except ε α}
    (h : ∀ fault, r = .error fault → K (g fault)) : FailsWith K (Scaffold.orFail g r) := by
  cases r with
  | ok a => exact .pure a
  | error fault => exact .failWith (h fault rfl)

theorem FailsWith.of_perform (h : FailsWith K x) (hx : x.perform s = (.error e, t)) : K e :=
  h s e (by rw [hx])

theorem FailsWith.bind (hx : FailsWith K x) (hf : ∀ a, FailsWith K (f a)) :
    FailsWith K (x >>= f) := by
  intro s e he
  rcases perform_bind_error.1 (Prod.ext he rfl : (x >>= f).perform s = (.error e, _)) with
    h | ⟨a, t, -, h⟩
  · exact hx.of_perform h
  · exact (hf a).of_perform h

/-! ## Staying -/

/-- The run succeeds at the session without changing a file. -/
structure Stays (r : Run α) (a : α) (s : Session) : Prop where
  /-- the outcome -/
  outcome : (r.perform s).1 = .ok a
  /-- the files are the same afterwards -/
  files : SameFiles s (r.perform s).2

theorem Stays.perform_eq (h : Stays x a s) : ∃ t, x.perform s = (.ok a, t) ∧ SameFiles s t :=
  ⟨_, Prod.ext h.outcome rfl, h.files⟩

theorem Stays.pure (a : α) (s : Session) : Stays (Pure.pure a : Run α) a s :=
  ⟨rfl, SameFiles.refl s⟩

theorem Stays.report (event : Event) (s : Session) : Stays (Scaffold.report event) () s :=
  ⟨rfl, rfl, rfl⟩

theorem Stays.bind (hx : Stays x a s) (hf : ∀ t, SameFiles s t → Stays (f a) b t) :
    Stays (x >>= f) b s := by
  obtain ⟨t, ht, hst⟩ := hx.perform_eq
  obtain ⟨u, hu, htu⟩ := (hf t hst).perform_eq
  have hrun := perform_bind_of_ok (f := f) ht
  rw [hu] at hrun
  exact ⟨by rw [hrun], by rw [hrun]; exact hst.trans htu⟩

theorem Stays.forM {γ : Type} {g : γ → Run PUnit} (hg : ∀ c s, Stays (g c) ⟨⟩ s) (xs : List γ)
    (s : Session) : Stays (xs.forM g) ⟨⟩ s := by
  induction xs generalizing s with
  | nil => exact Stays.pure _ s
  | cons c xs ih => exact (hg c s).bind fun t _ => ih t

theorem Quiet.stays (h : Quiet x) (hx : (x.perform s).1 = .ok a) : Stays x a s :=
  ⟨hx, by rw [h.still]; exact SameFiles.refl s⟩

end Run

end Scaffold
