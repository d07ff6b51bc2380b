import Scaffold.Proofs.Disk.Texts
import Scaffold.Proofs.Template.Emission

/-!
# Runs that settle

A run settles if it has nothing left to do once it has succeeded: it leaves a condition on the files,
and where the condition holds it stays. The condition is about files with known names, so it
outlasts every run on other files.

* **Sequences** settle if their parts do and no later part touches the files that an earlier one
  depends on.
* **Writing a text and emitting a template** settle.
-/

namespace Scaffold

namespace Run

variable {α β : Type} {L L' N N' : List (List String)} {P Q : Session → Prop} {x : Run Unit}
  {y : Run α} {a b : α} {s t : Session}

/-- The run stays where the condition `P` holds, a condition on the files whose names `N` lists. The
run itself touches files with names of `L` only. -/
structure Lasts (L N : List (List String)) (P : Session → Prop) (y : Run α) (a : α) : Prop where
  /-- what the run touches -/
  within : Within L y
  /-- what is apart from the condition leaves it alone -/
  kept {L' : List (List String)} {s t : Session} :
    (∀ names ∈ N, Apart L' names) → Frame L' s t → P s → P t
  /-- there is nothing left to do -/
  stays {s : Session} : P s → Stays y a s

/-- A run that lasts, and brings about its condition. -/
structure Settles (L N : List (List String)) (P : Session → Prop) (y : Run α) (a : α) : Prop
    extends Lasts L N P y a where
  /-- the condition holds after a success, which has one outcome -/
  reached {s t : Session} {b : α} : y.perform s = (.ok b, t) → b = a ∧ P t

theorem Lasts.congr (h : Lasts L N P y a) (hst : SameFiles s t) (hs : P s) : P t :=
  h.kept (fun names _ => apart_nil names) hst.frame hs

/-! ## Sequences -/

theorem settles_pure (a : α) : Settles L N (fun _ => True) (pure a) a where
  within := (Quiet.pure a).within
  kept _ _ _ := trivial
  stays _ := Stays.pure a _
  reached h := by
    cases h
    exact ⟨rfl, trivial⟩

theorem settles_report (event : Event) : Settles L N (fun _ => True) (report event) () where
  within := Within.report event
  kept _ _ _ := trivial
  stays _ := Stays.report event _
  reached _ := ⟨rfl, trivial⟩

theorem Lasts.bind (hx : Lasts L N P x ()) (hy : Lasts L' N' Q y a) (hN : N ⊆ N') :
    Lasts (L ++ L') N' (fun s => P s ∧ Q s) (x >>= fun _ => y) a where
  within := (hx.within.mono (List.subset_append_left _ _)).bind fun _ =>
    hy.within.mono (List.subset_append_right _ _)
  kept hapart hframe h :=
    ⟨hx.kept (fun names hmem => hapart names (hN hmem)) hframe h.1, hy.kept hapart hframe h.2⟩
  stays h := (hx.stays h.1).bind fun _ ht => hy.stays (hy.congr ht h.2)

/-- A sequence settles if its second part leaves the condition of the first one alone. -/
theorem Settles.bind (hx : Settles L N P x ()) (hy : Settles L' N' Q y a)
    (hapart : ∀ names ∈ N, Apart L' names) (hN : N ⊆ N') :
    Settles (L ++ L') N' (fun s => P s ∧ Q s) (x >>= fun _ => y) a where
  toLasts := hx.toLasts.bind hy.toLasts hN
  reached h := by
    obtain ⟨_, u, hfirst, hsecond⟩ := perform_bind_ok.1 h
    obtain ⟨ha, hq⟩ := hy.reached hsecond
    exact ⟨ha, hx.kept hapart (hy.within.frame_of_perform hsecond) (hx.reached hfirst).2, hq⟩

/-- The condition of a run may depend on more files than are named. -/
theorem Lasts.mono (h : Lasts L N P y a) (hN : N ⊆ N') : Lasts L N' P y a :=
  ⟨h.within, fun hapart => h.kept fun names hmem => hapart names (hN hmem), h.stays⟩

theorem Settles.mono (h : Settles L N P y a) (hN : N ⊆ N') : Settles L N' P y a :=
  ⟨h.toLasts.mono hN, h.reached⟩

theorem Lasts.then_idle (hx : Lasts L N P x ()) (hy : Lasts [] [] (fun _ => True) y a) :
    Lasts L N P (x >>= fun _ => y) a where
  within := hx.within.bind fun _ => hy.within.mono (List.nil_subset L)
  kept := hx.kept
  stays h := (hx.stays h).bind fun _ _ => hy.stays trivial

/-- A run that touches no file may follow. -/
theorem Settles.then_idle (hx : Settles L N P x ()) (hy : Settles [] [] (fun _ => True) y a) :
    Settles L N P (x >>= fun _ => y) a where
  toLasts := hx.toLasts.then_idle hy.toLasts
  reached h := by
    obtain ⟨_, u, hfirst, hlast⟩ := perform_bind_ok.1 h
    have hframe := hy.within.frame_of_perform hlast
    exact ⟨(hy.reached hlast).1,
      hx.kept (fun names _ => apart_nil names) hframe (hx.reached hfirst).2⟩

/-- A run that is left out has nothing to bring about. -/
theorem Settles.ite {c : Bool} {y z : Run α} (hy : c = true → Settles L N P y a)
    (hz : c = false → Settles L N Q z a) :
    Settles L N (fun s => if c then P s else Q s) (if c then y else z) a := by
  cases c with
  | true => exact hy rfl
  | false => exact hz rfl

end Run

open Run

/-! ## Writing -/

variable {L : List (List String)} {names : List String} {path : Path}

theorem settles_write (hplain : Plain names) (hpath : names <:+ path.parts) (text : String) :
    Settles [names] [names] (Disk.Holds path text) (Disk.write path text) () where
  within := Disk.within_write hplain hpath (.head _) text
  kept hN hframe h := h.of_frame hframe hplain hpath (hN names (.head _))
  stays h := h.stays
  reached h := by
    refine ⟨rfl, Disk.holds_of_write (fun hnil => hplain.1 ?_) h⟩
    rw [hnil] at hpath
    exact List.suffix_nil.1 hpath

/-- An emitted template depends on its source and its target. -/
theorem settles_emit {src : Template.Source} {name : String} {ctx : Template.Context}
    (hplain : Plain names) (hpath : names <:+ path.parts) (hname : Plain (Path.ofString name).parts)
    (hapart : Apart [names] (Path.ofString name).parts) :
    Settles [names] [names, (Path.ofString name).parts] (Template.Emitted src name path ctx)
      (src.emit name path ctx) () where
  within := Template.within_emit hplain hpath (.head _)
  kept hN hframe h := h.of_frame hframe hplain hpath (hN _ (.head _)) hname (hN _ (.tail _ (.head _)))
  stays h := h.stays
  reached h := ⟨rfl, Template.emitted_of_emit hplain hpath hname hapart h⟩

end Scaffold
