import Scaffold.Proofs.Disk.Below
import Scaffold.Proofs.Template.Emission

/-!
# Confined runs

What the features do with files is all of one kind: they read and write files of their own below the
project's directory, and render stored templates. A run of this kind is `Confined`, and everything
that is said about what features touch, and about what can touch them, follows from that by induction.

* **Within.** A confined run touches only files whose names are listed.
* **Below.** Where the project's path leads to a directory, the places of these files are known
  exactly.
* **Closed.** A confined run keeps a tree closed.
-/

namespace Scaffold

namespace Run

/-- A run that reads and writes files below the project's directory, with names of `L`, and apart from
that only renders templates and reports. -/
inductive Confined (src : Template.Source) (project : Path) (L : List (List String)) :
    {α : Type} → Run α → Prop
  /-- it gives a value -/
  | pure {α : Type} (a : α) : Confined src project L (Pure.pure a : Run α)
  /-- it fails -/
  | failWith {α : Type} (e : Failure) : Confined src project L (Scaffold.failWith e : Run α)
  /-- it reports an event -/
  | report (event : Event) : Confined src project L (Scaffold.report event)
  /-- it renders a stored template -/
  | render {name : String} (hname : (Path.ofString name).anchor = .here) (ctx : Template.Context) :
      Confined src project L (src.render name ctx)
  /-- it reads a file -/
  | require {names : List String} (hmem : names ∈ L) (feature : Option String) :
      Confined src project L (Disk.require (Feature.below project names) feature)
  /-- it writes a file -/
  | write {names : List String} (hmem : names ∈ L) (text : String) :
      Confined src project L (Disk.write (Feature.below project names) text)
  /-- one confined run follows another -/
  | bind {α β : Type} {x : Run α} {f : α → Run β} (hx : Confined src project L x)
      (hf : ∀ a, Confined src project L (f a)) : Confined src project L (x >>= f)

variable {α β : Type} {src : Template.Source} {project : Path} {L L' : List (List String)}
  {x : Run α} {f : α → Run β} {names root : List String} {s : Session}

namespace Confined

theorem orFail {ε : Type} (g : ε → Failure) (r : Except ε α) :
    Confined src project L (Scaffold.orFail g r) := by
  cases r with
  | ok a => exact .pure a
  | error fault => exact .failWith (g fault)

theorem patched (path : Path) (r : Except Text.AnchorFault α) :
    Confined src project L (Feature.patched path r) :=
  orFail _ r

theorem requireJson (hmem : names ∈ L) (feature : Option String) :
    Confined src project L (Disk.requireJson (Feature.below project names) feature) :=
  (require hmem feature).bind fun _ => orFail _ _

theorem writeString (hmem : names ∈ L) (w : Wide) :
    Confined src project L (Disk.writeString (Feature.below project names) w) := by
  rcases Disk.writeString_cases (Feature.below project names) w with
    ⟨text, -, hwrite⟩ | ⟨halves, -, hwrite⟩ <;> rw [hwrite]
  · exact write hmem text
  · exact (write hmem "").bind fun _ => .failWith _

theorem emit {name : String} (hname : (Path.ofString name).anchor = .here) (hmem : names ∈ L)
    (ctx : Template.Context) : Confined src project L (src.emit name (Feature.below project names) ctx) :=
  (render hname ctx).bind fun text => write hmem text

theorem ite {c : Prop} [Decidable c] {y : Run α} (hx : Confined src project L x)
    (hy : Confined src project L y) : Confined src project L (if c then x else y) := by
  split <;> assumption

theorem forM {γ : Type} {g : γ → Run PUnit} (xs : List γ)
    (hg : ∀ c ∈ xs, Confined src project L (g c)) : Confined src project L (xs.forM g) := by
  induction xs with
  | nil => exact .pure _
  | cons c xs ih =>
    exact (hg c List.mem_cons_self).bind fun _ =>
      ih fun c hc => hg c (List.mem_cons_of_mem _ hc)

theorem foldlM {γ : Type} {g : α → γ → Run α} (xs : List γ)
    (hg : ∀ a, ∀ c ∈ xs, Confined src project L (g a c)) (a : α) :
    Confined src project L (xs.foldlM g a) :=
  foldlM_of (Q := fun _ => True) (fun a _ => .pure a)
    (fun _ _ hx hf => hx.bind fun a => hf a trivial) xs (fun a _ => hg a) trivial

theorem mono (h : Confined src project L x) (hL : L ⊆ L') : Confined src project L' x := by
  induction h with
  | pure a => exact .pure a
  | failWith e => exact .failWith e
  | report event => exact .report event
  | render hname ctx => exact .render hname ctx
  | require hmem feature => exact .require (hL hmem) feature
  | write hmem text => exact .write (hL hmem) text
  | bind _ _ ihx ihf => exact ihx.bind ihf

/-- **A confined run touches only files with the listed names.** -/
theorem within (h : Confined src project L x) (hL : ∀ names ∈ L, Plain names) : Within L x := by
  induction h with
  | pure a => exact (Quiet.pure a).within
  | failWith e => exact (Quiet.failWith e).within
  | report event => exact Within.report event
  | render _ ctx => exact (Template.quiet_render src _ ctx).within
  | require _ feature => exact (Disk.quiet_require _ feature).within
  | @write names hmem text =>
    exact Disk.within_write (hL names hmem) (List.suffix_append _ _) hmem text
  | bind _ _ ihx ihf => exact ihx.bind ihf

/-! ## Below the directory -/

/-- **Where the project's path leads to a directory**, a confined run touches only the files with the
listed names below that directory. -/
theorem frameAt (h : Confined src project L x) (hL : ∀ names ∈ L, Plain names)
    (hroot : LeadsTo project root s) : FrameAt (placesOf root L) s (x.perform s).2 := by
  induction h generalizing s with
  | pure a => exact .refl _ s
  | failWith e => exact .refl _ s
  | report event => exact ⟨rfl, .refl _ _⟩
  | @render name _ ctx =>
    rw [(Template.quiet_render src name ctx).still]
    exact .refl _ s
  | @require names _ feature =>
    rw [(Disk.quiet_require (Feature.below project names) feature).still]
    exact .refl _ s
  | write hmem text =>
    exact Disk.frameAt_write hroot (hL _ hmem) (List.mem_map_of_mem hmem) text
  | @bind _ _ x f _ _ ihx ihf =>
    have hmid := ihx hroot
    rw [perform_bind]
    rcases hx : x.perform s with ⟨_ | a, u⟩ <;> rw [hx] at hmid
    · exact hmid
    · exact hmid.trans (ihf a (hroot.of_grows hmid.here hmid.tree))

theorem closed (h : Confined src project L x) :
    Maintains (fun s => s.tree.Closed) x := by
  induction h with
  | pure a => exact (Quiet.pure a).maintains
  | failWith e => exact (Quiet.failWith e).maintains
  | report event => exact fun s hs => hs
  | render _ ctx => exact (Template.quiet_render src _ ctx).maintains
  | require _ feature => exact (Disk.quiet_require _ feature).maintains
  | write _ text => exact Disk.closed_write _ text
  | bind _ _ ihx ihf => exact ihx.bind ihf

end Confined

end Run

end Scaffold
