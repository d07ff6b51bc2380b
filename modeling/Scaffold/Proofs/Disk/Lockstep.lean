import Scaffold.Proofs.Disk.Confined

/-!
# Confined runs side by side

What a confined run does is decided by what stands at the places of its files, and by whether files
stand on the way to them. So the run does the same from two sessions that agree there, however they
differ elsewhere.

* **Lockstep.** From sessions that agree, a run succeeds from both or from none, and each place is
  left alone in both or changed to the same in both.
* **Exchange.** Runs whose files do not stand in each other's way can be exchanged: the directories
  that both need are made by whichever comes first.
* **Lists of runs** can be rearranged as long as runs that do stand in each other's way keep their
  order.

Nothing is said about runs that fail: what they leave depends on the order.
-/

namespace Scaffold

open Run

variable {project : Path} {root names : List String} {L L' : List (List String)}
  {s t u s' t' u' : Session} {q : List String} {α β : Type} {x : Run α} {y : Run β} {a : α} {b : β}

/-! ## Places -/

/-- A file stands at a place. -/
def Tree.HoldsFile (t : Tree) (q : List String) : Prop := ∃ c, t.get? q = some (.file c)

theorem Tree.not_holdsFile_of_directory {t : Tree} (h : t.get? q = some .directory) :
    ¬ t.HoldsFile q := by
  rintro ⟨c, hfile⟩
  rw [h] at hfile
  cases hfile

/-- A place on the way to a file with one of the listed names. -/
def OnWay (root : List String) (L : List (List String)) (q : List String) : Prop :=
  ∃ names ∈ L, ∃ way, way <+: names.dropLast ∧ q = root ++ way

/-- Two sessions cannot be told apart by a run that is confined to the listed names. -/
structure Agree (root : List String) (L : List (List String)) (s s' : Session) : Prop where
  /-- the same stands at the places of the files -/
  file : ∀ q ∈ placesOf root L, s'.tree.get? q = s.tree.get? q
  /-- files stand at the same places on the way -/
  way : ∀ q, OnWay root L q → (s'.tree.HoldsFile q ↔ s.tree.HoldsFile q)

/-- What two runs side by side, from `s` to `t` and from `s'` to `t'`, may do to a place. -/
inductive InStep (root : List String) (L : List (List String)) (s t s' t' : Session)
    (q : List String) : Prop
  /-- both leave it alone -/
  | kept : t.tree.get? q = s.tree.get? q → t'.tree.get? q = s'.tree.get? q → InStep root L s t s' t' q
  /-- it is the place of a file, and the same stands there in the end -/
  | owned : q ∈ placesOf root L → t'.tree.get? q = t.tree.get? q → InStep root L s t s' t' q
  /-- it is on the way to a file, and there is a directory in the end -/
  | paved : OnWay root L q → ¬ s.tree.HoldsFile q → ¬ s'.tree.HoldsFile q →
      t.tree.get? q = some .directory → t'.tree.get? q = some .directory → InStep root L s t s' t' q

theorem Agree.refl (root : List String) (L : List (List String)) (s : Session) : Agree root L s s :=
  ⟨fun _ _ => rfl, fun _ _ => Iff.rfl⟩

theorem Agree.symm (h : Agree root L s s') : Agree root L s' s :=
  ⟨fun q hq => (h.file q hq).symm, fun q hq => (h.way q hq).symm⟩

theorem Agree.of_nodes (h : ∀ q, s'.tree.get? q = s.tree.get? q) : Agree root L s s' :=
  ⟨fun q _ => h q, fun q _ => by rw [Tree.HoldsFile, Tree.HoldsFile, h q]⟩

theorem InStep.trans (h : InStep root L s u s' u' q) (h' : InStep root L u t u' t' q) :
    InStep root L s t s' t' q := by
  cases h with
  | kept hu hu' =>
    cases h' with
    | kept ht ht' => exact .kept (ht.trans hu) (ht'.trans hu')
    | owned hq ht => exact .owned hq ht
    | paved hq hfile hfile' ht ht' =>
      rw [Tree.HoldsFile, hu] at hfile
      rw [Tree.HoldsFile, hu'] at hfile'
      exact .paved hq hfile hfile' ht ht'
  | owned hq hu =>
    cases h' with
    | kept ht ht' => exact .owned hq (ht'.trans (hu.trans ht.symm))
    | owned _ ht => exact .owned hq ht
    | paved _ _ _ ht ht' => exact .owned hq (ht'.trans ht.symm)
  | paved hq hfile hfile' hu hu' =>
    cases h' with
    | kept ht ht' => exact .paved hq hfile hfile' (ht.trans hu) (ht'.trans hu')
    | owned hq' ht => exact .owned hq' ht
    | paved _ _ _ ht ht' => exact .paved hq hfile hfile' ht ht'

/-- Sessions that agreed agree after runs side by side. -/
theorem Agree.next (h : Agree root L s s') (hstep : ∀ q, InStep root L s t s' t' q) :
    Agree root L t t' where
  file q hq := by
    cases hstep q with
    | kept ht ht' => rw [ht, ht', h.file q hq]
    | owned _ ht => exact ht
    | paved _ _ _ ht ht' => rw [ht, ht']
  way q hq := by
    cases hstep q with
    | kept ht ht' =>
      have hway := h.way q hq
      rwa [Tree.HoldsFile, Tree.HoldsFile, ← ht, ← ht'] at hway
    | owned _ ht => rw [Tree.HoldsFile, Tree.HoldsFile, ht]
    | paved _ _ _ ht ht' =>
      exact iff_of_false (Tree.not_holdsFile_of_directory ht') (Tree.not_holdsFile_of_directory ht)

/-! ## Lockstep -/

/-- A session in which the project's path leads to a directory of a closed tree. -/
structure Grounded (project : Path) (root : List String) (s : Session) : Prop where
  /-- the path leads to the directory -/
  leads : LeadsTo project root s
  /-- there is a directory above everything -/
  closed : s.tree.Closed

theorem Run.Confined.grounded {src : Template.Source} (h : Confined src project L x)
    (hL : ∀ names ∈ L, Plain names) : Maintains (Grounded project root) x := by
  intro s hs
  have hframe := h.frameAt hL hs.leads
  exact ⟨hs.leads.of_grows hframe.here hframe.tree, h.closed s hs.closed⟩

theorem Run.Confined.grounded_of_perform {src : Template.Source} {r : Except Failure α}
    (h : Confined src project L x) (hL : ∀ names ∈ L, Plain names) (hs : Grounded project root s)
    (hrun : x.perform s = (r, t)) : Grounded project root t := by
  have ht := h.grounded hL s hs
  rwa [hrun] at ht

namespace Disk

theorem Writable.of_agree (h : Writable project root names s) (hagree : Agree root L s s')
    (hmem : names ∈ L) : Writable project root names s' where
  null := h.null
  clear way hway c hfile := by
    obtain ⟨c', hfile'⟩ := (hagree.way _ ⟨names, hmem, way, hway, rfl⟩).1 ⟨c, hfile⟩
    exact h.clear way hway c' hfile'
  free := by
    rw [hagree.file _ (List.mem_map_of_mem hmem)]
    exact h.free

theorem inStep_of_wrote {c : ByteArray} (hmem : names ∈ L) (h : Writable project root names s)
    (h' : Writable project root names s') (ht : Wrote root names c s t)
    (ht' : Wrote root names c s' t') (q : List String) : InStep root L s t s' t' q := by
  by_cases hfile : q = root ++ names
  · rw [hfile]
    exact .owned (List.mem_map_of_mem hmem) (ht'.file.trans ht.file.symm)
  by_cases hway : ∃ way, way <+: names.dropLast ∧ q = root ++ way
  · obtain ⟨way, hway, rfl⟩ := hway
    exact .paved ⟨names, hmem, way, hway, rfl⟩ (fun ⟨c, hc⟩ => h.clear way hway c hc)
      (fun ⟨c, hc⟩ => h'.clear way hway c hc) (ht.opened way hway) (ht'.opened way hway)
  · have hnot : ∀ way, way <+: names.dropLast → q ≠ root ++ way :=
      fun way hprefix heq => hway ⟨way, hprefix, heq⟩
    exact .kept (ht.kept q hfile hnot) (ht'.kept q hfile hnot)

end Disk

/-- **Lockstep.** A confined run that succeeds from one session does the same from every session that
agrees with it. -/
theorem Run.Confined.lockstep (h : Confined .shipped project L x) (hL : ∀ names ∈ L, Plain names)
    (hs : Grounded project root s) (hs' : Grounded project root s') (hagree : Agree root L s s')
    (hrun : x.perform s = (.ok a, t)) :
    ∃ t', x.perform s' = (.ok a, t') ∧ ∀ q, InStep root L s t s' t' q := by
  induction h generalizing s s' t with
  | pure a =>
    cases hrun
    exact ⟨s', rfl, fun q => .kept rfl rfl⟩
  | failWith e => cases hrun
  | report event =>
    cases hrun
    exact ⟨_, rfl, fun q => .kept rfl rfl⟩
  | @render name hname ctx =>
    have hquiet := Template.quiet_render .shipped name ctx
    obtain rfl := hquiet.eq_of_perform hrun
    have hout := Template.perform_render_shipped hname ctx t s'
    rw [hrun] at hout
    exact ⟨s', Prod.ext hout (hquiet.still s'), fun q => .kept rfl rfl⟩
  | @require names hmem feature =>
    obtain ⟨rfl, c, hc, htext⟩ := Disk.perform_require_ok.1 hrun
    rw [Disk.readFile?_below hs.leads hs.closed (hL names hmem),
      ← hagree.file _ (List.mem_map_of_mem hmem),
      ← Disk.readFile?_below hs'.leads hs'.closed (hL names hmem)] at hc
    exact ⟨s', Disk.perform_require_ok.2 ⟨rfl, c, hc, htext⟩, fun q => .kept rfl rfl⟩
  | @write names hmem text =>
    obtain ⟨hwritable, hwrote⟩ := Disk.wrote_of_write hs.leads (hL names hmem) hrun
    have hwritable' := hwritable.of_agree hagree hmem
    obtain ⟨t', hrun'⟩ := hwritable'.exists_perform_write hs'.leads (hL names hmem) text
    obtain ⟨-, hwrote'⟩ := Disk.wrote_of_write hs'.leads (hL names hmem) hrun'
    exact ⟨t', hrun', Disk.inStep_of_wrote hmem hwritable hwritable' hwrote hwrote'⟩
  | bind hx hf ihx ihf =>
    obtain ⟨a, u, hfirst, hrest⟩ := perform_bind_ok.1 hrun
    obtain ⟨u', hfirst', hstep⟩ := ihx hs hs' hagree hfirst
    obtain ⟨t', hrest', hstep'⟩ := ihf a (hx.grounded_of_perform hL hs hfirst)
      (hx.grounded_of_perform hL hs' hfirst') (hagree.next hstep) hrest
    exact ⟨t', perform_bind_ok.2 ⟨a, u', hfirst', hrest'⟩, fun q => (hstep q).trans (hstep' q)⟩

/-- What a confined run does, beside itself. -/
theorem Run.Confined.inStep (h : Confined .shipped project L x) (hL : ∀ names ∈ L, Plain names)
    (hs : Grounded project root s) (hrun : x.perform s = (.ok a, t)) (q : List String) :
    InStep root L s t s t q := by
  obtain ⟨t', hrun', hstep⟩ := h.lockstep hL hs hs (.refl root L s) hrun
  rw [hrun] at hrun'
  cases hrun'
  exact hstep q

/-! ## The same files -/

theorem Tree.findFrom_congr {t t' : Tree} (h : ∀ q, t'.get? q = t.get? q) (place names : List String) :
    t'.findFrom place names = t.findFrom place names := by
  induction names generalizing place with
  | nil => rw [findFrom, findFrom, h]
  | cons name names ih => simp only [findFrom, h, ih]

/-- Two sessions have the same files and directories, made in whatever order. -/
structure SameNodes (s t : Session) : Prop where
  /-- the same working directory -/
  here : t.here = s.here
  /-- the same at every place -/
  node (q : List String) : t.tree.get? q = s.tree.get? q

theorem SameNodes.refl (s : Session) : SameNodes s s := ⟨rfl, fun _ => rfl⟩

theorem SameNodes.trans (h : SameNodes s t) (h' : SameNodes t u) : SameNodes s u :=
  ⟨h'.here.trans h.here, fun q => (h'.node q).trans (h.node q)⟩

theorem SameNodes.grounded (h : SameNodes s s') (hs : Grounded project root s) :
    Grounded project root s' where
  leads := by
    rw [LeadsTo, h.here, Tree.find, Tree.findFrom_congr h.node]
    exact hs.leads
  closed front last node hget := by
    rw [h.node] at hget ⊢
    exact hs.closed front last node hget

theorem Run.Confined.here_eq {r : Except Failure α} (h : Confined .shipped project L x)
    (hL : ∀ names ∈ L, Plain names) (hs : Grounded project root s) (hrun : x.perform s = (r, t)) :
    t.here = s.here := by
  have hhere := (h.frameAt hL hs.leads).here
  rwa [hrun] at hhere

/-- A confined run cannot tell in which order the files were made. -/
theorem Run.Confined.congr (h : Confined .shipped project L x) (hL : ∀ names ∈ L, Plain names)
    (hs : Grounded project root s) (hsame : SameNodes s s') (hrun : x.perform s = (.ok a, t)) :
    ∃ t', x.perform s' = (.ok a, t') ∧ SameNodes t t' := by
  have hs' := hsame.grounded hs
  obtain ⟨t', hrun', hstep⟩ := h.lockstep hL hs hs' (.of_nodes hsame.node) hrun
  refine ⟨t', hrun', ?_, fun q => ?_⟩
  · rw [h.here_eq hL hs hrun, h.here_eq hL hs' hrun', hsame.here]
  · cases hstep q with
    | kept ht ht' => rw [ht, ht', hsame.node q]
    | owned _ ht => exact ht
    | paved _ _ _ ht ht' => rw [ht, ht']

/-! ## Exchange -/

/-- No file with names of one list stands at the place of a file of the other, or on the way to it. -/
def Independent (L L' : List (List String)) : Prop :=
  ∀ names ∈ L, ∀ other ∈ L', ¬ names <+: other ∧ ¬ other <+: names

instance (L L' : List (List String)) : Decidable (Independent L L') :=
  inferInstanceAs (Decidable (∀ names ∈ L, ∀ other ∈ L', _))

theorem Independent.symm (h : Independent L L') : Independent L' L :=
  fun other hother names hnames => (h names hnames other hother).symm

theorem Independent.not_mem (h : Independent L L') (hq : q ∈ placesOf root L) :
    q ∉ placesOf root L' := by
  intro hq'
  obtain ⟨names, hnames, rfl⟩ := List.mem_map.1 hq
  obtain ⟨other, hother, heq⟩ := List.mem_map.1 hq'
  obtain rfl := List.append_cancel_left heq
  exact (h _ hnames _ hother).1 (List.prefix_refl _)

theorem Independent.not_onWay (h : Independent L L') (hq : q ∈ placesOf root L) :
    ¬ OnWay root L' q := by
  rintro ⟨other, hother, way, hway, heq⟩
  obtain ⟨names, hnames, rfl⟩ := List.mem_map.1 hq
  obtain rfl := List.append_cancel_left heq
  exact (h _ hnames _ hother).1 (hway.trans (List.dropLast_prefix other))

/-- A run leaves everything as it was that has to do with files that are independent of its own. -/
theorem Independent.agree (h : Independent L L') (hstep : ∀ q, InStep root L s t s t q) :
    Agree root L' s t where
  file q hq := by
    cases hstep q with
    | kept ht _ => exact ht
    | owned hmem _ => exact absurd hq (h.not_mem hmem)
    | paved hway _ _ _ _ => exact absurd hway (h.symm.not_onWay hq)
  way q hq := by
    cases hstep q with
    | kept ht _ => rw [Tree.HoldsFile, Tree.HoldsFile, ht]
    | owned hmem _ => exact absurd hq (h.not_onWay hmem)
    | paved _ hfile _ ht _ => exact iff_of_false (Tree.not_holdsFile_of_directory ht) hfile

/-- **Exchange.** Of two runs with independent files each does beside the other what it does alone, so
they can change places. -/
theorem Run.Confined.exchange (hx : Confined .shipped project L x)
    (hy : Confined .shipped project L' y) (hL : ∀ names ∈ L, Plain names)
    (hL' : ∀ names ∈ L', Plain names) (h : Independent L L') (hs : Grounded project root s)
    (hfirst : x.perform s = (.ok a, u)) (hsecond : y.perform u = (.ok b, t)) :
    ∃ u' t', y.perform s = (.ok b, u') ∧ x.perform u' = (.ok a, t') ∧ SameNodes t t' := by
  have hu := hx.grounded_of_perform hL hs hfirst
  -- the second run does not notice that the first one has not been there
  obtain ⟨u', hsecond', hstepy⟩ :=
    hy.lockstep hL' hu hs (h.agree (hx.inStep hL hs hfirst)).symm hsecond
  have hu' := hy.grounded_of_perform hL' hs hsecond'
  -- nor does the first one that the second one has been there
  obtain ⟨t', hfirst', hstepx⟩ :=
    hx.lockstep hL hs hu' (h.symm.agree (hy.inStep hL' hs hsecond')) hfirst
  refine ⟨u', t', hsecond', hfirst', ?_, fun q => ?_⟩
  · rw [hx.here_eq hL hu' hfirst', hy.here_eq hL' hs hsecond', hy.here_eq hL' hu hsecond,
      hx.here_eq hL hs hfirst]
  · cases hstepy q with
    | kept ht hu' =>
      rw [ht]
      cases hstepx q with
      | kept hu ht' => rw [ht', hu', hu]
      | owned _ ht' => exact ht'
      | paved _ _ _ hu ht' => rw [ht', hu]
    | owned hmem hu' =>
      cases hstepx q with
      | kept _ ht' => rw [ht', hu']
      | owned hmem' _ => exact absurd hmem (h.not_mem hmem')
      | paved hway _ _ _ _ => exact absurd hway (h.symm.not_onWay hmem)
    | paved hway _ _ ht hu' =>
      rw [ht]
      cases hstepx q with
      | kept _ ht' => rw [ht', hu']
      | owned hmem' _ => exact absurd hway (h.not_onWay hmem')
      | paved _ _ _ _ ht' => exact ht'

/-! ## Lists of runs -/

section Lists

variable {ι : Type} {f : ι → Run Unit} {files : ι → List (List String)} {is is' front back : List ι}
  {j : ι}

theorem perform_forM_append_ok {xs ys : List ι} :
    ((xs ++ ys).forM f).perform s = (.ok (), t) ↔
      ∃ u, (xs.forM f).perform s = (.ok (), u) ∧ (ys.forM f).perform u = (.ok (), t) := by
  have happend : (xs ++ ys).forM f = xs.forM f >>= fun _ => ys.forM f := List.forM_append
  rw [happend, perform_bind_ok]
  exact ⟨fun ⟨_, h⟩ => h, fun h => ⟨(), h⟩⟩

theorem perform_forM_cons_ok :
    ((j :: is).forM f).perform s = (.ok (), t) ↔
      ∃ u, (f j).perform s = (.ok (), u) ∧ (is.forM f).perform u = (.ok (), t) := by
  have hcons : (j :: is).forM f = f j >>= fun _ => is.forM f := List.forM_cons
  rw [hcons, perform_bind_ok]
  exact ⟨fun ⟨_, h⟩ => h, fun h => ⟨(), h⟩⟩

theorem plain_flatMap (hplain : ∀ i, ∀ file ∈ files i, Plain file) (is : List ι) :
    ∀ file ∈ is.flatMap files, Plain file := by
  intro file hfile
  obtain ⟨i, -, hmem⟩ := List.mem_flatMap.1 hfile
  exact hplain i file hmem

variable (hf : ∀ i, Confined .shipped project (files i) (f i))
  (hplain : ∀ i, ∀ file ∈ files i, Plain file)
include hf

theorem confined_forM (is : List ι) : Confined .shipped project (is.flatMap files) (is.forM f) :=
  .forM is fun i hi => (hf i).mono fun _ hfile => List.mem_flatMap.2 ⟨i, hi, hfile⟩

include hplain

/-- A run can be taken to the front past runs that it is independent of. -/
theorem exists_forM_middle (hs : Grounded project root s)
    (hfront : ∀ i ∈ front, Independent (files i) (files j))
    (hrun : ((front ++ j :: back).forM f).perform s = (.ok (), t)) :
    ∃ t', ((j :: (front ++ back)).forM f).perform s = (.ok (), t') ∧ SameNodes t t' := by
  obtain ⟨u, hbefore, hrest⟩ := perform_forM_append_ok.1 hrun
  obtain ⟨v, hj, hafter⟩ := perform_forM_cons_ok.1 hrest
  have hconf := confined_forM hf front
  have hconf' := confined_forM hf back
  have hindep : Independent (front.flatMap files) (files j) := by
    intro file hfile other hother
    obtain ⟨i, hi, hmem⟩ := List.mem_flatMap.1 hfile
    exact hfront i hi file hmem other hother
  obtain ⟨u', v', hj', hbefore', hv⟩ := hconf.exchange (hf j) (plain_flatMap hplain front)
    (hplain j) hindep hs hbefore hj
  have hground := (hf j).grounded_of_perform (hplain j)
    (hconf.grounded_of_perform (plain_flatMap hplain front) hs hbefore) hj
  obtain ⟨t', hafter', ht⟩ := hconf'.congr (plain_flatMap hplain back) hground hv hafter
  refine ⟨t', perform_forM_cons_ok.2 ⟨u', hj', ?_⟩, ht⟩
  exact perform_forM_append_ok.2 ⟨v', hbefore', hafter'⟩

/-- **Rearrangement.** Confined runs do the same in another order if those that change places are
independent. -/
theorem exists_forM_of_perm (hperm : is.Perm is')
    (horder : ∀ i j, [i, j].Sublist is → [j, i].Sublist is' → Independent (files i) (files j))
    (hs : Grounded project root s) (hrun : (is.forM f).perform s = (.ok (), t)) :
    ∃ t', (is'.forM f).perform s = (.ok (), t') ∧ SameNodes t t' := by
  induction is' generalizing is s t with
  | nil =>
    obtain rfl := hperm.eq_nil
    exact ⟨t, hrun, .refl t⟩
  | cons j rest ih =>
    obtain ⟨front, back, rfl⟩ := List.append_of_mem (hperm.mem_iff.2 (.head _))
    have hrest : (front ++ back).Perm rest :=
      (List.perm_cons j).1 (List.perm_middle.symm.trans hperm)
    have hfront : ∀ i ∈ front, Independent (files i) (files j) := by
      intro i hi
      apply horder
      · exact (List.singleton_sublist.2 hi).append (List.singleton_sublist.2 (.head _))
      · exact (List.singleton_sublist.2 (hrest.subset (List.mem_append_left _ hi))).cons_cons j
    obtain ⟨t₁, hmoved, ht₁⟩ := exists_forM_middle hf hplain hs hfront hrun
    obtain ⟨u, hj, hlater⟩ := perform_forM_cons_ok.1 hmoved
    have hsub : (front ++ back).Sublist (front ++ j :: back) :=
      (List.Sublist.refl front).append (List.sublist_cons_self j back)
    obtain ⟨t', hlater', ht'⟩ := ih hrest
      (fun i k hik hki => horder i k (hik.trans hsub) (hki.trans (List.sublist_cons_self j rest)))
      ((hf j).grounded_of_perform (hplain j) hs hj) hlater
    exact ⟨t', perform_forM_cons_ok.2 ⟨u, hj, hlater'⟩, ht₁.trans ht'⟩

end Lists

end Scaffold
