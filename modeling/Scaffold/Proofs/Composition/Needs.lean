import Scaffold.Proofs.Composition.Independence
import Scaffold.Proofs.Feature.Needs

/-!
# The needs of a composition

A composition of the features that come with the program needs what its features need, each of them
where the one before it left off. All of this can be said of the files as they are at the start:

* **Other files** are as they were when a feature comes to them.
* **The build configuration** may have been patched before. What is needed of the patched text is
  needed of the text that it came from.
* **No two features disagree**, so nothing else can end the composition.
-/

namespace Scaffold

open Run Feature Need

variable {project : Path} {root : List String} {s t u : Session} {o : Options} {n : Need}
  {e : Effects} {a : Ledger}

namespace Builtin

variable {b c : Builtin} {bs : List Builtin}

/-! ## Ahead of a feature -/

/-- What has to be met before a feature is set up, so that a need is met after it. -/
def ahead (o : Options) : Builtin → Need → Need
  | .utilityClasses, .text names accepts encodable =>
    if names = buildConfigNames o.typescript then
      .text names (fun content => (registerUtility content).toOption.any accepts)
        fun content => (registerUtility content).toOption.all encodable
    else .text names accepts encodable
  | _, n => n

/-- What the features need of the files that the first one finds. -/
def needsFrom (o : Options) : List Builtin → List Need
  | [] => []
  | b :: bs =>
    if (b.provider .shipped).selected o then b.needs o ++ (needsFrom o bs).map (b.ahead o)
    else needsFrom o bs

theorem names_ahead (o : Options) (b : Builtin) (n : Need) : (b.ahead o n).names = n.names := by
  cases b with
  | utilityClasses =>
    cases n with
    | text names accepts encodable =>
      rw [ahead]
      split <;> rfl
    | place names => rfl
  | _ => rfl

theorem mem_targets_of_needsFrom (h : n ∈ needsFrom o bs) : ∃ c ∈ bs, n.names ∈ c.targets o := by
  induction bs generalizing n with
  | nil => cases h
  | cons b bs ih =>
    have hlater {m : Need} (hm : m ∈ needsFrom o bs) : ∃ c ∈ b :: bs, m.names ∈ c.targets o := by
      obtain ⟨c, hc, hmem⟩ := ih hm
      exact ⟨c, .tail _ hc, hmem⟩
    rw [needsFrom] at h
    split at h
    · rcases List.mem_append.1 h with hown | hrest
      · refine ⟨b, .head _, ?_⟩
        rw [← map_names_needs]
        exact List.mem_map_of_mem hown
      · obtain ⟨m, hm, rfl⟩ := List.mem_map.1 hrest
        rw [names_ahead]
        exact hlater hm
    · exact hlater h

/-- What is needed of other files is needed before as it is after. -/
theorem ahead_eq (hind : Independent (b.targets o) [n.names]) : b.ahead o n = n := by
  cases b with
  | utilityClasses =>
    cases n with
    | text names accepts encodable =>
      have hne : names ≠ buildConfigNames o.typescript := by
        rintro rfl
        exact (hind _ (.tail _ (.head _)) _ (.head _)).1 (List.prefix_refl _)
      rw [ahead, if_neg hne]
    | place names => rfl
  | _ => rfl

/-- After the utility classes have been set up, the build configuration holds the patched text. -/
theorem exists_registered (hs : Grounded project root s)
    (hrun : ((provider .shipped .utilityClasses).install project o).perform s = (.ok e, t)) :
    ∃ content text, Disk.Reads (below project (buildConfigNames o.typescript)) content s ∧
      registerUtility content = .ok text ∧
      Disk.Reads (below project (buildConfigNames o.typescript)) text t := by
  have hsep := separate_needs o .utilityClasses
  obtain ⟨hown, hlater⟩ := hsep.head
  obtain ⟨hplain, hind⟩ := hlater _ (.head _)
  obtain ⟨_, u, hemit, hrest⟩ := perform_bind_ok.1 hrun
  obtain ⟨content, text, v, hreads, htext, hwrite, hend⟩ :=
    perform_rewriteFile_then_ok (f := registerUtility) hrest
  cases hend
  have hr := not_mem_registerUtility hreads.not_mem htext
  refine ⟨content, text, ?_, htext, (Disk.holds_of_write (parts_below_ne_nil hplain) hwrite).reads hr⟩
  -- the configuration of the engine is another file
  have hname : "unocss/uno.config.js.tpl" ∈ templateNames o.typescript .utilityClasses := .head _
  have hconf : Confined .shipped project [[s!"uno.config.{o.scriptExtension}"]]
      (Template.Source.shipped.emit "unocss/uno.config.js.tpl" (below project _) (context o)) :=
    .emit (relative_templateNames hname).1 (.head _) _
  have hsame := hconf.reflected (List.forall_mem_singleton.2 hown) hs hemit hplain hind
    (n := .text _ (· == content))
  obtain ⟨content', hreads', heq, -⟩ := hsame.met.1 ⟨content, hreads, beq_self_eq_true content, rfl⟩
  rwa [eq_of_beq heq] at hreads'

/-- What is needed of the patched build configuration is needed of the text that it came from. -/
theorem reflected_buildConfig (hs : Grounded project root s) (hnull : project.holdsNull = false)
    (hrun : ((provider .shipped .utilityClasses).install project o).perform s = (.ok e, t))
    (hn : n.names = buildConfigNames o.typescript) :
    Reflected project root (ahead o .utilityClasses n) s n t := by
  obtain ⟨content, text, hreads, htext, hreads'⟩ := exists_registered hs hrun
  have ht := (confined_install .shipped .utilityClasses project o).grounded_of_perform
    (fun _ => plain_of_mem_targets) hs hrun
  have hmem : buildConfigNames o.typescript ∈ targets o .utilityClasses := .tail _ (.head _)
  cases n with
  | text names accepts encodable =>
    obtain rfl : names = buildConfigNames o.typescript := hn
    rw [ahead, if_pos rfl]
    constructor
    · rw [hreads'.met_iff, hreads.met_iff, htext]
      rfl
    · rw [hreads'.barred_iff, hreads.barred_iff, htext]
      rfl
  | place names =>
    obtain rfl : names = buildConfigNames o.typescript := hn
    have hplain := plain_of_mem_targets hmem
    have hnull' := holdsNull_target hnull hmem
    have hfree := hreads.writable hs hplain hnull'
    have hfree' := hreads'.writable ht hplain hnull'
    exact ⟨iff_of_true hfree' hfree, iff_of_false (not_not_intro hfree') (not_not_intro hfree)⟩

/-- **What is needed after a feature was set up** is what is needed ahead of it. -/
theorem reflected_ahead (hs : Grounded project root s) (hnull : project.holdsNull = false)
    (hrun : ((b.provider .shipped).install project o).perform s = (.ok e, t))
    (horder : b.Precedes c) (hn : n.names ∈ c.targets o) :
    Reflected project root (b.ahead o n) s n t := by
  cases hbuild : b.patchesBuild && c.patchesBuild with
  | false =>
    have hall := independent_fileNames o.typescript (o.css == .lightningcss) b (mem_all b) c
      (mem_all c) horder.2.1 hbuild
    have hind : Independent (b.targets o) [n.names] := fun names hnames other hother => by
      obtain rfl := List.mem_singleton.1 hother
      exact hall names hnames _ hn
    rw [ahead_eq hind]
    exact (b.confined_install .shipped project o).reflected (fun _ => plain_of_mem_targets) hs hrun
      (plain_of_mem_targets hn) hind
  | true =>
    obtain ⟨rfl, rfl⟩ := horder.eq_of_patchesBuild hbuild
    refine reflected_buildConfig hs hnull hrun ?_
    rw [targets, fileNames] at hn
    split at hn
    · exact List.mem_singleton.1 hn
    · cases hn

/-! ## Merging the effects -/

theorem disjoint_declaredKeys : ∀ b ∈ all, ∀ c ∈ all, b ≠ c →
    ∀ part ∈ [Section.scripts, .lintStaged, .config],
      ∀ key ∈ b.declaredKeys part, key ∉ c.declaredKeys part := by
  decide

/-- What the enabled features ask for. -/
def calls (o : Options) (bs : List Builtin) : List (String × Effects) :=
  (bs.filter fun b => (b.provider .shipped).selected o).map fun b =>
    ((b.provider .shipped).name, b.asks o)

theorem calls_of_selected (h : (b.provider .shipped).selected o = true) :
    calls o (b :: bs) = ((b.provider .shipped).name, b.asks o) :: calls o bs := by
  rw [calls, List.filter_cons_of_pos (by simp [h])]
  rfl

theorem calls_of_skipped (h : (b.provider .shipped).selected o = false) :
    calls o (b :: bs) = calls o bs := by
  rw [calls, List.filter_cons_of_neg (by simp [h])]
  rfl

/-- What all of them ask for together. -/
def effectsOf (o : Options) : MergedEffects := (Ledger.afterCalls (calls o all)).total

/-- **No two features disagree.** -/
theorem exists_recordAll (o : Options) (hnodup : bs.Nodup) :
    ∃ a, Ledger.recordAll {} (calls o bs) = .ok a := by
  have hregular : ∀ call ∈ calls o bs, call.2.Regular := by
    intro call hcall
    obtain ⟨b, -, rfl⟩ := List.mem_map.1 hcall
    exact (b.messageToolOnly_asks o).regular
  refine (Ledger.recordAll_iff_consistent hregular).2 ?_
  rw [Ledger.Consistent, calls, List.pairwise_map]
  refine (hnodup.filter _).imp fun {b c} hne part k v w hv hw => ?_
  have hkey := Entries.mem_keys_of_get? hv
  have hkey' := Entries.mem_keys_of_get? hw
  rw [keys_declared_asks] at hkey hkey'
  refine absurd hkey' (disjoint_declaredKeys b (mem_all b) c (mem_all c) hne part ?_ k hkey)
  cases part <;> decide

theorem yields_composeStep {c : Ledger} {events : List Event}
    (hselected : (b.provider .shipped).selected o = true)
    (hrecord : a.record (b.provider .shipped).name (b.asks o) = (c, .ok events)) :
    Yields (· = c) (composeStep project o a (b.provider .shipped)) := by
  rw [composeStep, if_pos hselected]
  refine Yields.of_last fun _ => (b.yields_asks .shipped project o).bind fun e he => ?_
  rw [he, recordEffects, hrecord]
  exact Yields.of_last fun _ => Yields.pure rfl

/-- The features are set up with the effects that the options decide. -/
theorem yields_composeSteps {c : Ledger} (hmerge : a.recordAll (calls o bs) = .ok c) :
    Yields (· = c) ((bs.map (·.provider .shipped)).foldlM (composeStep project o) a) := by
  induction bs generalizing a with
  | nil =>
    cases hmerge
    exact Yields.pure rfl
  | cons b bs ih =>
    rw [List.map_cons, List.foldlM_cons]
    cases hselected : (b.provider .shipped).selected o with
    | false =>
      rw [calls_of_skipped hselected] at hmerge
      have hskip : Yields (· = a) (composeStep project o a (b.provider .shipped)) := by
        rw [composeStep, if_neg (by simp [hselected])]
        exact Yields.of_last fun _ => Yields.pure rfl
      exact hskip.bind fun a' ha' => ha' ▸ ih hmerge
    | true =>
      rw [calls_of_selected hselected, Ledger.recordAll] at hmerge
      rcases hrecord : a.record (b.provider .shipped).name (b.asks o) with ⟨a', f | events⟩ <;>
        rw [hrecord] at hmerge
      · cases hmerge
      · exact (yields_composeStep hselected hrecord).bind fun _ heq => heq ▸ ih hmerge

/-- **What a composition asks for is decided by the options**, if it succeeds. -/
theorem yields_compose (project : Path) (o : Options) :
    Yields (· = effectsOf o) (compose project o (builtinProviders .shipped)) := by
  obtain ⟨c, hmerge⟩ := exists_recordAll o (nodup_of_perm_all (.refl all))
  rw [compose, builtinProviders, repeatedNames_of_nodup (nodup_names (.refl all))]
  refine (yields_composeSteps hmerge).bind fun a ha => Yields.of_last fun _ => Yields.pure ?_
  rw [ha, effectsOf, Ledger.afterCalls_of_recordAll hmerge]

/-! ## The composition -/

/-- One feature is set up if its needs are met. -/
theorem governed_composeStep (hs : Grounded project root s) (hnull : project.holdsNull = false)
    (hselected : (b.provider .shipped).selected o = true) {c : Ledger} {events : List Event}
    (hrecord : a.record (b.provider .shipped).name (b.asks o) = (c, .ok events)) :
    Governed project root (b.needs o) (composeStep project o a (b.provider .shipped)) s ∧
      ∀ {c' t}, (composeStep project o a (b.provider .shipped)).perform s = (.ok c', t) → c' = c ∧
        ∃ e u v, SameFiles s u ∧ ((b.provider .shipped).install project o).perform u = (.ok e, v) ∧
          SameFiles v t := by
  have hyields := b.yields_asks .shipped project o
  have hstep : (composeStep project o a (b.provider .shipped)).perform s = _ :=
    perform_composeStep_selected hselected a s
  have hsame : SameFiles s (s.saying [.settingUp (b.provider .shipped).name]) := ⟨rfl, rfl⟩
  have hs' : Grounded project root (s.saying [.settingUp (b.provider .shipped).name]) :=
    ⟨hs.leads, hs.closed⟩
  constructor
  · have hinstall := (governed_install hs' hnull b hselected).bind_ok
      (f := recordEffects a (b.provider .shipped).name) fun e' t hrun => by
        obtain rfl := hyields.of_perform hrun
        exact ⟨c, _, perform_recordEffects_ok hrecord t⟩
    exact hinstall.congr (by rw [hstep]) hsame.symm
  · intro c' t hrun
    rw [hstep] at hrun
    obtain ⟨e', v, hinstall, hmerge⟩ := perform_bind_ok.1 hrun
    obtain rfl := hyields.of_perform hinstall
    rw [perform_recordEffects_ok hrecord] at hmerge
    cases hmerge
    exact ⟨rfl, _, _, v, hsame, hinstall, ⟨rfl, rfl⟩⟩

/-- The features are set up, one after another, as far as their needs are met. -/
theorem governed_composeSteps (horder : bs.Pairwise Precedes) (hnull : project.holdsNull = false)
    (hs : Grounded project root s) (hmerge : ∃ c, a.recordAll (calls o bs) = .ok c) :
    Governed project root (needsFrom o bs)
      ((bs.map (·.provider .shipped)).foldlM (composeStep project o) a) s := by
  induction bs generalizing a s with
  | nil => exact .of_ok (perform_pure _ _)
  | cons b bs ih =>
    obtain ⟨hbefore, horder⟩ := List.pairwise_cons.1 horder
    rw [List.map_cons, List.foldlM_cons, needsFrom]
    cases hselected : (b.provider .shipped).selected o with
    | false =>
      rw [calls_of_skipped hselected] at hmerge
      rw [if_neg (by simp)]
      have hrest := ih horder (s := s.saying [.skipping (b.provider .shipped).name])
        ⟨hs.leads, hs.closed⟩ hmerge
      refine hrest.congr ?_ ⟨rfl, rfl⟩
      rw [perform_bind_of_ok (perform_composeStep_skipped hselected a s)]
    | true =>
      rw [calls_of_selected hselected, Ledger.recordAll] at hmerge
      rw [if_pos rfl]
      rcases hrecord : a.record (b.provider .shipped).name (b.asks o) with ⟨c, f | events⟩
      · rw [hrecord] at hmerge
        obtain ⟨c', h⟩ := hmerge
        cases h
      rw [hrecord] at hmerge
      obtain ⟨hstep, hgoes⟩ := governed_composeStep hs hnull hselected hrecord
      refine hstep.bind_map (fun c' t hrun => ?_) fun c' t hrun n hn => ?_ <;>
        obtain ⟨rfl, e, u, v, hu, hinstall, hv⟩ := hgoes hrun <;>
        have hground := hu.sameNodes.grounded hs
      · have hground' := (b.confined_install .shipped project o).grounded_of_perform
          (fun _ => plain_of_mem_targets) hground hinstall
        exact ih horder (hv.sameNodes.grounded hground') hmerge
      · obtain ⟨c, hc, hmem⟩ := mem_targets_of_needsFrom hn
        have hinstalled := reflected_ahead hground hnull hinstall (hbefore c hc) hmem
        exact ((hu.reflected _).trans hinstalled).trans (hv.reflected n)

/-- **A composition is governed by the needs of its features.** -/
theorem governed_compose (hs : Grounded project root s) (hnull : project.holdsNull = false) :
    Governed project root (needsFrom o all) (compose project o (builtinProviders .shipped)) s := by
  have hmerge := exists_recordAll o (nodup_of_perm_all (.refl all))
  have hsteps := governed_composeSteps pairwise_all hnull hs hmerge
  rw [compose, builtinProviders, repeatedNames_of_nodup (nodup_names (.refl all))]
  exact hsteps.bind_ok fun a t _ => ⟨_, _, rfl⟩

end Builtin

end Scaffold
