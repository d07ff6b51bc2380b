import Scaffold.Proofs.AppView.Greeting
import Scaffold.Proofs.AppView.Removal
import Scaffold.Proofs.Feature.Again

/-!
# The greeting in the root component

What the patch of the root component does to the file, for two readings of the greeting element and of
its import.

* **As the patch reads them**, the greeting is a stretch of a line, and its import a line that begins in
  some way.
* **As they are meant**, the greeting is one element, and its import imports this name. The patch does
  the same where the only stretch is the only element and the lines agree.
* **Where they differ**, something else gives way to the route, or another import is removed.
-/

namespace Scaffold

open Run AppView

variable {path : Path} {content : String} {s : Session}

namespace Feature

/-- The patch puts the route in the place of the only part of a kind and removes the first line of a
kind. It refuses the component, which stays as it is, if there is no only part. -/
structure PatchReplaces (kind : List Char → List Char → List Char → Prop) (row : List Char → Prop)
    (path : Path) (content : String) (s : Session) : Prop where
  /-- the file is read as the new text afterwards -/
  replaced : ∀ before part after, Only kind content.toList before part after →
    ∃ text t, (patchAppView path).perform s = (.ok (), t) ∧ Disk.Reads path text t ∧
      Removed row ((before ++ routeElement.toList) ++ after) text.toList
  /-- the failure names the file and the number of parts found -/
  refused : (¬ ∃ before part after, Only kind content.toList before part after) →
    ∃ n, n ≠ 1 ∧ (patchAppView path).perform s = (.error (.anchor path ⟨greetingPattern, n⟩), s)

/-- The only stretch is the only greeting element, or there is neither. -/
def SameGreeting (content : String) : Prop :=
  ∀ before part after, Only IsStretch content.toList before part after ↔
    Only IsElement content.toList before part after

/-- Where the route is in the place of the only stretch, the first line that the patch removes is the
first one that imports the name of the greeting, or there is neither. -/
def SameImport (content : String) : Prop :=
  ∀ before part after, Only IsStretch content.toList before part after → ∀ above row below,
    FirstRow IsGreetingImport ((before ++ routeElement.toList) ++ after) above row below ↔
      FirstRow ImportsName ((before ++ routeElement.toList) ++ after) above row below

/-- A component that is patched is read as the new text. -/
theorem reads_of_perform_patchAppView {text : String} (hparts : path.parts ≠ [])
    (hnull : path.holdsNull = false) (hreads : Disk.Reads path content s)
    (hnew : showsRoute content = false) (hshow : showRoute content = .ok text) :
    ∃ t, (patchAppView path).perform s = (.ok (), t) ∧ Disk.Reads path text t := by
  obtain ⟨t, hpatch⟩ := exists_perform_patchAppView hparts hnull hreads hnew hshow
  refine ⟨t, hpatch, ?_⟩
  have hrequire : (Disk.require path (some "router")).perform s = (.ok content, s) :=
    Disk.perform_require_iff.2 ⟨rfl, hreads⟩
  rw [patchAppView, perform_bind_of_ok hrequire, if_neg (by simp [hnew]), hshow] at hpatch
  obtain ⟨_, u, hpatched, hwrite⟩ := perform_bind_ok.1 hpatch
  cases hpatched
  obtain ⟨_, v, hput, hreport⟩ := perform_bind_ok.1 hwrite
  cases hreport
  have hr := not_mem_showRoute hshow (by decide) hreads.not_mem
  obtain ⟨c, hc⟩ := (Disk.holds_of_write hparts hput).reads hr
  exact ⟨c, hc⟩

/-- **The patch as it reads the component.** -/
theorem patchReplaces_stretch (hparts : path.parts ≠ []) (hnull : path.holdsNull = false)
    (hreads : Disk.Reads path content s) (hnew : showsRoute content = false) :
    PatchReplaces IsStretch IsGreetingImport path content s where
  replaced before part after honly := by
    have hshow : showRoute content =
        .ok (String.ofList (dropGreetingImport true ((before ++ routeElement.toList) ++ after))) := by
      rw [showRoute, anchor_greeting?_iff.2 honly]
      rfl
    obtain ⟨t, hpatch, htext⟩ := reads_of_perform_patchAppView hparts hnull hreads hnew hshow
    refine ⟨_, t, hpatch, htext, ?_⟩
    rw [String.toList_ofList]
    exact removed_dropGreetingImport _
  refused hnone := by
    cases hanchor : Text.anchor greetingPattern greeting? content.toList with
    | ok found => exact absurd ⟨_, _, _, anchor_greeting?_iff.1 hanchor⟩ hnone
    | error fault =>
      obtain ⟨n, hn, rfl⟩ := Text.anchor_error hanchor
      refine ⟨n, hn, perform_patchAppView_of_error hreads hnew ?_⟩
      rw [showRoute, hanchor]
      rfl

theorem sameGreeting_of_only {before part after : List Char}
    (hstretch : Only IsStretch content.toList before part after)
    (helement : Only IsElement content.toList before part after) : SameGreeting content := by
  intro b p a
  constructor
  · intro h
    obtain ⟨rfl, rfl, rfl⟩ := h.unique hstretch
    exact helement
  · intro h
    obtain ⟨rfl, rfl, rfl⟩ := h.unique helement
    exact hstretch

/-- A component that imports nothing does not with the route in the place of a part either. -/
theorem not_import_occurs {kind : List Char → List Char → List Char → Prop}
    {before part after : List Char} (hnone : ¬ "import".toList <:+: content.toList)
    (honly : Only kind content.toList before part after) :
    ¬ "import".toList <:+: (before ++ routeElement.toList) ++ after :=
  not_infix_route (honly.split ▸ hnone) (by decide) (by decide)

/-- A component that imports nothing has no line that could be another one than is meant. -/
theorem sameImport_of_not_occurs (hnone : ¬ "import".toList <:+: content.toList) :
    SameImport content := by
  intro before part after honly above row below
  have hnone' := not_import_occurs hnone honly
  exact iff_of_false (fun hrow => hnone' (hrow.word_occurs fun _ => IsGreetingImport.import_occurs))
    fun hrow => hnone' (hrow.word_occurs fun _ => ImportsName.import_occurs)

/-- Two readings of a component that is patched in the same way both have an only part, or neither. -/
theorem PatchReplaces.exists_of_exists {kind kind' : List Char → List Char → List Char → Prop}
    {row row' : List Char → Prop} (h : PatchReplaces kind row path content s)
    (h' : PatchReplaces kind' row' path content s)
    (honly : ∃ before part after, Only kind content.toList before part after) :
    ∃ before part after, Only kind' content.toList before part after := by
  by_contra hnone
  obtain ⟨before, part, after, honly⟩ := honly
  obtain ⟨text, t, hok, -⟩ := h.replaced before part after honly
  obtain ⟨n, -, herror⟩ := h'.refused hnone
  cases hok.symm.trans herror

/-- Where nothing is imported, two readings of a component that is patched in the same way put the route
in the same place. -/
theorem PatchReplaces.replaced_of_replaced {kind kind' : List Char → List Char → List Char → Prop}
    {row row' : List Char → Prop} {text : List Char} (h : PatchReplaces kind row path content s)
    (h' : PatchReplaces kind' row' path content s)
    (hrow : ∀ r, row r → "import".toList <:+: r) (hrow' : ∀ r, row' r → "import".toList <:+: r)
    (hnone : ¬ "import".toList <:+: content.toList) (htext : Replaced kind content.toList text) :
    Replaced kind' content.toList text := by
  obtain ⟨before, part, after, honly, rfl⟩ := htext
  obtain ⟨b, p, a, hother⟩ := h.exists_of_exists h' ⟨_, _, _, honly⟩
  obtain ⟨text, t, hrun, hreads, hremoved⟩ := h.replaced _ _ _ honly
  obtain ⟨text', t', hrun', hreads', hremoved'⟩ := h'.replaced _ _ _ hother
  cases hrun.symm.trans hrun'
  obtain rfl := hreads.unique hreads'
  refine ⟨b, p, a, hother, ?_⟩
  rw [← hremoved.eq_of_not_occurs hrow (not_import_occurs hnone honly),
    ← hremoved'.eq_of_not_occurs hrow' (not_import_occurs hnone hother)]

/-- If the stretch is the element, what is meant is done exactly if the lines agree. -/
theorem PatchReplaces.meant_iff (h : PatchReplaces IsStretch IsGreetingImport path content s)
    (hgreeting : SameGreeting content) :
    PatchReplaces IsElement ImportsName path content s ↔ SameImport content := by
  constructor
  · intro hmeant before part after honly
    obtain ⟨text, t, hrun, hreads, hremoved⟩ := h.replaced before part after honly
    obtain ⟨text', t', hrun', hreads', hremoved'⟩ :=
      hmeant.replaced before part after ((hgreeting _ _ _).1 honly)
    cases hrun.symm.trans hrun'
    obtain rfl := hreads.unique hreads'
    exact (removed_iff not_isGreetingImport_nil not_importsName_nil hremoved).1 hremoved'
  · intro himport
    refine ⟨fun before part after honly => ?_, fun hnone => h.refused ?_⟩
    · have hstretch := (hgreeting _ _ _).2 honly
      obtain ⟨text, t, hrun, hreads, hremoved⟩ := h.replaced before part after hstretch
      exact ⟨text, t, hrun, hreads, (removed_iff not_isGreetingImport_nil not_importsName_nil
        hremoved).2 (himport before part after hstretch)⟩
    · rintro ⟨before, part, after, honly⟩
      exact hnone ⟨before, part, after, (hgreeting _ _ _).1 honly⟩

/-- **The patch replaces the greeting.** In every component without a route, the only stretch gives way
to the route, and the first line goes that begins in the way the patch looks for; a component without an
only stretch is refused. The route takes the place of the only greeting element, or the component is
refused for want of one, exactly if the stretch is the element. If it is, the patch does what is meant
exactly if the line that goes is the one that imports the name. It never does where one of stretch and
element is the only one and the other is not, and if nothing is imported, it never does where they
differ. -/
theorem patchAppView_replaces_greeting (hparts : path.parts ≠ []) (hnull : path.holdsNull = false)
    (hreads : Disk.Reads path content s) (hnew : showsRoute content = false) :
    PatchReplaces IsStretch IsGreetingImport path content s ∧
      ((∀ text, Replaced IsStretch content.toList text ↔ Replaced IsElement content.toList text) ↔
        SameGreeting content) ∧
      (SameGreeting content →
        (PatchReplaces IsElement ImportsName path content s ↔ SameImport content)) ∧
      (PatchReplaces IsElement ImportsName path content s →
        ((∃ before part after, Only IsStretch content.toList before part after) ↔
          ∃ before part after, Only IsElement content.toList before part after)) ∧
      (¬ "import".toList <:+: content.toList →
        (PatchReplaces IsElement ImportsName path content s ↔ SameGreeting content)) := by
  have hpatch := patchReplaces_stretch hparts hnull hreads hnew
  have hplaces : (∀ text, Replaced IsStretch content.toList text ↔
      Replaced IsElement content.toList text) ↔ SameGreeting content := by
    refine replaced_iff fun hin => ?_
    rw [showsRoute, Text.occursIn_iff.2 hin] at hnew
    cases hnew
  refine ⟨hpatch, hplaces, hpatch.meant_iff,
    fun hmeant => ⟨hpatch.exists_of_exists hmeant, hmeant.exists_of_exists hpatch⟩,
    fun hnone => ⟨fun hmeant => hplaces.1 fun text => ⟨?_, ?_⟩, fun hgreeting => ?_⟩⟩
  · exact hpatch.replaced_of_replaced hmeant (fun _ => IsGreetingImport.import_occurs)
      (fun _ => ImportsName.import_occurs) hnone
  · exact hmeant.replaced_of_replaced hpatch (fun _ => ImportsName.import_occurs)
      (fun _ => IsGreetingImport.import_occurs) hnone
  · exact (hpatch.meant_iff hgreeting).2 (sameImport_of_not_occurs hnone)

end Feature

namespace Builtin

open Feature

/-- The greeting on a line of its own is the only stretch and the only element. -/
theorem patchAppView_replaces_greeting_plainView :
    SameGreeting plainView ∧ SameImport plainView ∧
      PatchReplaces IsElement ImportsName (appViewAt ⟨.here, []⟩) plainView (viewSeed plainView) := by
  have hstretch : Only IsStretch plainView.toList "<template>\n  ".toList "<HelloWorld />".toList
      "\n</template>\n".toList := by
    rw [← anchor_greeting?_iff]
    decide +kernel
  have helement : Only IsElement plainView.toList "<template>\n  ".toList "<HelloWorld />".toList
      "\n</template>\n".toList :=
    only_isElement (by decide) ⟨[' '], by decide, by decide, by rintro c ⟨⟩; decide⟩
      (by decide +kernel)
  have hreads : Disk.Reads (appViewAt ⟨.here, []⟩) plainView (viewSeed plainView) :=
    reads_viewSeed (by decide)
  have hgreeting := sameGreeting_of_only hstretch helement
  have himport : SameImport plainView := sameImport_of_not_occurs (by decide)
  exact ⟨hgreeting, himport, ((patchAppView_replaces_greeting (by decide) (by decide) hreads
    (by decide +kernel)).2.2.1 hgreeting).2 himport⟩

/-- **An element beside the greeting on its line is lost**: only the greeting element was to give way to
the route. -/
theorem not_patchReplaces_element : ∃ content, content = "<HelloWorld msg=\"hi\" /><Footer />\n" ∧
    Only IsElement content.toList [] "<HelloWorld msg=\"hi\" />".toList "<Footer />\n".toList ∧
    (∃ t, (patchAppView (appViewAt ⟨.here, []⟩)).perform (viewSeed content) = (.ok (), t) ∧
      Disk.Reads (appViewAt ⟨.here, []⟩) "<router-view />\n" t) ∧
    ¬ PatchReplaces IsElement ImportsName (appViewAt ⟨.here, []⟩) content (viewSeed content) := by
  have helement : Only IsElement "<HelloWorld msg=\"hi\" /><Footer />\n".toList []
      "<HelloWorld msg=\"hi\" />".toList "<Footer />\n".toList :=
    only_isElement (by decide) ⟨" msg=\"hi\" ".toList, by decide, by decide,
      by rintro c ⟨⟩; decide⟩
      (by decide +kernel)
  have hshow : showRoute "<HelloWorld msg=\"hi\" /><Footer />\n" = .ok "<router-view />\n" := by
    decide +kernel
  obtain ⟨t, hrun, htext⟩ := reads_of_perform_patchAppView (parts_below_ne_nil (by decide)) (by decide)
    (reads_viewSeed (by decide)) (by decide +kernel) hshow
  refine ⟨_, rfl, helement, ⟨t, hrun, htext⟩, fun hmeant => ?_⟩
  obtain ⟨text, u, hrun', htext', hremoved⟩ := hmeant.replaced _ _ _ helement
  cases hrun.symm.trans hrun'
  obtain rfl := htext.unique htext'
  have hkept := hremoved.eq_of_not_occurs (fun _ => ImportsName.import_occurs) (by decide)
  exact absurd hkept (by decide)

end Builtin

end Scaffold
