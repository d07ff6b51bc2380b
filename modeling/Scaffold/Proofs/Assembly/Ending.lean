import Scaffold.Command.Execute
import Scaffold.Proofs.Assembly.Files
import Scaffold.Proofs.Assembly.Order
import Scaffold.Proofs.Composition.Needs
import Scaffold.Proofs.Json.Plain

/-!
# How a run ends

A run with the features that come with the program, and with their templates, is governed by what it
needs of the files: it succeeds if all of it is met, and otherwise the first need that is not met
decides whether the program tells the user or ends as it is.

* **The seed** has to hold a manifest and an entry file that can be read.
* **The features** come next, and then the shared files, which can be written since they were read, if
  the new manifest has an encoding.
* **The rest** needs free places for the editor files and the description.
-/

namespace Scaffold

open Run Feature Need

namespace Assembly

variable {project path : Path} {root : List String} {o : Options} {s t : Session} {plan : Plan}
  {factory version : String} {seed : Seed}

/-! ## The needs -/

/-- What the checks before the first feature need. -/
def seedNeeds (factory : String) (o : Options) : List Need :=
  [.text [Manifest.fileName] fun text => (Manifest.ofText text).isOk,
    .text ["src", if o.typescript then "main.ts" else "main.js"] fun text =>
      (SplitEntry.ofText factory text).isOk]

/-- The manifest in a text can be encoded with what the features ask for. -/
def renewable (version : String) (o : Options) (text : String) : Bool :=
  (Manifest.ofText text).toOption.all fun m =>
    (m.withEffects version (manifestEffects o (Builtin.effectsOf o).toEffects)).toText.isText

/-- What is needed when the shared files are written. -/
def sharedNeeds (version : String) (o : Options) : List Need :=
  [.text [Manifest.fileName] (fun _ => true) (renewable version o)]

/-- What is needed after the shared files have been written. -/
def restNeeds : List Need := restNames.map .place

/-- What a run needs of the files in the directory of its project. -/
def needs (factory version : String) (o : Options) : List Need :=
  seedNeeds factory o ++ (Builtin.needsFrom o Builtin.all ++ (sharedNeeds version o ++ restNeeds))

/-! ## The stages -/

/-- The seed is read as far as it is there and can be read. -/
theorem governed_readSeed (plan : Plan) :
    Governed project root (seedNeeds plan.names.factory o) (readSeed plan project o) s := by
  rw [readSeed, Manifest.ofFile]
  simp only [bind_assoc]
  refine Disk.governed_parse _ (fun _ => rfl) fun _ manifest _ _ => ?_
  refine Disk.governed_parse _ (fun _ => rfl) fun entry split _ _ => ?_
  exact .of_ok (perform_pure _ s)

/-- A seed that was read is still there after a run that keeps the shared files. -/
theorem SeedAt.of_kept (h : SeedAt factory project o seed s)
    (hkept : ∀ q ∈ sharedFiles project o, ∀ c, HoldsBytes q c s → HoldsBytes q c t) :
    SeedAt factory project o seed t := by
  obtain ⟨c, text, hc, hmanifest⟩ := h.manifest
  obtain ⟨cEntry, hcEntry, hentry⟩ := h.entry
  exact ⟨⟨c, text, hkept _ (.head _) c hc, hmanifest⟩,
    ⟨cEntry, hkept _ (.tail _ (.head _)) cEntry hcEntry, hentry⟩, h.mount⟩

/-- The shared files can be written, since they were read, if the new manifest can be encoded. -/
theorem governed_writeShared (plan : Plan) (hnull : project.holdsNull = false)
    (hseed : SeedAt plan.names.factory project o seed s) :
    Governed project root (sharedNeeds plan.version o)
      (writeShared plan project o seed (Builtin.effectsOf o).toEffects) s := by
  obtain ⟨old, content, hold, hcontent, hmanifest⟩ := hseed.manifest
  obtain ⟨oldEntry, holdEntry, -⟩ := hseed.entry
  obtain ⟨split, hsplit⟩ := hseed.mount
  have hreads : Disk.Reads (Feature.below project [Manifest.fileName]) content s :=
    ⟨old, hold, hcontent⟩
  have hrewrite := rewriteEntry_of_split hsplit (Builtin.effectsOf o).imports
    (Builtin.effectsOf o).useCalls
  let m := newManifest plan o seed (Builtin.effectsOf o).toEffects
  have hrenewable : renewable plan.version o content = m.toText.isText := by
    rw [renewable, hmanifest]
    rfl
  have hwrites (text : String) := exists_perform_writes hnull hold holdEntry text
    (split.withFeatures (Builtin.effectsOf o).imports (Builtin.effectsOf o).useCalls plan.names.name)
  -- both files were read, so whatever has an encoding can be written to them
  refine hreads.governed (fun h => by cases h) (fun _ hlone => ?_) fun _ htext => ?_
  · obtain ⟨halves, herror⟩ := Wide.exists_asText_eq_error_iff.2 (hrenewable.symm.trans hlone)
    obtain ⟨u, -, hu, -⟩ := hwrites ""
    have hstring : (Disk.writeString (manifestPath project) m.toText).perform s =
        (.error (.unencodable halves), u) :=
      Disk.perform_writeString_error.2 (.inr ⟨halves, herror, .inr ⟨hu, rfl⟩⟩)
    rw [perform_writeShared_of_rewrite hrewrite]
    exact ⟨_, u, perform_bind_of_error hstring, rfl⟩
  · obtain ⟨u, t, hu, ht, -⟩ := hwrites m.toText.shown
    have hstring : (Disk.writeString (manifestPath project) m.toText).perform s = (.ok (), u) :=
      Disk.perform_writeString_ok.2 ⟨_, Wide.isText_iff.1 (hrenewable.symm.trans htext), hu⟩
    obtain ⟨v, hrun⟩ : ∃ v, (writeShared plan project o seed (Builtin.effectsOf o).toEffects).perform s =
        (.ok m, v) := by
      rw [perform_writeShared_of_rewrite hrewrite]
      exact ⟨_, (perform_bind_of_ok hstring).trans (perform_bind_of_ok ht)⟩
    exact .of_ok hrun

/-- The templates of the editor files and of the description. -/
def restTemplates : List String :=
  ["vscode/settings.json.tpl", "readme/eslint.md.tpl", "readme/git-hooks.md.tpl",
    "readme/quality-tools.md.tpl", "readme/README.md.tpl"]

theorem restTemplates_subset : restTemplates ⊆ Template.Shipped.files.map Prod.fst := by
  decide

/-- The sections on code quality are rendered in every session. -/
theorem exists_qualitySections (o : Options) :
    ∃ text, ∀ s, (Description.qualitySections .shipped o).perform s = (.ok text, s) := by
  have hbranch {c : Bool} {name : String} {ctx : Template.Context} {f : String → Run String}
      (hname : name ∈ restTemplates)
      (hf : ∀ text, ∃ out, ∀ s, (f text).perform s = (.ok out, s)) :
      ∃ out, ∀ s, (if c then Template.Source.shipped.render name ctx >>= f
        else pure "" >>= f).perform s = (.ok out, s) := by
    cases c with
    | true =>
      obtain ⟨text, htext⟩ := Template.exists_render_shipped ctx (restTemplates_subset hname)
      obtain ⟨out, hout⟩ := hf text
      exact ⟨out, fun s => (perform_bind_of_ok (htext s)).trans (hout s)⟩
    | false => exact hf ""
  rw [Description.qualitySections]
  split
  · apply hbranch (.tail _ (.head _))
    intro linting
    apply hbranch (.tail _ (.tail _ (.head _)))
    intro commits
    exact Template.exists_render_shipped _ (restTemplates_subset (.tail _ (.tail _ (.tail _ (.head _)))))
  · exact ⟨"", fun s => rfl⟩

theorem exists_context (o : Options) :
    ∃ texts, ∀ s, (Description.context .shipped o).perform s = (.ok texts, s) := by
  obtain ⟨quality, hquality⟩ := exists_qualitySections o
  exact ⟨_, fun s => (perform_bind_of_ok (hquality s)).trans (perform_pure _ s)⟩

/-- The extensions are named by texts. -/
theorem plain_extensionsDocument (o : Options) : (EditorFiles.extensionsDocument o).Plain := by
  refine Json.plain_obj.2 (List.forall_mem_singleton.2 ⟨rfl, Json.plain_arr.2 fun v hv => ?_⟩)
  obtain ⟨name, -, rfl⟩ := List.mem_map.1 hv
  exact Json.plain_str.2 rfl

theorem separate_restNeeds : Separate restNeeds where
  plain n hn := by
    obtain ⟨names, hmem, rfl⟩ := List.mem_map.1 hn
    exact plain_of_mem_restNames names hmem
  apart := by
    rw [restNeeds, List.pairwise_map]
    decide

/-- What follows the shared files is written as far as its places are free. -/
theorem governed_addRest (hs : Grounded project root s) (hplan : plan.templates = .shipped) :
    Governed project root restNeeds (addRest plan project o) s := by
  have hsep := separate_restNeeds
  obtain ⟨texts, htexts⟩ := exists_context o
  obtain ⟨extensions, hextensions⟩ := Json.exists_toFile_eq_iff.2 (plain_extensionsDocument o)
  rw [addRest, EditorFiles.write, Description.write, hplan, Disk.writeValue, hextensions]
  simp only [bind_assoc, pure_bind]
  refine Disk.governed_write_then hsep hs _ fun t ht => ?_
  refine Disk.governed_emit_then hsep.tail ht _ (restTemplates_subset (.head _)) fun u hu => ?_
  have hreadme : "readme/README.md.tpl" ∈ restTemplates :=
    .tail _ (.tail _ (.tail _ (.tail _ (.head _))))
  refine (Disk.governed_emit_then hsep.tail.tail hu (Template.ofTexts texts)
    (restTemplates_subset hreadme) fun v _ => .of_ok (perform_pure () v)).congr ?_ (SameFiles.refl u)
  rw [perform_bind_of_ok (htexts u)]
  rfl

/-! ## Behind the checks -/

/-- The names of the files that are needed behind the features. -/
def laterNames : List (List String) := [Manifest.fileName] :: restNames

theorem plain_of_mem_laterNames : ∀ names ∈ laterNames, Plain names := by decide

theorem independent_fileNames : ∀ typescript transformed, ∀ b ∈ Builtin.all,
    Independent (b.fileNames typescript transformed) laterNames := by
  decide

theorem independent_sharedNames : ∀ typescript, Independent (sharedNames typescript) restNames := by
  decide

/-- What is needed later stays as it is while other files are written. -/
theorem apart_of_independent {L : List (List String)} (ns : List Need)
    (hplain : ∀ file ∈ ns.map Need.names, Plain file) (h : Independent L (ns.map Need.names)) :
    ∀ n ∈ ns, Plain n.names ∧ Independent L [n.names] := by
  intro n hn
  have hmem := List.mem_map_of_mem (f := Need.names) hn
  refine ⟨hplain _ hmem, fun file hfile other hother => ?_⟩
  obtain rfl := List.mem_singleton.1 hother
  exact h file hfile _ hmem

theorem independent_allTargets (o : Options) : Independent (Builtin.allTargets o) laterNames := by
  intro file hfile
  obtain ⟨b, hb, hmem⟩ := List.mem_flatMap.1 hfile
  exact independent_fileNames o.typescript (o.css == .lightningcss) b hb file hmem

theorem confined_builtins (project : Path) (o : Options) :
    Confined .shipped project (Builtin.allTargets o)
      (compose project o (builtinProviders .shipped)) := by
  apply confined_compose
  intro p hp _
  obtain ⟨b, hb, rfl⟩ := List.mem_map.1 hp
  exact (b.confined_install .shipped project o).mono fun names hnames =>
    List.mem_flatMap.2 ⟨b, hb, hnames⟩

theorem plain_of_mem_allTargets (o : Options) : ∀ names ∈ Builtin.allTargets o, Plain names := by
  intro names hnames
  obtain ⟨b, -, hmem⟩ := List.mem_flatMap.1 hnames
  exact Builtin.plain_of_mem_targets hmem

/-- **Behind the checks a run is governed** by the needs of its features and of the rest. -/
theorem governed_carryOut (names : EntryNames) (version : String) (hs : Grounded project root s)
    (hnull : project.holdsNull = false) (hseed : SeedAt names.factory project o seed s) :
    Governed project root (Builtin.needsFrom o Builtin.all ++ (sharedNeeds version o ++ restNeeds))
      (carryOut (stockPlan .shipped names version) o project seed) s := by
  have hsame := sameFiles_started o s
  have hstarted := hsame.sameNodes.grounded hs
  have hcomposed := (Builtin.governed_compose hstarted hnull (o := o)).bind
    (f := fun effects => do
      let manifest ← writeShared (stockPlan .shipped names version) project o seed effects.toEffects
      addRest (stockPlan .shipped names version) project o
      return ({ project, effects, manifest, entry := entryAt project o } : Outcome))
    (confined_builtins project o) (plain_of_mem_allTargets o) hstarted
    (apart_of_independent (sharedNeeds version o ++ restNeeds) plain_of_mem_laterNames
      (independent_allTargets o)) fun effects u hrun hu => by
      -- the shared files are as they were read
      have hspares := fun p hp (_ : p.selected o = true) => sparesShared_builtin .shipped project o p hp
      have hkept : SeedAt names.factory project o seed u :=
        hseed.of_kept fun q hq c hc => holdsBytes_of_compose hspares hq hrun hc
      obtain rfl := (Builtin.yields_compose project o).of_perform hrun
      exact (governed_writeShared (stockPlan .shipped names version) hnull hkept).bind
        (confined_writeShared (stockPlan .shipped names version) project o seed _)
        (plain_of_mem_sharedNames o.typescript) hu
        (apart_of_independent restNeeds plain_of_mem_restNames
          (independent_sharedNames o.typescript)) fun m v _ hv =>
          (governed_addRest hv rfl).bind_ok fun _ w _ => ⟨_, w, rfl⟩
  refine hcomposed.congr ?_ hsame.symm
  rw [carryOut, perform_bind_of_ok (perform_report _ _)]
  rfl

/-! ## The run -/

/-- The project's path leads to a directory whose files meet what a run needs. -/
structure Ready (factory version : String) (path : Path) (o : Options) (s : Session) : Prop where
  /-- the path holds no null character -/
  null : path.holdsNull = false
  /-- it leads to a directory -/
  directory : s.tree.isDirectory s.here (path.resolve s.here) = true
  /-- all needs are met -/
  met : AllMet (path.resolve s.here) (path.resolve s.here).parts s (needs factory version o)

/-- The program does not look for what keeps the run from succeeding. -/
inductive Obstructed (factory version : String) (path : Path) (o : Options) (s : Session) : Prop
  /-- the path holds the null character -/
  | null : path.holdsNull = true → Obstructed factory version path o s
  /-- it leads to a directory, and the first need that is not met is barred -/
  | barred : path.holdsNull = false →
      s.tree.isDirectory s.here (path.resolve s.here) = true →
      Need.Hindered (path.resolve s.here) (path.resolve s.here).parts s (needs factory version o) →
      Obstructed factory version path o s

/-- Taking double dots away leaves no new names. -/
theorem mem_of_mem_collapse {name : String} {parts : List String}
    (h : name ∈ Path.collapse parts) : name ∈ parts := by
  suffices ∀ seen, name ∈ parts.foldl
      (fun seen part => if part == ".." then seen.dropLast else seen ++ [part]) seen →
        name ∈ seen ∨ name ∈ parts from
    (this [] h).resolve_left List.not_mem_nil
  clear h
  induction parts with
  | nil => exact fun seen h => .inl h
  | cons part parts ih =>
    intro seen h
    rcases ih _ h with hseen | hparts
    · dsimp only at hseen
      split at hseen
      · exact .inl (List.dropLast_subset _ hseen)
      · rcases List.mem_append.1 hseen with hseen | hpart
        · exact .inl hseen
        · exact .inr (List.mem_singleton.1 hpart ▸ .head _)
    · exact .inr (.tail _ hparts)

/-- A path holds no null character if neither it nor the working directory did before it was
resolved. -/
theorem holdsNull_resolve (hnull : path.holdsNull = false)
    (hhere : ∀ name ∈ s.here, '\x00' ∉ name.toList) : (path.resolve s.here).holdsNull = false := by
  have hparts : ∀ name ∈ path.parts, '\x00' ∉ name.toList := by
    simpa [Path.holdsNull] using hnull
  have hall : ∀ name ∈ (path.resolve s.here).parts, '\x00' ∉ name.toList := by
    intro name hname
    have hmem : name ∈ path.absolute s.here := mem_of_mem_collapse hname
    rw [Path.absolute] at hmem
    split at hmem
    · rcases List.mem_append.1 hmem with hmem | hmem
      · exact hhere name hmem
      · exact hparts name hmem
    · exact hparts name hmem
  simpa [Path.holdsNull] using hall

/-- A path that holds the null character is not looked for. -/
theorem perform_preflight_null (plan : Plan) (o : Options) (hnull : path.holdsNull = true) :
    (preflight plan path o).perform s = (.error (.storage .nullName path), s) := by
  have hresolved : Disk.resolved s.here path = .error (.storage .nullName path) := by
    rw [Disk.resolved, if_pos hnull]
  rw [perform_preflight, hresolved]
  rfl

theorem resolved_of_not_null (hnull : path.holdsNull = false) (here : List String) :
    Disk.resolved here path = .ok (path.resolve here) := by
  rw [Disk.resolved, if_neg (by simp [hnull])]

/-- A project's path that leads to no directory is refused. -/
theorem perform_preflight_noDirectory (plan : Plan) (o : Options) (hnull : path.holdsNull = false)
    (hdirectory : s.tree.isDirectory s.here (path.resolve s.here) = false) :
    (preflight plan path o).perform s =
      (.error (.noSeedFile (path.resolve s.here) none), s) := by
  rw [perform_preflight, resolved_of_not_null hnull, perform_bind_of_ok (perform_orFail_ok _ _ _),
    checkSeed, perform_bind_of_ok (perform_isDirectory _ s), hdirectory]
  rfl

/-- The checks are governed by what they need of the seed. -/
theorem governed_preflight (plan : Plan) (hnull : path.holdsNull = false)
    (hdirectory : s.tree.isDirectory s.here (path.resolve s.here) = true) :
    Governed (path.resolve s.here) root (seedNeeds plan.names.factory o) (preflight plan path o) s := by
  have hread : Governed (path.resolve s.here) root (seedNeeds plan.names.factory o)
      (do
        let seed ← readSeed plan (path.resolve s.here) o
        return (path.resolve s.here, seed)) s :=
    (governed_readSeed plan).bind_ok fun seed t _ => ⟨_, t, rfl⟩
  refine hread.congr ?_ (SameFiles.refl s)
  rw [perform_preflight, resolved_of_not_null hnull, perform_bind_of_ok (perform_orFail_ok _ _ _),
    checkSeed, perform_bind_of_ok (perform_isDirectory _ s), hdirectory]
  rfl

theorem governed_assemble (names : EntryNames) (version : String) (hclosed : s.tree.Closed)
    (hhere : ∀ name ∈ s.here, '\x00' ∉ name.toList) (hnull : path.holdsNull = false)
    (hdirectory : s.tree.isDirectory s.here (path.resolve s.here) = true) :
    Governed (path.resolve s.here) (path.resolve s.here).parts (needs names.factory version o)
      (assemble (stockPlan .shipped names version) path o) s := by
  rw [assemble_eq_carryOut]
  refine (governed_preflight (stockPlan .shipped names version) hnull hdirectory).bind_quiet
    (quiet_preflight _ _ _) fun found hrun => ?_
  obtain ⟨-, hresolved, -, hseed⟩ := perform_preflight_ok.1 hrun
  have hproject := resolve_of_resolved hresolved
  rw [hproject] at hseed ⊢
  exact governed_carryOut names version ⟨leadsTo_resolve hdirectory, hclosed⟩
    (holdsNull_resolve hnull hhere) hseed

theorem Ready.not_obstructed (h : Ready factory version path o s) :
    ¬ Obstructed factory version path o s := by
  rintro (hnull | ⟨-, -, hbarred⟩)
  · cases hnull.symm.trans h.null
  · exact not_hindered_of_allMet h.met hbarred

/-- How a run ends. -/
inductive Ends (factory version : String) (path : Path) (o : Options) (s : Session) :
    Except Failure Outcome → Prop
  /-- it has what it needs, and succeeds -/
  | succeeds (outcome : Outcome) : Ready factory version path o s →
      Ends factory version path o s (.ok outcome)
  /-- it ends in a failure that the program detects -/
  | detected {f : Failure} : f.isScaffold = true → ¬ Ready factory version path o s →
      ¬ Obstructed factory version path o s → Ends factory version path o s (.error f)
  /-- it ends in a failure that the program does not look for -/
  | escapes {f : Failure} : f.isScaffold = false → ¬ Ready factory version path o s →
      Obstructed factory version path o s → Ends factory version path o s (.error f)

/-- A run that is governed by its needs. -/
theorem ends_of_governed {x : Run Outcome} (hnull : path.holdsNull = false)
    (hdirectory : s.tree.isDirectory s.here (path.resolve s.here) = true)
    (h : Governed (path.resolve s.here) (path.resolve s.here).parts (needs factory version o) x s) :
    Ends factory version path o s (x.perform s).1 := by
  rcases hrun : x.perform s with ⟨f | outcome, t⟩
  · have hnot : ¬ Ready factory version path o s := by
      intro hready
      have hok := h.success.2 hready.met
      rw [hrun] at hok
      cases hok
    cases htyped : f.isScaffold with
    | true =>
      refine .detected htyped hnot ?_
      rintro (hholds | ⟨-, -, hbarred⟩)
      · cases hnull.symm.trans hholds
      · obtain ⟨f', herror, hescapes⟩ := h.escape.2 hbarred
        rw [hrun] at herror
        cases herror
        cases htyped.symm.trans hescapes
    | false =>
      refine .escapes htyped hnot (.barred hnull hdirectory (h.escape.1 ⟨f, ?_, htyped⟩))
      rw [hrun]
  · exact .succeeds outcome ⟨hnull, hdirectory, h.allMet hrun⟩

/-- **How a run ends** with the features that come with the program, and with their templates. -/
theorem ends_of_assemble (names : EntryNames) (version : String) (path : Path) (o : Options)
    (hclosed : s.tree.Closed) (hhere : ∀ name ∈ s.here, '\x00' ∉ name.toList) :
    Ends names.factory version path o s
      ((assemble (stockPlan .shipped names version) path o).perform s).1 := by
  cases hnull : path.holdsNull with
  | true =>
    rw [perform_assemble_refused (perform_preflight_null _ o hnull)]
    exact .escapes rfl (fun h => absurd (hnull.symm.trans h.null) (by decide)) (.null hnull)
  | false =>
    cases hdirectory : s.tree.isDirectory s.here (path.resolve s.here) with
    | false =>
      rw [perform_assemble_refused (perform_preflight_noDirectory _ o hnull hdirectory)]
      refine .detected rfl (fun h => absurd (hdirectory.symm.trans h.directory) (by decide)) ?_
      rintro (h | ⟨-, h, -⟩)
      · cases hnull.symm.trans h
      · cases hdirectory.symm.trans h
    | true =>
      exact ends_of_governed hnull hdirectory
        (governed_assemble names version hclosed hhere hnull hdirectory)

theorem Ready.congr (h : Ready factory version path o s) (hst : SameFiles s t) :
    Ready factory version path o t := by
  have hsame : ∀ n ∈ needs factory version o, Reflected (path.resolve s.here) (path.resolve s.here).parts
      (id n) s n t := fun n _ => hst.reflected n
  refine ⟨h.null, ?_, ?_⟩
  · rw [hst.tree, hst.here]
    exact h.directory
  · rw [hst.here, allMet_map hsame, List.map_id]
    exact h.met

theorem Obstructed.congr (h : Obstructed factory version path o s) (hst : SameFiles s t) :
    Obstructed factory version path o t := by
  have hsame : ∀ n ∈ needs factory version o, Reflected (path.resolve s.here) (path.resolve s.here).parts
      (id n) s n t := fun n _ => hst.reflected n
  cases h with
  | null h => exact .null h
  | barred hnull hdirectory h =>
    refine .barred hnull ?_ ?_
    · rw [hst.tree, hst.here]
      exact hdirectory
    · rw [hst.here, hindered_map hsame, List.map_id]
      exact h

end Assembly

/-! ## The call -/

namespace Command

open Assembly

/-- **Failures are reported.** A run that does not have what it needs ends in a failure that the
program detects, and the call that carries it out reports it and has status 1, unless the run is
obstructed: then the failure ends the program. -/
theorem failures_reported (path : Path) (o : Options) (s : Session) (hclosed : s.tree.Closed)
    (hhere : ∀ name ∈ s.here, '\x00' ∉ name.toList) :
    (∀ names version, Ends names.factory version path o s
      ((assemble (stockPlan .shipped names version) path o).perform s).1) ∧
    ∀ args settings call request, readArgs args = .ok settings → settings.invocation = .apply call →
      call.directory = path → call.request s.here = .ok request → call.options request = .ok o →
      let outcome := ((assemble {} path o).perform { s with log := [] }).1
      (Ready defaultFactory Manifest.latest path o s →
        ∃ output lines, (execute args s).1 = ⟨output, lines, .ok 0⟩) ∧
      (¬ Ready defaultFactory Manifest.latest path o s → ¬ Obstructed defaultFactory Manifest.latest path o s →
        ∃ lines f, outcome = .error f ∧ f.isScaffold = true ∧
          (execute args s).1 = ⟨"", lines ++ s!"error: {f.message}\n", .ok 1⟩) ∧
      (Obstructed defaultFactory Manifest.latest path o s →
        ∃ lines f, outcome = .error f ∧ f.isScaffold = false ∧
          (execute args s).1 = ⟨"", lines, .error f⟩) := by
  refine ⟨fun names version => ends_of_assemble names version path o hclosed hhere, ?_⟩
  rintro args settings call request hargs hcall rfl hrequest hoptions
  let fresh : Session := { s with log := [] }
  have hfresh : SameFiles s fresh := ⟨rfl, rfl⟩
  have hends : Ends defaultFactory Manifest.latest call.directory o fresh
      ((assemble {} call.directory o).perform fresh).1 :=
    ends_of_assemble {} Manifest.latest call.directory o hclosed hhere
  have hexecute : (execute args s).1 = conclude settings.verbosity (configuredText call o)
      ((assemble {} call.directory o).perform fresh).1
      ((assemble {} call.directory o).perform fresh).2.log := by
    simp only [execute, hargs, hcall, executeApply, hrequest, hoptions]
    rfl
  dsimp only
  rw [hexecute]
  generalize ((assemble {} call.directory o).perform fresh).1 = outcome at hends
  cases hends with
  | succeeds outcome hready =>
    have hready := hready.congr hfresh.symm
    exact ⟨fun _ => ⟨_, _, rfl⟩, fun h => absurd hready h, fun h => absurd h hready.not_obstructed⟩
  | @detected f htyped hnot hclear =>
    refine ⟨fun h => absurd (h.congr hfresh) hnot, fun _ _ => ?_,
      fun h => absurd (h.congr hfresh) hclear⟩
    exact ⟨_, f, rfl, htyped, if_pos htyped⟩
  | @escapes f htyped hnot hobstructed =>
    refine ⟨fun h => absurd (h.congr hfresh) hnot,
      fun _ h => absurd (hobstructed.congr hfresh.symm) h, fun _ => ?_⟩
    exact ⟨_, f, rfl, htyped, if_neg (by simp [htyped])⟩

/-- A seed project with the given bytes for a manifest. -/
def seedWith (manifest : ByteArray) : Session where
  tree := ⟨
    [(["demo"], .directory), (["demo", "package.json"], .file manifest),
     (["demo", "src"], .directory),
     (["demo", "src", "main.ts"], .file "createApp(App).mount('#app')\n".toUTF8)]⟩
  here := ["demo"]
  log := []

theorem closed_seedWith (manifest : ByteArray) : (seedWith manifest).tree.Closed := by
  apply Tree.closed_of_nodes
  intro e he
  simp only [seedWith, List.mem_cons, List.not_mem_nil, or_false] at he
  rcases he with rfl | rfl | rfl | rfl <;> rfl

/-- A seed project whose manifest is a byte that is no text. -/
def garbledSeed : Session := seedWith ⟨#[0xff]⟩

/-- A seed project whose manifest is a text, but no manifest. -/
def emptySeed : Session := seedWith "".toUTF8

/-- A seed project whose manifest names itself by half of a surrogate pair. -/
def loneSeed : Session := seedWith "\x7b\"name\": \"\\ud800\"\x7d".toUTF8

/-- A call without options in the directory of the project. -/
def dotCall : ApplyCall := { ApplyCall.initial with directory := ⟨.here, []⟩ }

/-- The options that it asks for. -/
def dotOptions : Options := { projectName := "demo" }

theorem readArgs_dotCall : readArgs ["apply", "."] = .ok ⟨0, .apply dotCall⟩ := by
  decide +kernel

theorem exists_request_dotCall : ∃ request, dotCall.request ["demo"] = .ok request ∧
    dotCall.options request = .ok dotOptions :=
  ⟨_, rfl, rfl⟩

/-- The kind of failure that the run on a seed project ends in, if it fails. -/
def failsTyped? (s : Session) : Option Bool :=
  match ((assemble {} ⟨.here, []⟩ dotOptions).perform s).1 with
  | .ok _ => none
  | .error f => some f.isScaffold

theorem exists_failure_of_failsTyped {s : Session} {typed : Bool} (h : failsTyped? s = some typed) :
    ∃ f : Failure, f.isScaffold = typed ∧
      ((assemble {} ⟨.here, []⟩ dotOptions).perform s).1 = .error f := by
  unfold failsTyped? at h
  split at h
  · cases h
  · exact ⟨_, Option.some.inj h, ‹_›⟩

/-- The program does not look for the reason why the bytes are no text. -/
theorem failsTyped_garbledSeed : failsTyped? garbledSeed = some false := by
  decide +kernel

set_option maxRecDepth 100000 in
/-- Bytes that are no text end the program, and so does a manifest without an encoding. A text that is no
manifest is reported. -/
theorem failures_reported_seeds :
    (∀ s ∈ [garbledSeed, loneSeed], ∃ lines, ∃ f : Failure, f.isScaffold = false ∧
      (execute ["apply", "."] s).1 = ⟨"", lines, .error f⟩) ∧
    ∃ lines, ∃ f : Failure, f.isScaffold = true ∧
      (execute ["apply", "."] emptySeed).1 = ⟨"", lines ++ s!"error: {f.message}\n", .ok 1⟩ := by
  obtain ⟨request, hrequest, hoptions⟩ := exists_request_dotCall
  have hhere : ∀ name ∈ ["demo"], '\x00' ∉ name.toList := by decide
  have hescapes (manifest : ByteArray) (h : failsTyped? (seedWith manifest) = some false) :
      ∃ lines, ∃ f : Failure, f.isScaffold = false ∧
        (execute ["apply", "."] (seedWith manifest)).1 = ⟨"", lines, .error f⟩ := by
    obtain ⟨hends, hcalls⟩ :=
      failures_reported ⟨.here, []⟩ dotOptions (seedWith manifest) (closed_seedWith _) hhere
    obtain ⟨f, htyped, hrun⟩ := exists_failure_of_failsTyped h
    have hcall := hcalls _ _ _ _ readArgs_dotCall rfl rfl hrequest hoptions
    cases hrun ▸ hends {} Manifest.latest with
    | detected htyped' => cases htyped'.symm.trans htyped
    | escapes _ _ hobstructed =>
      obtain ⟨lines, f, -, hends⟩ := hcall.2.2 hobstructed
      exact ⟨lines, f, hends⟩
  constructor
  · simp only [List.forall_mem_cons, List.not_mem_nil, false_implies, implies_true, and_true]
    exact ⟨hescapes _ failsTyped_garbledSeed, hescapes _ (by decide +kernel)⟩
  · obtain ⟨hends, hcalls⟩ :=
      failures_reported ⟨.here, []⟩ dotOptions emptySeed (closed_seedWith _) hhere
    obtain ⟨f, htyped, hrun⟩ := exists_failure_of_failsTyped
      (show failsTyped? emptySeed = some true by decide +kernel)
    have hcall := hcalls _ _ _ _ readArgs_dotCall rfl rfl hrequest hoptions
    cases hrun ▸ hends {} Manifest.latest with
    | detected _ hnot hclear =>
      obtain ⟨lines, f, -, hends⟩ := hcall.2.1 hnot hclear
      exact ⟨lines, f, hends⟩
    | escapes htyped' => cases htyped'.symm.trans htyped

/-- Not every failure of a run is one that the program detects. -/
theorem not_failures_reported :
    ¬ ∀ (path : Path) (o : Options) (s : Session) (f : Failure), s.tree.Closed →
      ((assemble {} path o).perform s).1 = .error f → f.isScaffold = true := by
  intro h
  obtain ⟨f, htyped, hrun⟩ := exists_failure_of_failsTyped failsTyped_garbledSeed
  cases (h _ _ _ f (closed_seedWith _) hrun).symm.trans htyped

end Command

end Scaffold
