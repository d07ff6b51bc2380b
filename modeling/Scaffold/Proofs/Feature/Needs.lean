import Scaffold.Proofs.Disk.Needs
import Scaffold.Proofs.Feature.Settled

/-!
# The needs of a feature

Each feature needs a free place for every file that it adds, and a text that it can patch for every
file of the seed project that it changes. There is nothing else that its setup depends on: the
templates come with the program, and a file that was read can be written if what is to be written has an
encoding.
-/

namespace Scaffold

open Run Feature Need

variable {project : Path} {root names : List String} {s t : Session} {o : Options}

/-! ## Patches -/

namespace Feature

/-- A root component shows the route, or has a place for it. -/
def routable (content : String) : Bool :=
  AppView.showsRoute content || (AppView.showRoute content).isOk

/-- A file can be added to the list of checked files. -/
def listable (name content : String) : Bool :=
  match Json.parseCommented content with
  | .ok document => (includeFile name document).isOk
  | .error _ => false

theorem listable_iff {name content : String} : listable name content = true ↔
    ∃ document changed?, Json.parseCommented content = .ok document ∧
      includeFile name document = .ok changed? := by
  unfold listable
  cases Json.parseCommented content with
  | error fault => simp
  | ok document => simp [isOk_eq_true_iff]

/-- If a file is to be added to the list of checked files, the document can be encoded with it. -/
def encodableWith (name content : String) : Bool :=
  match (Json.parseCommented content).toOption.map (includeFile name) with
  | some (.ok (some changed)) => changed.toFile.isText
  | _ => true

variable (hs : Grounded project root s) (hplain : Plain names)
  (hnull : (below project names).holdsNull = false)
include hs hplain hnull

/-- A file that was read takes every text. -/
theorem exists_write_of_reads {content : String} (h : Disk.Reads (below project names) content s)
    (text : String) : ∃ t, (Disk.write (below project names) text).perform s = (.ok (), t) :=
  (h.writable hs hplain hnull).exists_perform_write hs.leads hplain text

theorem governed_rewriteFile (f : String → Except Text.AnchorFault String) (feature : String) :
    Governed project root [.text names fun content => (f content).isOk]
      (rewriteFile f (below project names) feature) s := by
  refine Disk.governed_parse _ (fun _ => rfl) fun content text hreads _ => ?_
  obtain ⟨t, hwrite⟩ := exists_write_of_reads hs hplain hnull hreads text
  exact .of_ok hwrite

/-- A file is rewritten, and what follows cannot fail. -/
theorem governed_rewriteFile_then {α : Type} {y : Run α} (f : String → Except Text.AnchorFault String)
    (feature : String) (hy : ∀ t, ∃ a u, y.perform t = (.ok a, u)) :
    Governed project root [.text names fun content => (f content).isOk] (do
      let content ← Disk.require (below project names) (some feature)
      Disk.write (below project names) (← patched (below project names) (f content))
      y) s := by
  rw [← rewriteFile_then]
  exact (governed_rewriteFile hs hplain hnull f feature).bind_ok fun _ t _ => hy t

theorem governed_patchAppView :
    Governed project root [.text names routable] (patchAppView (below project names)) s := by
  refine Disk.governed_accept _ (fun content _ hrefused => ?_) fun content hreads haccepted => ?_
  · obtain ⟨hnew, hplace⟩ := Bool.or_eq_false_iff.1 hrefused
    obtain ⟨fault, htext⟩ := isOk_eq_false_iff.1 hplace
    rw [if_neg (by simp [hnew]), htext]
    exact ⟨_, s, rfl, rfl⟩
  · cases hshown : AppView.showsRoute content with
    | true =>
      rw [if_pos rfl]
      exact .of_ok (perform_report _ s)
    | false =>
      rw [routable, hshown, Bool.false_or] at haccepted
      obtain ⟨text, htext⟩ := isOk_eq_true_iff.1 haccepted
      obtain ⟨t, hwrite⟩ := exists_write_of_reads hs hplain hnull hreads text
      rw [if_neg (by simp), htext]
      exact .of_ok ((perform_bind_of_ok hwrite).trans (perform_report _ t))

theorem governed_patchCheckedFiles (name : String) :
    Governed project root [.text names (listable name) (encodableWith name)]
      (patchCheckedFiles (below project names) name) s := by
  rw [patchCheckedFiles, Disk.requireJson]
  simp only [bind_assoc]
  refine Disk.governed_require _ (fun content _ hrefused => ?_)
    (fun content hreads haccepted hbarred => ?_) fun content hreads haccepted hencodable => ?_
  · cases hdocument : Json.parseCommented content with
    | error fault => exact ⟨_, s, rfl, rfl⟩
    | ok document =>
      simp only [listable, hdocument] at hrefused
      obtain ⟨problem, hinclude⟩ := isOk_eq_false_iff.1 hrefused
      exact ⟨.badDocument (below project names) problem, s, by simp [perform_bind, hinclude], rfl⟩
  · obtain ⟨document, changed?, hdocument, hinclude⟩ := listable_iff.1 haccepted
    simp only [encodableWith, hdocument, Except.toOption, Option.map_some, hinclude] at hbarred
    cases changed? with
    | none => cases hbarred
    | some changed =>
      obtain ⟨halves, herror⟩ := Wide.exists_asText_eq_error_iff.2 hbarred
      obtain ⟨t, hwrite⟩ := exists_write_of_reads hs hplain hnull hreads ""
      have hvalue : (Disk.writeValue (below project names) changed).perform s =
          (.error (.unencodable halves), t) :=
        Disk.perform_writeString_error.2 (.inr ⟨halves, herror, .inr ⟨hwrite, rfl⟩⟩)
      rw [hdocument]
      exact ⟨.unencodable halves, t, by simp [perform_bind, hinclude, hvalue], rfl⟩
  · obtain ⟨document, changed?, hdocument, hinclude⟩ := listable_iff.1 haccepted
    simp only [encodableWith, hdocument, Except.toOption, Option.map_some, hinclude] at hencodable
    rw [hdocument]
    cases changed? with
    | none => exact Governed.of_ok (a := ()) (t := s) (by simp [perform_bind, hinclude])
    | some changed =>
      have htext := Wide.isText_iff.1 hencodable
      obtain ⟨t, hwrite⟩ := exists_write_of_reads hs hplain hnull hreads changed.toFile.shown
      have hvalue : (Disk.writeValue (below project names) changed).perform s = (.ok (), t) :=
        Disk.perform_writeString_ok.2 ⟨_, htext, hwrite⟩
      exact Governed.of_ok (a := ()) (by simp [perform_bind, hinclude, hvalue]; rfl)

end Feature

/-! ## Features -/

namespace Builtin

/-- What a feature needs of the files that it finds. -/
def needs (o : Options) : Builtin → List Need
  | .routing =>
    [.place ["src", "router", s!"index.{o.scriptExtension}"], .place ["src", "views", "Home.vue"],
      .text ["src", "App.vue"] routable]
  | .storage =>
    [.place ["src", "store", s!"index.{o.scriptExtension}"],
      .place ["src", "store", s!"counter.{o.scriptExtension}"]]
  | .linting =>
    let name := s!"eslint.config.{o.scriptExtension}"
    .place [name] ::
      if o.typescript then [.text [checkedFilesName] (listable name) (encodableWith name)] else []
  | .utilityClasses =>
    [.place [s!"uno.config.{o.scriptExtension}"],
      .text (buildConfigNames o.typescript) fun content => (registerUtility content).isOk]
  | .styling =>
    if o.css == .lightningcss then
      [.text (buildConfigNames o.typescript) fun content => (chooseTransformer content).isOk]
    else []
  | .commitChecks =>
    [.place ["commitlint.config.js"], .place [".husky", "pre-commit"],
      .place [".husky", "commit-msg"]]

/-- **A feature needs exactly its own files.** -/
theorem map_names_needs (o : Options) (b : Builtin) : (b.needs o).map Need.names = b.targets o := by
  cases b with
  | linting =>
    rw [needs, List.map_cons, apply_ite (List.map Need.names)]
    rfl
  | styling =>
    rw [needs, apply_ite (List.map Need.names)]
    rfl
  | _ => rfl

/-- No file of a feature is in the way of another one. -/
theorem independent_of_fileNames : ∀ typescript transformed, ∀ b ∈ all,
    (b.fileNames typescript transformed).Pairwise fun names other => Independent [names] [other] := by
  decide

theorem separate_needs (o : Options) (b : Builtin) : Separate (b.needs o) where
  plain n hn := by
    have hmem := List.mem_map_of_mem (f := Need.names) hn
    rw [map_names_needs] at hmem
    exact plain_of_mem_targets hmem
  apart := by
    have hpairwise := independent_of_fileNames o.typescript (o.css == .lightningcss) b (mem_all b)
    rwa [← targets, ← map_names_needs, List.pairwise_map] at hpairwise

theorem holdsNull_fileNames : ∀ typescript transformed, ∀ b ∈ all,
    ∀ names ∈ b.fileNames typescript transformed, names.any (·.toList.contains '\x00') = false := by
  decide +kernel

/-- The names of the files hold no null character. -/
theorem holdsNull_target {b : Builtin} (hnull : project.holdsNull = false)
    (hmem : names ∈ b.targets o) : (below project names).holdsNull = false := by
  rw [holdsNull_below, hnull, Bool.false_or]
  exact holdsNull_fileNames _ _ b (mem_all b) names hmem

/-- A strategy that is asked for has packages. -/
theorem exists_stylePackages (hselected : (provider .shipped .styling).selected o = true) :
    ∃ packages, stylePackages? o.css = some packages := by
  change (o.css != .none) = true at hselected
  cases hcss : o.css with
  | none =>
    rw [hcss] at hselected
    cases hselected
  | _ => exact ⟨_, rfl⟩

/-- **A feature that is asked for is governed by its needs.** -/
theorem governed_install (hs : Grounded project root s) (hnull : project.holdsNull = false)
    (b : Builtin) (hselected : (b.provider .shipped).selected o = true) :
    Governed project root (b.needs o) ((b.provider .shipped).install project o) s := by
  have hsep := separate_needs o b
  have hnull {names : List String} (hmem : names ∈ b.targets o) :
      (below project names).holdsNull = false := holdsNull_target hnull hmem
  have hshipped := templateNames_subset o.typescript b (mem_all b)
  cases b with
  | routing =>
    refine Disk.governed_emit_then hsep hs _ (hshipped (.head _)) fun t ht => ?_
    refine Disk.governed_emit_then hsep.tail ht _ (hshipped (.tail _ (.head _))) fun u hu => ?_
    exact (governed_patchAppView hu (hsep.tail.tail.plain _ (.head _))
      (hnull (.tail _ (.tail _ (.head _))))).bind_ok fun _ v _ => ⟨_, v, rfl⟩
  | storage =>
    refine Disk.governed_emit_then hsep hs _ (hshipped (.head _)) fun t ht => ?_
    refine Disk.governed_emit_then hsep.tail ht _ (hshipped (.tail _ (.head _))) fun u hu => ?_
    exact .of_ok (perform_pure _ u)
  | linting =>
    refine Disk.governed_emit_then hsep hs _ (hshipped (.head _)) fun t ht => ?_
    cases htyped : o.typescript with
    | false => exact .of_ok (perform_pure _ t)
    | true =>
      have hmem : [checkedFilesName] ∈ targets o .linting := by
        rw [targets, fileNames, htyped]
        exact .tail _ (.head _)
      exact (governed_patchCheckedFiles ht (plain_of_mem_targets hmem) (hnull hmem) _).bind_ok
        fun _ u _ => ⟨_, u, rfl⟩
  | utilityClasses =>
    refine Disk.governed_emit_then hsep hs _ (hshipped (.head _)) fun t ht => ?_
    exact governed_rewriteFile_then ht (hsep.tail.plain _ (.head _)) (hnull (.tail _ (.head _)))
      registerUtility "unocss" fun u => ⟨_, u, rfl⟩
  | styling =>
    obtain ⟨packages, hpackages⟩ := exists_stylePackages hselected
    have hend (t : Session) : ∃ e u, (askForStyle o).perform t = (.ok e, u) := by
      rw [askForStyle_some hpackages]
      exact ⟨_, t, rfl⟩
    change Governed project root _ (if o.css == .lightningcss then _ else askForStyle o) s
    cases htransformed : o.css == .lightningcss with
    | false =>
      obtain ⟨e, t, hask⟩ := hend s
      rw [needs, htransformed]
      exact .of_ok hask
    | true =>
      have hmem : buildConfigNames o.typescript ∈ targets o .styling := by
        rw [targets, fileNames, htransformed]
        exact .head _
      rw [needs, htransformed]
      exact (governed_rewriteFile_then hs (plain_of_mem_targets hmem) (hnull hmem) chooseTransformer
        "css" fun t => ⟨(), _, perform_report _ t⟩).bind_ok fun _ t _ => hend t
  | commitChecks =>
    refine Disk.governed_emit_then hsep hs _ (hshipped (.head _)) fun t ht => ?_
    refine Disk.governed_write_then hsep.tail ht _ fun u hu => ?_
    exact Disk.governed_write_then hsep.tail.tail hu _ fun v _ => .of_ok (perform_pure _ v)

end Builtin

end Scaffold
