import Scaffold.Proofs.AppView.Route
import Scaffold.Proofs.BuildConfig.Insertion
import Scaffold.Proofs.Feature.Targets
import Scaffold.Proofs.Json.Parsed
import Scaffold.Proofs.Json.RoundTrip
import Scaffold.Proofs.Run.Settling

/-!
# Patches that settle

Every patch of a feature to a file of the seed project looks for its own earlier work, each in another
way. What it looks for is what it left.

* **The build configuration** has lines and words that both features look for, and neither feature
  hides those of the other.
* **The list of checked files** is read again from the document that was written.
* **The application's view** shows the route, unless the route was lost with the import of the
  greeting.
-/

namespace Scaffold.Feature

open Run Text

variable {names : List String} {path : Path} {s t : Session} {content text : String}

/-! ## Rewriting a file -/

/-- The path leads to a file with a text that the function does not change. -/
def Rewritten (f : String → Except AnchorFault String) (path : Path) (s : Session) : Prop :=
  ∃ text, Disk.Holds path text s ∧ '\r' ∉ text.toList ∧ f text = .ok text

/-- Rewrites the text of a file. -/
def rewriteFile (f : String → Except AnchorFault String) (path : Path) (feature : String) :
    Run Unit := do
  let content ← Disk.require path (some feature)
  Disk.write path (← patched path (f content))

theorem rewriteFile_then {α : Type} (f : String → Except AnchorFault String) (path : Path)
    (feature : String) (y : Run α) : (rewriteFile f path feature >>= fun _ => y) = (do
      let content ← Disk.require path (some feature)
      Disk.write path (← patched path (f content))
      y) := by
  simp only [rewriteFile, bind_assoc]

/-- What a rewriting that succeeded has read and written. -/
theorem perform_rewriteFile_ok {f : String → Except AnchorFault String} {feature : String}
    (h : (rewriteFile f path feature).perform s = (.ok (), t)) :
    ∃ content text, Disk.Reads path content s ∧ f content = .ok text ∧
      (Disk.write path text).perform s = (.ok (), t) := by
  obtain ⟨content, _, hrequire, hrest⟩ := perform_bind_ok.1 h
  obtain ⟨rfl, hreads⟩ := Disk.perform_require_iff.1 hrequire
  obtain ⟨text, _, hpatched, hwrite⟩ := perform_bind_ok.1 hrest
  obtain ⟨htext, rfl⟩ := perform_orFail_iff.1 hpatched
  exact ⟨content, text, hreads, htext, hwrite⟩

theorem perform_rewriteFile_then_ok {α : Type} {f : String → Except AnchorFault String}
    {feature : String} {y : Run α} {a : α}
    (h : (do
      let content ← Disk.require path (some feature)
      Disk.write path (← patched path (f content))
      y).perform s = (.ok a, t)) :
    ∃ content text u, Disk.Reads path content s ∧ f content = .ok text ∧
      (Disk.write path text).perform s = (.ok (), u) ∧ y.perform u = (.ok a, t) := by
  rw [← rewriteFile_then] at h
  obtain ⟨_, u, hrewrite, hend⟩ := perform_bind_ok.1 h
  obtain ⟨content, text, hreads, htext, hwrite⟩ := perform_rewriteFile_ok hrewrite
  exact ⟨content, text, u, hreads, htext, hwrite, hend⟩

theorem settles_rewriteFile {f : String → Except AnchorFault String} {feature : String}
    (hplain : Plain names) (hpath : names <:+ path.parts)
    (hf : ∀ content text, '\r' ∉ content.toList → f content = .ok text →
      '\r' ∉ text.toList ∧ f text = .ok text) :
    Settles [names] [names] (Rewritten f path) (rewriteFile f path feature) () where
  within := (Disk.quiet_require _ _).within.bind fun _ => (quiet_patched _ _).within.bind fun text =>
    Disk.within_write hplain hpath (.head _) text
  kept hN hframe h := by
    obtain ⟨text, hholds, h⟩ := h
    exact ⟨text, hholds.of_frame hframe hplain hpath (hN names (.head _)), h⟩
  stays h := by
    obtain ⟨text, hholds, hr, hfixed⟩ := h
    refine (hholds.stays_require hr).bind fun t ht => ?_
    have hpatched : Stays (patched path (f text)) text t := by
      rw [hfixed]
      exact Stays.pure text t
    exact hpatched.bind fun u hu => ((hholds.congr ht).congr hu).stays
  reached h := by
    obtain ⟨content, text, hreads, htext, hwrite⟩ := perform_rewriteFile_ok h
    obtain ⟨hr, hfixed⟩ := hf content text hreads.not_mem htext
    exact ⟨rfl, text, ((settles_write hplain hpath text).reached hwrite).2, hr, hfixed⟩

/-! ## The build configuration -/

/-- The engine of the utility classes is imported and called. -/
structure Registered (text : String) : Prop where
  /-- the import is a line of the text -/
  imported : IsLine utilityImport.toList text.toList
  /-- the plugin is called -/
  called : utilityCall.toList <:+: text.toList

/-- The imports of the transformer are there, and it is chosen. -/
structure Chosen (text : String) : Prop where
  /-- the imports are lines of the text -/
  imported : ∀ line ∈ transformerImports, IsLine line.toList text.toList
  /-- the marker is there -/
  marked : transformerMarker.toList <:+: text.toList

theorem registerUtility_ok (h : registerUtility content = .ok text) :
    ∃ mid, BuildConfig.insertImports content [utilityImport] = .ok mid ∧
      BuildConfig.insertPlugin mid utilityCall = .ok text := by
  exact bind_eq_ok_iff.1 h

theorem chooseTransformer_ok (h : chooseTransformer content = .ok text) :
    ∃ mid, BuildConfig.insertImports content transformerImports = .ok mid ∧
      BuildConfig.insertSettings mid transformerBlock transformerMarker = .ok text := by
  exact bind_eq_ok_iff.1 h

theorem findable_utilityImport : ∀ line ∈ [utilityImport], BuildConfig.Findable line := by decide

theorem findable_transformerImports :
    ∀ line ∈ transformerImports, BuildConfig.Findable line := by decide

/-- The block that is inserted has its marker and no carriage return. -/
theorem marked_transformerBlock :
    transformerMarker.toList <:+: BuildConfig.indentBlock transformerBlock.toList ∧
      '\r' ∉ BuildConfig.indentBlock transformerBlock.toList := by
  rw [transformerBlock, String.toList_intercalate]
  decide +kernel

/-- The plugin does not hide the import that was inserted before it. -/
theorem registered_of_registerUtility (h : registerUtility content = .ok text) : Registered text := by
  obtain ⟨mid, himports, hplugin⟩ := registerUtility_ok h
  obtain ⟨-, himported⟩ := BuildConfig.inserted_insertImports findable_utilityImport himports
  exact ⟨BuildConfig.isLine_insertPlugin hplugin (by decide) (himported _ (.head _)),
    BuildConfig.infix_insertPlugin hplugin⟩

theorem Registered.registerUtility_eq (h : Registered text) : registerUtility text = .ok text := by
  have himports : BuildConfig.insertImports text [utilityImport] = .ok text := by
    refine BuildConfig.insertImports_of_isLine fun line hline => ?_
    refine ⟨findable_utilityImport line hline, ?_⟩
    obtain rfl := List.mem_singleton.1 hline
    exact h.imported
  rw [registerUtility, himports]
  exact BuildConfig.insertPlugin_of_present h.called

/-- The settings do not hide the imports that were inserted before them. -/
theorem inserted_chooseTransformer (h : chooseTransformer content = .ok text) :
    ∃ mid : String, BuildConfig.Inserted content.toList mid.toList ∧
      BuildConfig.Inserted mid.toList text.toList ∧ Chosen text := by
  obtain ⟨mid, himports, hsettings⟩ := chooseTransformer_ok h
  obtain ⟨hfirst, himported⟩ :=
    BuildConfig.inserted_insertImports findable_transformerImports himports
  obtain ⟨hsecond, hmarked⟩ := BuildConfig.inserted_insertSettings marked_transformerBlock.1 hsettings
  refine ⟨mid, hfirst, hsecond, fun line hline => ?_, hmarked⟩
  exact hsecond.isLine (findable_transformerImports line hline).1 (himported line hline)

theorem Chosen.chooseTransformer_eq (h : Chosen text) : chooseTransformer text = .ok text := by
  have himports : BuildConfig.insertImports text transformerImports = .ok text :=
    BuildConfig.insertImports_of_isLine fun line hline =>
      ⟨findable_transformerImports line hline, h.imported line hline⟩
  rw [chooseTransformer, himports]
  exact BuildConfig.insertSettings_of_infix h.marked

/-- **The transformer does not hide the engine** in the file that both features patch. -/
theorem Registered.chooseTransformer (h : Registered content)
    (htext : chooseTransformer content = .ok text) : Registered text := by
  obtain ⟨mid, hfirst, hsecond, -⟩ := inserted_chooseTransformer htext
  have hne := (findable_utilityImport _ (.head _)).1
  have hunbroken : '\n' ∉ utilityCall.toList := by decide
  exact ⟨hsecond.isLine hne (hfirst.isLine hne h.imported),
    hsecond.contains hunbroken (hfirst.contains hunbroken h.called)⟩

theorem not_mem_registerUtility (hcontent : '\r' ∉ content.toList)
    (h : registerUtility content = .ok text) : '\r' ∉ text.toList := by
  obtain ⟨mid, himports, hplugin⟩ := registerUtility_ok h
  have hmid := BuildConfig.not_mem_insertImports (by decide) hcontent himports
  exact BuildConfig.not_mem_insertPlugin (by decide) hmid hplugin

theorem not_mem_chooseTransformer (hcontent : '\r' ∉ content.toList)
    (h : chooseTransformer content = .ok text) : '\r' ∉ text.toList := by
  obtain ⟨mid, himports, hsettings⟩ := chooseTransformer_ok h
  have hmid := BuildConfig.not_mem_insertImports (by decide) hcontent himports
  exact BuildConfig.not_mem_insertSettings marked_transformerBlock.2 hmid hsettings

theorem settles_registerUtility (hplain : Plain names) (hpath : names <:+ path.parts) :
    Settles [names] [names] (Rewritten registerUtility path)
      (rewriteFile registerUtility path "unocss") () :=
  settles_rewriteFile hplain hpath fun _ _ hr h =>
    ⟨not_mem_registerUtility hr h, (registered_of_registerUtility h).registerUtility_eq⟩

theorem settles_chooseTransformer (hplain : Plain names) (hpath : names <:+ path.parts) :
    Settles [names] [names] (Rewritten chooseTransformer path)
      (rewriteFile chooseTransformer path "css") () :=
  settles_rewriteFile hplain hpath fun _ _ hr h => by
    obtain ⟨_, -, -, hchosen⟩ := inserted_chooseTransformer h
    exact ⟨not_mem_chooseTransformer hr h, hchosen.chooseTransformer_eq⟩

/-- What the engine left is there after the transformer was chosen. -/
theorem Rewritten.patchTransformer (hplain : Plain names) (hpath : names <:+ path.parts)
    (h : Rewritten registerUtility path s)
    (hrun : (patchTransformer path).perform s = (.ok (), t)) : Rewritten registerUtility path t := by
  obtain ⟨old, hold, hr, hfixed⟩ := h
  obtain ⟨content, text, u, hreads, htext, hwrite, hreport⟩ := perform_rewriteFile_then_ok hrun
  cases hreport
  obtain rfl := (hold.reads hr).unique hreads
  have hholds := ((settles_write hplain hpath text).reached hwrite).2
  have hregistered := (registered_of_registerUtility hfixed).chooseTransformer htext
  exact ⟨text, hholds.congr ⟨rfl, rfl⟩, not_mem_chooseTransformer hr htext,
    hregistered.registerUtility_eq⟩

/-! ## The list of checked files -/

/-- The document at the path lists the file. -/
def Included (name : String) (path : Path) (s : Session) : Prop :=
  ∃ text document, Disk.Reads path text s ∧ Json.parseCommented text = .ok document ∧
    includeFile name document = .ok none

/-- The included files are those of a list, or none. -/
theorem includedFiles_eq_ok {members : Entries Json Wide} {items : List Json}
    (h : includedFiles members = .ok items) :
    members.get? (.text "include") = some (.arr items) ∨
      items = [] ∧ (members.get? (.text "include") = none ∨
        ∃ v, members.get? (.text "include") = some v ∧ v.isFalsy = true) := by
  unfold includedFiles at h
  split at h
  · rename_i hget
    cases h
    exact .inr ⟨rfl, .inl hget⟩
  · rename_i hget
    cases h
    exact .inl hget
  · rename_i v _ hget
    split at h
    · rename_i hfalsy
      cases h
      exact .inr ⟨rfl, .inr ⟨v, hget, hfalsy⟩⟩
    · cases h

/-- A document that a file can be added to is an object with a list of files. -/
theorem includeFile_eq_ok {name : String} {document : Json} {changed? : Option Json}
    (h : includeFile name document = .ok changed?) :
    ∃ members items, document = .obj members ∧ includedFiles members = .ok items ∧
      changed? = if listsFile name items then none
        else some (.obj (Entries.insert (.text "include") (.arr (items ++ [.str name])) members)) := by
  unfold includeFile at h
  split at h
  · rename_i members
    obtain ⟨items, hitems, hchanged⟩ := bind_eq_ok_iff.1 h
    refine ⟨members, items, rfl, hitems, ?_⟩
    split at hchanged
    · rename_i hlists
      cases hchanged
      rw [if_pos hlists]
    · rename_i hlists
      cases hchanged
      rw [if_neg hlists]
  · cases h

theorem includeFile_eq_some {name : String} {document changed : Json}
    (h : includeFile name document = .ok (some changed)) :
    ∃ members items, document = .obj members ∧ includedFiles members = .ok items ∧
      changed = .obj (Entries.insert (.text "include") (.arr (items ++ [.str name])) members) := by
  obtain ⟨members, items, hdocument, hitems, hchanged⟩ := includeFile_eq_ok h
  refine ⟨members, items, hdocument, hitems, ?_⟩
  split at hchanged
  · cases hchanged
  · exact Option.some.inj hchanged

theorem sound_includedFiles {members : Entries Json Wide} {items : List Json}
    (hsound : Json.SoundEntries members) (h : includedFiles members = .ok items) :
    ∀ v ∈ items, v.Sound := by
  rcases includedFiles_eq_ok h with hget | ⟨rfl, -⟩
  · exact Json.sound_arr.1 (hsound.2 _ (Entries.mem_of_get? hget))
  · exact nofun

/-- The document that was changed is sound, and lists the file when it is read again. -/
theorem includeFile_reread {name : String} {document changed : Json} (hsound : document.Sound)
    (h : includeFile name document = .ok (some changed)) :
    changed.Sound ∧ includeFile name changed.reread = .ok none := by
  obtain ⟨members, items, rfl, hitems, rfl⟩ := includeFile_eq_some h
  have hmembers := Json.sound_obj.1 hsound
  have hlist : (Json.arr (items ++ [.str name])).Sound := by
    refine Json.sound_arr.2 fun v hv => ?_
    rcases List.mem_append.1 hv with hv | hv
    · exact sound_includedFiles hmembers hitems v hv
    · obtain rfl := List.mem_singleton.1 hv
      trivial
  refine ⟨Json.sound_obj.2 (hmembers.insert hlist (.text "include")), ?_⟩
  have hget : includedFiles (Json.rereadMembers
      (Entries.insert (.text "include") (.arr (items ++ [.str name])) members)) =
        .ok (Json.rereadItems (items ++ [.str name])) := by
    rw [includedFiles, Json.get?_rereadMembers, Entries.get?_insert, if_pos rfl]
    rfl
  have hlists : listsFile name (Json.rereadItems (items ++ [.str name])) = true := by
    simp [listsFile, Json.rereadItems_eq, Json.reread]
  rw [Json.reread, includeFile, hget]
  exact if_pos hlists

/-- What a patch that succeeded has read, and what it has written. -/
theorem perform_patchCheckedFiles_ok {name : String}
    (h : (patchCheckedFiles path name).perform s = (.ok (), t)) :
    ∃ text document, Disk.Reads path text s ∧ Json.parseCommented text = .ok document ∧
      (includeFile name document = .ok none ∧ t = s ∨
        ∃ changed content u, includeFile name document = .ok (some changed) ∧
          changed.toFile = .text content ∧ (Disk.write path content).perform s = (.ok (), u) ∧
            SameFiles u t) := by
  obtain ⟨document, _, hdocument, hrest⟩ := perform_bind_ok.1 h
  obtain ⟨rfl, text, hreads, hparse⟩ := Disk.perform_requireJson_iff.1 hdocument
  refine ⟨text, document, hreads, hparse, ?_⟩
  obtain ⟨changed?, _, hchanged, hwrite⟩ := perform_bind_ok.1 hrest
  obtain ⟨hinclude, rfl⟩ := perform_orFail_iff.1 hchanged
  cases changed? with
  | none =>
    cases hwrite
    exact .inl ⟨hinclude, rfl⟩
  | some changed =>
    obtain ⟨_, u, hput, hreport⟩ := perform_bind_ok.1 hwrite
    cases hreport
    obtain ⟨content, hcontent, hput⟩ := Disk.perform_writeString_ok.1 hput
    exact .inr ⟨changed, content, u, hinclude, hcontent, hput, rfl, rfl⟩

/-- What a patch that ran into a string without an encoding has read, and what it has left: a file that
holds nothing. -/
def Emptied (name : String) (path : Path) (halves : LoneHalves) (s t : Session) : Prop :=
  ∃ text document changed, Disk.Reads path text s ∧ Json.parseCommented text = .ok document ∧
    includeFile name document = .ok (some changed) ∧ changed.toFile.asText = .error halves ∧
      (Disk.write path "").perform s = (.ok (), t)

/-- **A patch that fails leaves the session alone**, unless what it is to write has no encoding. -/
theorem eq_of_patchCheckedFiles_error {name : String} {e : Failure} (hparts : path.parts ≠ [])
    (h : (patchCheckedFiles path name).perform s = (.error e, t)) :
    t = s ∧ (∀ halves, e ≠ .unencodable halves) ∨
      ∃ halves, e = .unencodable halves ∧ Emptied name path halves s t := by
  rcases perform_bind_error.1 h with hdocument | ⟨document, u, hdocument, hrest⟩
  · exact .inl ⟨(Disk.quiet_requireJson _ _).eq_of_perform hdocument,
      (Disk.encodes_requireJson _ _).of_perform hdocument⟩
  obtain ⟨rfl, text, ⟨c, hc, hcontent⟩, hparse⟩ := Disk.perform_requireJson_iff.1 hdocument
  rcases perform_bind_error.1 hrest with hchanged | ⟨changed?, v, hchanged, hwrite⟩
  · have hencodes : Disk.Encodes (orFail (.badDocument path) (includeFile name document)) :=
      .orFail fun _ _ _ => nofun
    exact .inl ⟨(Quiet.orFail _ _).eq_of_perform hchanged, hencodes.of_perform hchanged⟩
  obtain ⟨hinclude, rfl⟩ := perform_orFail_iff.1 hchanged
  cases changed? with
  | none => cases hwrite
  | some changed =>
    rcases perform_bind_error.1 hwrite with hvalue | ⟨_, w, -, hreport⟩
    -- the file was read, so a write that is refused has left it alone
    · have hkept (text : String) (h : (Disk.write path text).perform v = (.error e, t)) :
          t = v ∧ ∀ halves, e ≠ .unencodable halves :=
        ⟨Disk.eq_of_write_error hparts hc h, (Disk.encodes_write path text).of_perform h⟩
      rcases Disk.perform_writeString_error.1 hvalue with
        ⟨content, -, hput⟩ | ⟨halves, herror, hput | ⟨hput, rfl⟩⟩
      · exact .inl (hkept content hput)
      · exact .inl (hkept "" hput)
      · exact .inr ⟨halves, rfl, text, document, changed, ⟨c, hc, hcontent⟩, hparse, hinclude, herror,
          hput⟩
    · cases hreport

theorem settles_patchCheckedFiles (name : String) (hplain : Plain names)
    (hpath : names <:+ path.parts) :
    Settles [names] [names] (Included name path) (patchCheckedFiles path name) () where
  within := by
    refine (Disk.quiet_requireJson _ _).within.bind fun document => ?_
    refine (Quiet.orFail _ _).within.bind fun changed? => ?_
    cases changed? with
    | none => exact (Quiet.pure _).within
    | some changed =>
      exact (Disk.within_writeString hplain hpath (.head _) _).bind fun _ => Within.report _
  kept hN hframe h := by
    obtain ⟨text, document, hreads, h⟩ := h
    exact ⟨text, document, hreads.of_frame hframe hplain hpath (hN names (.head _)), h⟩
  stays h := by
    obtain ⟨text, document, hreads, hparse, hinclude⟩ := h
    have hdocument : Stays (Disk.requireJson path (some "eslint")) document _ :=
      (Disk.quiet_requireJson _ _).stays
        (by rw [Disk.perform_requireJson_iff.2 ⟨rfl, text, hreads, hparse⟩])
    refine hdocument.bind fun t _ => ?_
    rw [hinclude]
    exact Stays.pure () t
  reached {s t _} h := by
    refine ⟨rfl, ?_⟩
    obtain ⟨text, document, hreads, hparse, ⟨hinclude, rfl⟩ |
      ⟨changed, content, u, hinclude, hcontent, hput, hsame⟩⟩ := perform_patchCheckedFiles_ok h
    · exact ⟨text, document, hreads, hparse, hinclude⟩
    · obtain ⟨hsound, hagain⟩ := includeFile_reread (Json.sound_of_parseCommented hparse) hinclude
      have hholds := ((settles_write hplain hpath _).reached hput).2
      have hreads := (hholds.congr hsame).reads (Json.not_mem_of_toFile hsound hcontent)
      have hparsed : Json.parseCommented (.text content) = .ok changed.reread := by
        rw [← hcontent, Json.parseCommented_toFile hsound]
      exact ⟨content, changed.reread, hreads, hparsed, hagain⟩

/-! ## The application's view -/

/-- The component at the path shows the current route. -/
def RouteShown (path : Path) (s : Session) : Prop :=
  ∃ text, Disk.Reads path text s ∧ AppView.showsRoute text = true

/-- The component at the path has its greeting on the import of the greeting, and no route. -/
def GreetingInWay (path : Path) (s : Session) : Prop :=
  ∃ text, Disk.Reads path text s ∧ AppView.showsRoute text = false ∧ AppView.GreetingOnImport text

/-- The component at the path has neither a route nor a place for one. -/
def RouteLost (path : Path) (s : Session) : Prop :=
  ∃ text, Disk.Reads path text s ∧ AppView.showsRoute text = false ∧
    AppView.showRoute text = .error ⟨AppView.greetingPattern, 0⟩

theorem GreetingInWay.congr (h : GreetingInWay path s) (hst : SameFiles s t) :
    GreetingInWay path t := by
  obtain ⟨text, hreads, h⟩ := h
  exact ⟨text, hreads.congr hst, h⟩

theorem lasts_patchAppView (hplain : Plain names) (hpath : names <:+ path.parts) :
    Lasts [names] [names] (RouteShown path) (patchAppView path) () where
  within := by
    refine (Disk.quiet_require _ _).within.bind fun content => Within.ite (Within.report _) ?_
    refine (quiet_patched _ _).within.bind fun text => ?_
    exact (Disk.within_write hplain hpath (.head _) text).bind fun _ => Within.report _
  kept hN hframe h := by
    obtain ⟨text, hreads, hshown⟩ := h
    exact ⟨text, hreads.of_frame hframe hplain hpath (hN names (.head _)), hshown⟩
  stays h := by
    obtain ⟨text, hreads, hshown⟩ := h
    refine hreads.stays_require.bind fun t _ => ?_
    rw [if_pos hshown]
    exact Stays.report _ t

/-- **The patch shows the route or loses it**, the latter where the greeting was in the way. -/
theorem routeShown_or_routeLost (hplain : Plain names) (hpath : names <:+ path.parts)
    (h : (patchAppView path).perform s = (.ok (), t)) :
    ¬ GreetingInWay path s ∧ RouteShown path t ∨ GreetingInWay path s ∧ RouteLost path t := by
  obtain ⟨content, _, hrequire, hrest⟩ := perform_bind_ok.1 h
  obtain ⟨rfl, hreads⟩ := Disk.perform_require_iff.1 hrequire
  cases hshown : AppView.showsRoute content with
  | true =>
    rw [if_pos hshown] at hrest
    cases hrest
    refine .inl ⟨fun hin => ?_, content, hreads, hshown⟩
    obtain ⟨content', hreads', hnew, -⟩ := hin
    rw [hreads.unique hreads', hnew] at hshown
    cases hshown
  | false =>
    rw [if_neg (by simp [hshown])] at hrest
    obtain ⟨text, _, hpatched, hwrite⟩ := perform_bind_ok.1 hrest
    obtain ⟨htext, rfl⟩ := perform_orFail_iff.1 hpatched
    obtain ⟨_, v, hput, hreport⟩ := perform_bind_ok.1 hwrite
    cases hreport
    have hr := AppView.not_mem_showRoute htext (by decide) hreads.not_mem
    obtain ⟨c, hc⟩ := ((settles_write hplain hpath text).reached hput).2.reads hr
    by_cases hon : AppView.GreetingOnImport content
    · obtain ⟨hlost, hagain⟩ := AppView.lost_of_greetingOnImport htext hshown hon
      exact .inr ⟨⟨content, hreads, hshown, hon⟩, text, ⟨c, hc⟩, hlost, hagain⟩
    · refine .inl ⟨fun hin => ?_, text, ⟨c, hc⟩, AppView.showsRoute_of_showRoute htext hon⟩
      obtain ⟨content', hreads', -, hon'⟩ := hin
      exact hon (hreads.unique hreads' ▸ hon')

/-- A component with a place for the route is patched. -/
theorem exists_perform_patchAppView (hparts : path.parts ≠ []) (hnull : path.holdsNull = false)
    (hreads : Disk.Reads path content s) (hnew : AppView.showsRoute content = false)
    (hshow : AppView.showRoute content = .ok text) :
    ∃ t, (patchAppView path).perform s = (.ok (), t) := by
  have hrequire : (Disk.require path (some "router")).perform s = (.ok content, s) :=
    Disk.perform_require_iff.2 ⟨rfl, hreads⟩
  obtain ⟨c, hc, -⟩ := hreads
  obtain ⟨t, hwrite⟩ := Disk.exists_perform_write hparts hnull hc text
  have hpatched : (patched path (AppView.showRoute content)).perform s = (.ok text, s) := by
    rw [hshow]
    rfl
  rw [patchAppView, perform_bind_of_ok hrequire, if_neg (by simp [hnew]),
    perform_bind_of_ok hpatched, perform_bind_of_ok hwrite]
  exact ⟨_, perform_report _ _⟩

/-- A component without a place for the route is refused, and stays as it is. -/
theorem perform_patchAppView_of_error {n : Nat} (hreads : Disk.Reads path content s)
    (hnew : AppView.showsRoute content = false)
    (hshow : AppView.showRoute content = .error ⟨AppView.greetingPattern, n⟩) :
    (patchAppView path).perform s = (.error (.anchor path ⟨AppView.greetingPattern, n⟩), s) := by
  have hrequire : (Disk.require path (some "router")).perform s = (.ok content, s) :=
    Disk.perform_require_iff.2 ⟨rfl, hreads⟩
  rw [patchAppView, perform_bind_of_ok hrequire, if_neg (by simp [hnew]), hshow]
  exact perform_bind_of_error rfl

theorem RouteLost.congr (h : RouteLost path s) (hst : SameFiles s t) : RouteLost path t := by
  obtain ⟨text, hreads, h⟩ := h
  exact ⟨text, hreads.congr hst, h⟩

theorem RouteLost.of_frame {L : List (List String)} (h : RouteLost path s) (hframe : Frame L s t)
    (hplain : Plain names) (hpath : names <:+ path.parts) (hapart : Apart L names) :
    RouteLost path t := by
  obtain ⟨text, hreads, h⟩ := h
  exact ⟨text, hreads.of_frame hframe hplain hpath hapart, h⟩

/-- Where the route was lost, the patch finds no place for it. -/
theorem RouteLost.perform_patchAppView (h : RouteLost path s) :
    (patchAppView path).perform s =
      (.error (.anchor path ⟨AppView.greetingPattern, 0⟩), s) := by
  obtain ⟨text, hreads, hlost, hagain⟩ := h
  exact perform_patchAppView_of_error hreads hlost hagain

end Scaffold.Feature
