import Scaffold.Proofs.Disk.Values
import Scaffold.Proofs.Feature.Settled

/-!
# The list of checked files

In a typed project the linting feature adds its configuration to the list of checked files, and
changes nothing else in the document that holds the list.

* **The list is extended in its place.** `Extended` says what the new document is; a document that
  lists the file already is not even written again.
* **The file is read and written** through comments, line ends and the two halves of JSON, so what is
  said is said of the value that is read from it before and after.
* **A failure leaves it alone**, since the patch comes last and writes over a file that is there, with
  one exception. A string without an encoding comes to light when the file has been emptied already.
-/

namespace Scaffold

namespace Json

/-- The bytes are those of a file that is read as the value. -/
def InFile (v : Json) (bytes : ByteArray) : Prop :=
  ∃ text, Disk.textOf bytes = .ok text ∧ parseCommented text = .ok v

theorem InFile.unique {v w : Json} {bytes : ByteArray} (h : v.InFile bytes) (h' : w.InFile bytes) :
    v = w := by
  obtain ⟨text, htext, hv⟩ := h
  obtain ⟨text', htext', hw⟩ := h'
  cases htext.symm.trans htext'
  exact Except.ok.inj (hv.symm.trans hw)

end Json

namespace Feature

open Run

variable {name : String} {document changed old new : Json} {path : Path} {s t : Session}

/-! ## The document -/

/-- The document lists the file. -/
def Lists (name : String) (document : Json) : Prop :=
  ∃ members items, document = .obj members ∧
    Entries.get? (.text "include") members = some (.arr items) ∧ .str name ∈ items

/-- The second document is the first with the file at the end of its list. -/
inductive Extended (name : String) : Json → Json → Prop
  /-- there is a list -/
  | listed {before after : Entries Json Wide} {items : List Json}
      (hkey : .text "include" ∉ before.keys) :
      Extended name (.obj (before ++ (.text "include", .arr items) :: after))
        (.obj (before ++ (.text "include", .arr (items ++ [.str name])) :: after))
  /-- what is there counts as no list -/
  | falsy {before after : Entries Json Wide} {v : Json} (hkey : .text "include" ∉ before.keys)
      (hv : v.isFalsy = true) :
      Extended name (.obj (before ++ (.text "include", v) :: after))
        (.obj (before ++ (.text "include", .arr [.str name]) :: after))
  /-- there is no list -/
  | absent {members : Entries Json Wide} (hkey : .text "include" ∉ members.keys) :
      Extended name (.obj members) (.obj (members ++ [(.text "include", .arr [.str name])]))

theorem listsFile_iff {items : List Json} : listsFile name items = true ↔ .str name ∈ items := by
  rw [listsFile, List.any_eq_true]
  constructor
  · rintro ⟨v, hv, h⟩
    cases v with
    | str s =>
      obtain rfl : s = .text name := by simpa using h
      exact hv
    | _ => cases h
  · intro h
    exact ⟨_, h, by simp⟩

/-- Nothing is to be done exactly if the file is listed. -/
theorem includeFile_eq_none_iff : includeFile name document = .ok none ↔ Lists name document := by
  constructor
  · intro h
    obtain ⟨members, items, rfl, hitems, hnone⟩ := includeFile_eq_ok h
    split at hnone
    · rename_i hlists
      have hmem := listsFile_iff.1 hlists
      rcases includedFiles_eq_ok hitems with hget | ⟨rfl, -⟩
      · exact ⟨members, items, rfl, hget, hmem⟩
      · cases hmem
    · cases hnone
  · rintro ⟨members, items, rfl, hget, hmem⟩
    have hitems : includedFiles members = .ok items := by rw [includedFiles, hget]
    rw [includeFile, hitems]
    exact if_pos (listsFile_iff.2 hmem)

theorem not_lists_of_includeFile (h : includeFile name document = .ok (some changed)) :
    ¬ Lists name document := by
  intro hlists
  cases (includeFile_eq_none_iff.2 hlists).symm.trans h

/-- **The list is extended, and nothing else is changed.** -/
theorem extended_of_includeFile (h : includeFile name document = .ok (some changed)) :
    Extended name document changed := by
  obtain ⟨members, items, rfl, hitems, rfl⟩ := includeFile_eq_some h
  rcases includedFiles_eq_ok hitems with hget | ⟨rfl, hget | ⟨v, hget, hfalsy⟩⟩
  · obtain ⟨before, after, hkey, rfl⟩ := Entries.exists_append_of_get? hget
    rw [Entries.insert_append_cons hkey]
    exact .listed hkey
  · have hkey := Entries.get?_eq_none_iff.1 hget
    rw [Json.insert_of_not_mem hkey]
    exact .absent hkey
  · obtain ⟨before, after, hkey, rfl⟩ := Entries.exists_append_of_get? hget
    rw [Entries.insert_append_cons hkey]
    exact .falsy hkey hfalsy

/-- The new document is read as it was written if the old one was. -/
theorem Extended.reread_eq (h : Extended name old new) (hold : old.reread = old) :
    new.reread = new := by
  cases h with
  | listed =>
    simp only [Json.reread_obj_eq_iff, List.forall_mem_append, List.forall_mem_cons,
      Json.reread_arr_eq_iff] at hold ⊢
    exact ⟨hold.1, ⟨hold.2.1, rfl, nofun⟩, hold.2.2⟩
  | falsy =>
    simp only [Json.reread_obj_eq_iff, List.forall_mem_append, List.forall_mem_cons,
      Json.reread_arr_eq_iff] at hold ⊢
    exact ⟨hold.1, ⟨rfl, nofun⟩, hold.2.2⟩
  | absent =>
    simp only [Json.reread_obj_eq_iff, List.forall_mem_append, List.forall_mem_cons,
      Json.reread_arr_eq_iff] at hold ⊢
    exact ⟨hold, ⟨rfl, nofun⟩, nofun⟩

/-- Only the name of the file is added, which is a text. -/
theorem Extended.plain_iff (h : Extended name old new) : new.Plain ↔ old.Plain := by
  have hkey : (Wide.text "include").isText = true := rfl
  have hname : (Json.str (.text name)).Plain := Json.plain_str.2 rfl
  cases h with
  | listed =>
    simp only [Json.plain_obj, Json.plain_arr, List.forall_mem_append, List.forall_mem_cons]
    exact ⟨fun h => ⟨h.1, ⟨hkey, h.2.1.2.1⟩, h.2.2⟩,
      fun h => ⟨h.1, ⟨hkey, h.2.1.2, hname, nofun⟩, h.2.2⟩⟩
  | falsy _ hv =>
    simp only [Json.plain_obj, Json.plain_arr, List.forall_mem_append, List.forall_mem_cons]
    exact ⟨fun h => ⟨h.1, ⟨hkey, Json.plain_of_isFalsy hv⟩, h.2.2⟩,
      fun h => ⟨h.1, ⟨hkey, hname, nofun⟩, h.2.2⟩⟩
  | absent =>
    simp only [Json.plain_obj, Json.plain_arr, List.forall_mem_append, List.forall_mem_cons]
    exact ⟨fun h => h.1, fun h => ⟨h, ⟨hkey, hname, nofun⟩, nofun⟩⟩

/-! ## The patch -/

/-- The path of the document that lists the checked files. -/
def checkedFilesAt (project : Path) : Path := below project [checkedFilesName]

/-- What becomes of the bytes of the document: they stay if it lists the file, else they are those of
the extended document. -/
def BytesExtended (name : String) (old : Json) (bytes bytes' : ByteArray) : Prop :=
  Lists name old ∧ bytes' = bytes ∨
    ¬ Lists name old ∧ ∃ new, Extended name old new ∧ Json.InFile new.reread bytes' ∧
      ((∀ x ∈ old.floats, x.reread = x) → Json.InFile new bytes')

/-- **The patch extends the list** in the file that it finds. -/
theorem extended_of_patchCheckedFiles (hparts : path.parts ≠ [])
    (h : (patchCheckedFiles path name).perform s = (.ok (), t)) :
    ∃ place bytes bytes' old, s.tree.find (path.absolute s.here) = .file place bytes ∧
      t.tree.find (path.absolute t.here) = .file place bytes' ∧ Json.InFile old bytes ∧
      (Lists name old ∨ old.Plain) ∧ BytesExtended name old bytes bytes' := by
  obtain ⟨text, old, ⟨bytes, hbytes, htext⟩, hparse, hdone⟩ := perform_patchCheckedFiles_ok h
  obtain ⟨place, hplace⟩ := find_of_readFile? hbytes
  have hold : Json.InFile old bytes := ⟨text, htext, hparse⟩
  rcases hdone with ⟨hinclude, rfl⟩ | ⟨new, content, u, hinclude, hcontent, hwrite, hsame⟩
  · have hlists := includeFile_eq_none_iff.1 hinclude
    exact ⟨place, bytes, bytes, old, hplace, hplace, hold, .inl hlists, .inl ⟨hlists, rfl⟩⟩
  · have hfound : t.tree.find (path.absolute t.here) = .file place content.toUTF8 := by
      rw [hsame.tree, hsame.here]
      exact Disk.find_of_write hparts hplace hwrite
    have hsound := (includeFile_reread (Json.sound_of_parseCommented hparse) hinclude).1
    have hread : Json.InFile new.reread content.toUTF8 :=
      ⟨content, Disk.textOf_toUTF8 (Json.not_mem_of_toFile hsound hcontent),
        by rw [← hcontent, Json.parseCommented_toFile hsound]⟩
    have hextended := extended_of_includeFile hinclude
    have hplain := hextended.plain_iff.1 (Json.exists_toFile_eq_iff.1 ⟨content, hcontent⟩)
    refine ⟨place, bytes, _, old, hplace, hfound, hold, .inr hplain,
      .inr ⟨not_lists_of_includeFile hinclude, new, hextended, hread, fun hnumbers => ?_⟩⟩
    rwa [hextended.reread_eq (Json.reread_of_floats old hnumbers)] at hread

/-- A patch that empties the file has found a document with a string that has no encoding. -/
theorem Emptied.exists_document {halves : LoneHalves} (hparts : path.parts ≠ [])
    (h : Emptied name path halves s t) :
    ∃ place bytes old, s.tree.find (path.absolute s.here) = .file place bytes ∧
      t.tree.find (path.absolute t.here) = .file place "".toUTF8 ∧ Json.InFile old bytes ∧
      ¬ Lists name old ∧ ¬ old.Plain := by
  obtain ⟨text, old, new, ⟨bytes, hbytes, htext⟩, hparse, hinclude, herror, hwrite⟩ := h
  obtain ⟨place, hplace⟩ := find_of_readFile? hbytes
  refine ⟨place, bytes, old, hplace, Disk.find_of_write hparts hplace hwrite, ⟨text, htext, hparse⟩,
    not_lists_of_includeFile hinclude, fun hplain => ?_⟩
  have hisText := Json.isText_toFile.2 ((extended_of_includeFile hinclude).plain_iff.2 hplain)
  rw [Wide.exists_asText_eq_error_iff.1 ⟨halves, herror⟩] at hisText
  cases hisText

end Feature

namespace Builtin

open Feature Run

variable {project : Path} {s t : Session}

/-- In a typed project the linting feature emits its configuration, and then patches the list of
checked files. -/
theorem install_linting (src : Template.Source) (project : Path) {o : Options}
    (htyped : o.typescript = true) : (provider src .linting).install project o = (do
      src.emit "eslint/eslint.config.js.tpl" (below project ["eslint.config.ts"]) (lintContext o)
      patchCheckedFiles (checkedFilesAt project) "eslint.config.ts"
      return lintingEffects o) := by
  have hname : s!"eslint.config.{o.scriptExtension}" = "eslint.config.ts" := by
    rw [Options.scriptExtension, if_pos htyped]
    rfl
  simp only [provider, Feature.linting, lintContext, hname, htyped, if_true]
  rfl

/-- The document that lists the checked files is what it was, at its path and wherever else a file has
its name. -/
structure KeepsCheckedFiles (project : Path) (s t : Session) : Prop where
  /-- every file of the name has its bytes, and none is new -/
  place {place : List String} {bytes : ByteArray} : [checkedFilesName] <:+ place →
    (t.tree.get? place = some (.file bytes) ↔ s.tree.get? place = some (.file bytes))
  /-- the path leads to the same file -/
  path {place : List String} {bytes : ByteArray} :
    s.tree.find ((checkedFilesAt project).absolute s.here) = .file place bytes →
      t.tree.find ((checkedFilesAt project).absolute t.here) = .file place bytes

/-- The document that lists the checked files could be read, did not list the configuration of the
linter and had a string that is no text. Now its file holds nothing. -/
def LosesCheckedFiles (project : Path) (s t : Session) : Prop :=
  ∃ place bytes old, s.tree.get? place = some (.file bytes) ∧
    t.tree.find ((checkedFilesAt project).absolute t.here) = .file place "".toUTF8 ∧
    Json.InFile old bytes ∧ ¬ Lists "eslint.config.ts" old ∧ ¬ old.Plain

theorem suffix_of_find_checkedFiles {place : List String} {bytes : ByteArray}
    (h : s.tree.find ((checkedFilesAt project).absolute s.here) = .file place bytes) :
    [checkedFilesName] <:+ place := by
  obtain ⟨front, hfront⟩ :=
    Path.suffix_absolute s.here (suffix_below project [checkedFilesName])
  have hreaches : (s.tree.find (front ++ [checkedFilesName])).reaches = some place := by
    rw [hfront]
    exact congrArg Tree.Found.reaches h
  exact Tree.suffix_of_reaches (by decide) (by decide) hreaches

/-- What touches nothing but the configuration of the linter keeps the document. -/
theorem keepsCheckedFiles_of_frame (hframe : Frame [["eslint.config.ts"]] s t) :
    KeepsCheckedFiles project s t := by
  have hapart : Apart [["eslint.config.ts"]] [checkedFilesName] := by decide
  refine ⟨fun hplace => hframe.tree.file _ _ (hapart.not_endsIn hplace), fun h => ?_⟩
  rw [hframe.here]
  exact Tree.find_file_of_grows hframe.tree (hapart.not_endsIn (suffix_of_find_checkedFiles h)) h

/-- The empty file holds no document, so a document that is lost was not kept. -/
theorem LosesCheckedFiles.not_keeps (h : LosesCheckedFiles project s t) :
    ¬ KeepsCheckedFiles project s t := by
  obtain ⟨place, bytes, old, hbefore, hafter, ⟨text, htext, hparse⟩, -⟩ := h
  intro hkeeps
  -- the bytes that were read as a document would be none
  have hempty := Tree.get?_of_findFrom_file hafter
  have hsame := (hkeeps.place (suffix_of_find_checkedFiles hafter)).2 hbefore
  obtain rfl : "".toUTF8 = bytes := Node.file.inj (Option.some.inj (hempty.symm.trans hsame))
  obtain rfl : "" = text := Except.ok.inj ((Disk.textOf_toUTF8 (by decide)).symm.trans htext)
  have hnothing : (Json.parseCommented (.text "")).isOk = false := by decide +kernel
  rw [hparse] at hnothing
  cases hnothing

/-- The configuration is emitted before the list is patched, which leaves the document alone. -/
theorem keepsCheckedFiles_of_emit {src : Template.Source} {ctx : Template.Context}
    {r : Except Failure Unit} (h : (src.emit "eslint/eslint.config.js.tpl"
      (below project ["eslint.config.ts"]) ctx).perform s = (r, t)) :
    KeepsCheckedFiles project s t :=
  keepsCheckedFiles_of_frame ((Template.within_emit (by decide)
    (suffix_below project ["eslint.config.ts"]) (.head _)).frame_of_perform h)

theorem parts_checkedFilesAt (project : Path) : (checkedFilesAt project).parts ≠ [] := by
  simp [checkedFilesAt, below]

/-- A setup that fails keeps the document, or loses it to a string that has no encoding. -/
theorem keeps_or_loses_of_linting {src : Template.Source} {o : Options} {failure : Failure}
    (htyped : o.typescript = true)
    (h : ((provider src .linting).install project o).perform s = (.error failure, t)) :
    KeepsCheckedFiles project s t ∧ (∀ halves, failure ≠ .unencodable halves) ∨
      (∃ halves, failure = .unencodable halves) ∧ LosesCheckedFiles project s t := by
  have hparts := parts_checkedFilesAt project
  rw [install_linting src project htyped] at h
  rcases perform_bind_error.1 h with hemit | ⟨_, u, hemit, hrest⟩
  · exact .inl ⟨keepsCheckedFiles_of_emit hemit, (Template.encodes_emit _ _ _ _).of_perform hemit⟩
  have hkeeps := keepsCheckedFiles_of_emit hemit
  -- the patch fails before it writes, or by what it writes
  rcases perform_bind_error.1 hrest with hpatch | ⟨_, v, -, hpure⟩
  · rcases eq_of_patchCheckedFiles_error hparts hpatch with ⟨rfl, hne⟩ | ⟨halves, heq, hemptied⟩
    · exact .inl ⟨hkeeps, hne⟩
    · obtain ⟨place, bytes, old, hbefore, hafter, hold⟩ := hemptied.exists_document hparts
      have hplace := (hkeeps.place (suffix_of_find_checkedFiles hbefore)).1
        (Tree.get?_of_findFrom_file hbefore)
      exact .inr ⟨⟨halves, heq⟩, place, bytes, old, hplace, hafter, hold⟩
  · cases hpure

/-- **The linting feature extends the list of checked files** of a typed project and leaves everything
else in the document as it was. If the document lists the configuration already, or if the feature
fails, the file keeps its bytes; unless it fails because a string of the document has no encoding, which
empties the file. -/
theorem linting_extends_checkedFiles (src : Template.Source) (project : Path) (o : Options)
    (htyped : o.typescript = true) (s : Session) :
    (∀ effects t, ((provider src .linting).install project o).perform s = (.ok effects, t) →
      ∃ place bytes bytes' old, s.tree.get? place = some (.file bytes) ∧
        (∀ q c, s.tree.find ((checkedFilesAt project).absolute s.here) = .file q c → q = place) ∧
        t.tree.find ((checkedFilesAt project).absolute t.here) = .file place bytes' ∧
        Json.InFile old bytes ∧ (Lists "eslint.config.ts" old ∨ old.Plain) ∧
        BytesExtended "eslint.config.ts" old bytes bytes') ∧
      ∀ failure t, ((provider src .linting).install project o).perform s = (.error failure, t) →
        (KeepsCheckedFiles project s t ↔ ∀ halves, failure ≠ .unencodable halves) ∧
          ((∃ halves, failure = .unencodable halves) → LosesCheckedFiles project s t) := by
  constructor
  · intro effects t h
    rw [install_linting src project htyped] at h
    obtain ⟨_, u, hemit, hrest⟩ := perform_bind_ok.1 h
    obtain ⟨_, v, hpatch, hpure⟩ := perform_bind_ok.1 hrest
    cases hpure
    have hkeeps := keepsCheckedFiles_of_emit hemit
    obtain ⟨place, bytes, bytes', old, hbefore, hafter, hold⟩ :=
      extended_of_patchCheckedFiles (parts_checkedFilesAt project) hpatch
    refine ⟨place, bytes, bytes', old, ?_, fun q c hq => ?_, hafter, hold⟩
    · have hplace := suffix_of_find_checkedFiles hbefore
      exact (hkeeps.place hplace).1 (Tree.get?_of_findFrom_file hbefore)
    · cases (hkeeps.path hq).symm.trans hbefore
      rfl
  · intro failure t h
    rcases keeps_or_loses_of_linting htyped h with ⟨hkeeps, hne⟩ | ⟨⟨halves, rfl⟩, hloses⟩
    · refine ⟨iff_of_true hkeeps hne, ?_⟩
      rintro ⟨halves, heq⟩
      exact absurd heq (hne halves)
    · exact ⟨iff_of_false hloses.not_keeps fun hne => hne halves rfl, fun _ => hloses⟩

/-- A document that lists one file. -/
def lintedDocument : Json := .obj [("include", .arr [.str "vite.config.ts"]), ("files", .null)]

/-- The document with a comment. -/
def lintedText : String :=
  "\x7b\n  \"include\": [\n    \"vite.config.ts\"// tools\n  ],\n  \"files\": null\n\x7d\n"

theorem inFile_lintedText : Json.InFile lintedDocument lintedText.toUTF8 := by
  refine ⟨lintedText, Disk.textOf_toUTF8 (by decide), ?_⟩
  have hsound : lintedDocument.Sound := ⟨by decide, ⟨trivial, trivial⟩, trivial, trivial⟩
  have hstrip : Wide.ofPoints (Json.stripComments (Wide.text lintedText).points) =
      lintedDocument.toFile := by
    decide +kernel
  rw [Json.parseCommented, hstrip, Json.parse_toFile hsound]
  rfl

/-- A typed project with the document, and an empty template for the configuration of the linter. -/
def lintedSeed (document : String) : Session where
  tree := ⟨
    [(["demo"], .directory), (["demo", checkedFilesName], .file document.toUTF8),
     (["demo", "tpl"], .directory), (["demo", "tpl", "eslint"], .directory),
     (["demo", "tpl", "eslint", "eslint.config.js.tpl"], .file "".toUTF8)]⟩
  here := ["demo"]
  log := []

/-- The options of a typed project with a linter. -/
def lintedOptions : Options := { projectName := "demo", eslint := true }

/-- The linting feature is set up in the project. -/
def lintedRun (document : String) : Except Failure Effects × Session :=
  ((provider (.folder ⟨.here, ["tpl"]⟩) .linting).install ⟨.here, []⟩ lintedOptions).perform
    (lintedSeed document)

theorem linting_extends_checkedFiles_commented : lintedOptions.typescript = true ∧
    ∃ effects t bytes', lintedRun lintedText = (.ok effects, t) ∧
      t.tree.find ["demo", checkedFilesName] = .file ["demo", checkedFilesName] bytes' ∧
      BytesExtended "eslint.config.ts" lintedDocument lintedText.toUTF8 bytes' := by
  have hsucceeds : (lintedRun lintedText).1.isOk = true := by decide +kernel
  obtain ⟨effects, t, hrun⟩ := exists_perform_ok hsucceeds
  obtain ⟨place, bytes, bytes', old, hbytes, hplace, hafter, hold, -, hextended⟩ :=
    (linting_extends_checkedFiles (.folder ⟨.here, ["tpl"]⟩) ⟨.here, []⟩ lintedOptions rfl
      (lintedSeed lintedText)).1 effects t hrun
  obtain rfl : ["demo", checkedFilesName] = place := hplace _ lintedText.toUTF8 rfl
  obtain rfl : lintedText.toUTF8 = bytes := Node.file.inj (Option.some.inj hbytes)
  cases hold.unique inFile_lintedText
  have hhere : t.here = ["demo"] := ((within_install _ _ _ _).frame_of_perform hrun).here
  rw [hhere] at hafter
  exact ⟨rfl, effects, t, bytes', hrun, hafter, hextended⟩

/-- A document that names a file by half of a surrogate pair. -/
def loneText : String := "\x7b\"include\": [\"\\ud800\"]\x7d"

/-- **A document can be lost** by a setup that fails. -/
theorem not_kept_by_failed_linting : lintedOptions.typescript = true ∧
    ∃ failure t, lintedRun loneText = (.error failure, t) ∧
      ¬ KeepsCheckedFiles ⟨.here, []⟩ (lintedSeed loneText) t := by
  have hfails : (lintedRun loneText).1.isOk = false := by decide +kernel
  have hempty : (lintedRun loneText).2.tree.get? ["demo", checkedFilesName] =
      some (.file "".toUTF8) := by
    decide +kernel
  rcases hrun : lintedRun loneText with ⟨failure | effects, t⟩
  · rw [hrun] at hempty
    refine ⟨rfl, failure, t, rfl, fun hkeeps => ?_⟩
    have hbefore := (hkeeps.place (List.suffix_cons "demo" [checkedFilesName])).1 hempty
    cases hbefore
  · rw [hrun] at hfails
    cases hfails

end Builtin

end Scaffold
