import Scaffold.Proofs.Effects.Joined
import Scaffold.Proofs.Manifest.Document

/-!
# An updated document

What an update makes of a document, from the document that was read to the one that is written.

* **By keys.** A key of the document keeps its position. A section that the document lacks follows
  behind if it holds something after the update, and every other member is as it was.
* **By sections.** The sections of packages hold the old and the new names in order; the other
  sections are overlays of what the effects declare.
-/

namespace Scaffold.Manifest

open Entries (textKeys nodup_textKeys map_textKeys)

variable {α : Type} {d r : Entries Json Wide} {m m' : Manifest} {key : Wide} {version : String}
  {v : Json} {e : Effects}

/-- The members of an object. What is absent or no object has none. -/
def membersOf : Option Json → Entries Json Wide
  | some (.obj members) => members
  | _ => []

/-- The members of a section of a document. -/
def sectionOf (d : Entries Json Wide) (key : Wide) : Entries Json Wide := membersOf (d.get? key)

/-- What an update for the effects makes of the document `d`. -/
structure Updated (d : Entries Json Wide) (version : String) (e : Effects) (r : Entries Json Wide) :
    Prop where
  /-- the old keys in their order, then the sections that were lacking and hold something now -/
  keys : r.keys = d.keys ++ sectionKeys.filter fun key =>
    !d.keys.contains key && !(sectionOf r key).isEmpty
  /-- the other members are as they were -/
  others : ∀ key ∉ sectionKeys, r.get? key = d.get? key
  /-- a section is an object, unless it was null and still is -/
  sections : ∀ key ∈ sectionKeys, ∀ v, r.get? key = some v →
    v = .obj (sectionOf r key) ∨ v = .null ∧ d.get? key = some .null
  /-- the scripts -/
  scripts : Entries.Overlaid (sectionOf d "scripts")
    (textKeys (e.scripts.map fun (key, s) => (key, .str s))) (sectionOf r "scripts")
  /-- the tasks on changed files -/
  lintStaged : Entries.Overlaid (sectionOf d "lint-staged")
    (textKeys (e.lintStaged.map fun (key, s) => (key, .str s))) (sectionOf r "lint-staged")
  /-- the packages of the application -/
  dependencies : Packaged (sectionOf d "dependencies") e.dependencies (.str version)
    (sectionOf r "dependencies")
  /-- the packages of its development -/
  devDependencies : Packaged (sectionOf d "devDependencies") e.devDependencies (.str version)
    (sectionOf r "devDependencies")
  /-- the settings of tools -/
  config : Entries.Overlaid (sectionOf d "config") (textKeys e.packageConfig) (sectionOf r "config")
  /-- without new tasks their section is as it was, absent or null included -/
  lintStaged_kept : e.lintStaged = [] → r.get? (.text "lint-staged") = d.get? (.text "lint-staged")
  /-- without new settings their section is as it was, absent or null included -/
  config_kept : e.packageConfig = [] → r.get? (.text "config") = d.get? (.text "config")

/-! ## Sections in a payload -/

/-- A section is written as an object or as null. -/
theorem get?_payload_section (m : Manifest) (h : key ∈ sectionKeys) :
    m.payload.get? key = some (.obj (sectionOf m.payload key)) ∨
      m.payload.get? key = some .null ∧ sectionOf m.payload key = [] := by
  simp only [sectionKeys, List.mem_cons, List.not_mem_nil, or_false] at h
  rcases h with rfl | rfl | rfl | rfl | rfl
  · exact .inl rfl
  · obtain ⟨_, lintStaged | entries⟩ := m
    · exact .inr ⟨rfl, rfl⟩
    · exact .inl rfl
  · exact .inl rfl
  · exact .inl rfl
  · obtain ⟨_, _, _, _, config | entries⟩ := m
    · exact .inr ⟨rfl, rfl⟩
    · exact .inl rfl

theorem any_payload_section (m : Manifest) (h : key ∈ sectionKeys) :
    (m.payload.get? key).any (!isVoid ·) = !(sectionOf m.payload key).isEmpty := by
  rcases get?_payload_section m h with hv | ⟨hv, hnone⟩
  · rw [hv]
    rfl
  · rw [hv, hnone]
    rfl

/-- Leaving out what holds nothing loses no members. -/
theorem membersOf_filter {p : Json → Bool} (hp : ∀ v, p v = false → isVoid v = true)
    (v? : Option Json) : membersOf (v?.filter p) = membersOf v? := by
  cases v? with
  | none => rfl
  | some v =>
    cases hv : p v with
    | true => rw [Option.filter, if_pos hv]
    | false =>
      have hvoid := hp v hv
      rw [Option.filter, if_neg (by simp [hv])]
      cases v with
      | obj members => exact (List.isEmpty_iff.1 hvoid).symm
      | _ => rfl

theorem sectionOf_written (hm : m.payload.keys.Nodup) (key : Wide) :
    sectionOf m.written key = sectionOf m.payload key := by
  rw [sectionOf, get?_written hm, membersOf_filter, sectionOf]
  -- what is not written holds nothing
  intro v hv
  simpa using (Bool.or_eq_false_iff.1 hv).2

theorem membersOf_optionalToJson (toJson : α → Json) (section? : Option (Entries α Wide)) :
    membersOf (some (optionalToJson toJson section?)) =
      (section?.getD []).map fun (key, a) => (key, toJson a) := by
  cases section? <;> rfl

theorem get?_written_congr (hm : m.payload.keys.Nodup) (hm' : m'.payload.keys.Nodup)
    (horder : m'.keyOrder = m.keyOrder) (h : m'.payload.get? key = m.payload.get? key) :
    Entries.get? key m'.written = Entries.get? key m.written := by
  rw [get?_written hm, get?_written hm', horder, h]

/-! ## The update -/

theorem writeSection_eq_none {section? : Option (Entries α Wide)} {new : Entries α}
    (h : writeSection section? new = none) : section? = none := by
  unfold writeSection at h
  split at h
  · exact h
  · cases h

theorem optionalToJson_eq_null {toJson : α → Json} {section? : Option (Entries α Wide)}
    (h : some (optionalToJson toJson section?) = some .null) : section? = none := by
  cases section? with
  | none => rfl
  | some entries => cases h

/-- A section that is null after the update was null before. -/
theorem get?_payload_null (hkey : key ∈ sectionKeys)
    (h : (m.withEffects version e).payload.get? key = some .null) :
    m.payload.get? key = some .null := by
  simp only [sectionKeys, List.mem_cons, List.not_mem_nil, or_false] at hkey
  rcases hkey with rfl | rfl | rfl | rfl | rfl
  · cases h
  · have hnone := writeSection_eq_none (optionalToJson_eq_null h)
    exact congrArg (fun section? => some (optionalToJson LintTask.toJson section?)) hnone
  · cases h
  · cases h
  · have hnone := writeSection_eq_none (optionalToJson_eq_null h)
    exact congrArg (fun section? => some (optionalToJson id section?)) hnone

/-- Declared entries are written over the members of a section. -/
theorem overlaid_optional (toJson : α → Json) (section? : Option (Entries α Wide)) {new : Entries α}
    (hnew : new.keys.Nodup) :
    Entries.Overlaid (membersOf (some (optionalToJson toJson section?)))
      ((textKeys new).map fun (key, a) => (key, toJson a))
      (membersOf (some (optionalToJson toJson (writeSection section? new)))) := by
  rw [membersOf_optionalToJson, membersOf_optionalToJson]
  exact (overlaid_writeSection section? hnew).map toJson

theorem nodup_scripts {new : Entries String} (h : new.keys.Nodup) :
    (Entries.keys (new.map fun (key, s) => (key, Wide.text s))).Nodup := by
  rwa [Entries.keys_map Wide.text]

theorem nodup_commands {new : Entries String} (h : new.keys.Nodup) :
    (Entries.keys (new.map fun (key, s) => (key, LintTask.command s))).Nodup := by
  rwa [Entries.keys_map fun s : String => LintTask.command s]

/-- Declared scripts are texts. -/
theorem overlaid_scripts (old : Entries Wide Wide) {new : Entries String} (hnew : new.keys.Nodup) :
    Entries.Overlaid (membersOf (some (textsToJson old)))
      (textKeys (new.map fun (key, s) => (key, .str s)))
      (membersOf (some (textsToJson
        (Entries.insertAll old (textKeys (new.map fun (key, s) => (key, .text s))))))) := by
  have hoverlaid := (Entries.Overlaid.insertAll (nodup_textKeys (nodup_scripts hnew)) old).map Json.str
  rw [map_textKeys, List.map_map] at hoverlaid
  exact hoverlaid

/-- Declared tasks are commands. -/
theorem overlaid_lintStaged (section? : Option (Entries LintTask Wide)) {new : Entries String}
    (hnew : new.keys.Nodup) :
    Entries.Overlaid (membersOf (some (optionalToJson LintTask.toJson section?)))
      (textKeys (new.map fun (key, s) => (key, .str s)))
      (membersOf (some (optionalToJson LintTask.toJson
        (writeSection section? (new.map fun (key, s) => (key, .command s)))))) := by
  have hoverlaid := overlaid_optional LintTask.toJson section? (nodup_commands hnew)
  rw [map_textKeys, List.map_map] at hoverlaid
  exact hoverlaid

/-- Declared settings are values already. -/
theorem overlaid_config (section? : Option (Entries Json Wide)) {new : Entries Json}
    (hnew : new.keys.Nodup) :
    Entries.Overlaid (membersOf (some (optionalToJson id section?))) (textKeys new)
      (membersOf (some (optionalToJson id (writeSection section? new)))) := by
  have hsame : (textKeys new).map (fun e => (e.1, id e.2)) = textKeys new := List.map_id _
  have hoverlaid : Entries.Overlaid (membersOf (some (optionalToJson id section?)))
      ((textKeys new).map fun e => (e.1, id e.2))
      (membersOf (some (optionalToJson id (writeSection section? new)))) :=
    overlaid_optional id section? hnew
  rwa [hsame] at hoverlaid

section Accepted

variable (hd : Json.SoundEntries d) (hm : ofMembers d = .ok m)
include hd hm

/-- An update adds no keys to the payload. -/
theorem nodup_payload_withEffects (version : String) (e : Effects) :
    (m.withEffects version e).payload.keys.Nodup :=
  (WellFormed.of_ofMembers hd hm).nodup_payload

theorem sectionOf_document (key : Wide) : sectionOf d key = sectionOf m.payload key := by
  rw [← sectionOf_written (WellFormed.of_ofMembers hd hm).nodup_payload, written_of_ofMembers hd hm]

/-- Where the manifest has what it had before, the document that is written does too. -/
theorem get?_withEffects
    (h : (m.withEffects version e).payload.get? key = m.payload.get? key) :
    Entries.get? key (m.withEffects version e).written = d.get? key := by
  rw [get?_written_congr (WellFormed.of_ofMembers hd hm).nodup_payload
    (nodup_payload_withEffects hd hm version e) rfl h, written_of_ofMembers hd hm]

theorem keys_withEffects (version : String) (e : Effects) :
    Entries.keys (m.withEffects version e).written = d.keys ++ sectionKeys.filter fun key =>
      !d.keys.contains key && !(sectionOf (m.withEffects version e).written key).isEmpty := by
  have hread := ReadFrom.of_ofMembers hm
  have hpayload := nodup_payload_withEffects hd hm version e
  have horder : (m.withEffects version e).keyOrder = d.keys := hread.keyOrder
  rw [keys_written hpayload hread.mem_keyOrder_of_extra (hread.mem_payload_of_keyOrder hd.1), horder]
  apply congrArg (d.keys ++ ·)
  apply List.filter_congr
  intro key hkey
  rw [any_payload_section _ hkey, sectionOf_written hpayload]

theorem section_withEffects (hkey : key ∈ sectionKeys)
    (hv : Entries.get? key (m.withEffects version e).written = some v) :
    v = .obj (sectionOf (m.withEffects version e).written key) ∨
      v = .null ∧ d.get? key = some .null := by
  have hpayload := nodup_payload_withEffects hd hm version e
  have hget := hv
  rw [get?_written hpayload] at hget
  obtain ⟨hvalue, -⟩ := Option.filter_eq_some_iff.1 hget
  rcases get?_payload_section (m.withEffects version e) hkey with hobj | ⟨hnull, -⟩
  · left
    rw [sectionOf_written hpayload]
    exact Option.some.inj (hvalue.symm.trans hobj)
  · -- the section was null before, so nothing is declared for it
    right
    have hbefore := get?_payload_null hkey hnull
    obtain rfl := Option.some.inj (hvalue.symm.trans hnull)
    refine ⟨rfl, ?_⟩
    rw [← get?_withEffects hd hm (hnull.trans hbefore.symm), hv]

/-- **What an update makes of a document that is accepted.** -/
theorem updated_withEffects (he : e.Keyed) (version : String) :
    ∃ r, (m.withEffects version e).toJson = .obj r ∧ Updated d version e r := by
  have hwf := WellFormed.of_ofMembers hd hm
  have hold := sectionOf_document hd hm
  have hnew := sectionOf_written (nodup_payload_withEffects hd hm version e)
  refine ⟨_, toJson_eq _, ?_⟩
  exact {
    keys := keys_withEffects hd hm version e
    others := by
      intro key hkey
      refine get?_withEffects hd hm ?_
      rw [get?_payload_of_not_mem hkey, get?_payload_of_not_mem hkey]
      rfl
    sections := fun key hkey v => section_withEffects hd hm hkey
    scripts := by
      rw [hold, hnew]
      exact overlaid_scripts m.scripts he.scripts
    lintStaged := by
      rw [hold, hnew]
      exact overlaid_lintStaged m.lintStaged he.lintStaged
    dependencies := by
      rw [hold, hnew]
      exact (packaged_addPackages hwf.dependencies e.dependencies version).map Json.str
    devDependencies := by
      rw [hold, hnew]
      exact (packaged_addPackages hwf.devDependencies e.devDependencies version).map Json.str
    config := by
      rw [hold, hnew]
      exact overlaid_config m.config he.packageConfig
    lintStaged_kept := by
      intro hnone
      refine get?_withEffects hd hm ?_
      change some (optionalToJson _ (writeSection _ _)) = _
      rw [hnone]
      rfl
    config_kept := by
      intro hnone
      refine get?_withEffects hd hm ?_
      change some (optionalToJson _ (writeSection _ _)) = _
      rw [hnone]
      rfl }

end Accepted

/-- Effects with a new and an old script, a package asked for twice, and a setting. -/
def mixedEffects : Effects where
  dependencies := ["vue-router", "pinia", "pinia"]
  devDependencies := ["unocss", "eslint"]
  scripts := [("lint", "eslint .")]
  lintStaged := [("*.ts", "eslint --fix"), ("*.md", "prettier")]
  packageConfig := [("commitizen", .obj [("path", .str "cz-git")])]

theorem updated_withEffects_mixed : ∃ m r, ofMembers mixedDocument = .ok m ∧
    (m.withEffects latest mixedEffects).toJson = .obj r ∧
      Updated mixedDocument latest mixedEffects r := by
  obtain ⟨m, hm⟩ : ∃ m, ofMembers mixedDocument = .ok m := ⟨_, rfl⟩
  have hkeyed : mixedEffects.Keyed := ⟨by decide, by decide, by decide⟩
  obtain ⟨r, hr, hupdated⟩ := updated_withEffects sound_mixedDocument hm hkeyed latest
  exact ⟨m, r, hm, hr, hupdated⟩

end Scaffold.Manifest
