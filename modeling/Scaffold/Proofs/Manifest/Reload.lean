import Scaffold.Manifest.File
import Scaffold.Proofs.Json.Parsed
import Scaffold.Proofs.Json.RoundTrip
import Scaffold.Proofs.Manifest.Sections
import Scaffold.Proofs.Outcomes

/-!
# Reading a manifest again

A manifest that has been read, and updated for any effects, is written as a text that is read as a
manifest again.

* **Well-formed manifests** list each key once in every section, and keep apart the sections and the
  other members. Reading yields them, and updates keep them well-formed.
* **Their JSON value** is sound, so its text is read back; each of its sections is of the form that
  the reader expects.
-/

namespace Scaffold.Manifest

variable {m : Manifest} {members : Entries Json Wide} {key : Wide} {v : Json}

/-- A manifest as it is read from a document. -/
structure WellFormed (m : Manifest) : Prop where
  /-- the scripts have different names -/
  scripts : m.scripts.keys.Nodup
  /-- the tasks have different patterns -/
  lintStaged : ∀ tasks ∈ m.lintStaged, (Entries.keys tasks).Nodup
  /-- the packages have different names -/
  dependencies : m.dependencies.keys.Nodup
  /-- the packages for development have different names -/
  devDependencies : m.devDependencies.keys.Nodup
  /-- the settings are sound -/
  config : ∀ settings ∈ m.config, Json.SoundEntries settings
  /-- the other members are sound -/
  extra : Json.SoundEntries m.extra
  /-- the other members are no sections -/
  apart : ∀ key ∈ m.extra.keys, key ∉ sectionKeys
  /-- their keys are texts -/
  texts : ∀ key ∈ m.extra.keys, key.isText = true
  /-- the document lists each key once -/
  keyOrder : m.keyOrder.Nodup

/-! ## The members that are written -/

theorem keys_payload (m : Manifest) : m.payload.keys = sectionKeys ++ m.extra.keys := rfl

theorem WellFormed.nodup_payload (h : m.WellFormed) : m.payload.keys.Nodup := by
  rw [keys_payload]
  refine List.nodup_append.2 ⟨by decide, h.extra.1, ?_⟩
  rintro k hk _ hk' rfl
  exact h.apart k hk' hk

/-- The members of the written document. -/
def written (m : Manifest) : Entries Json Wide :=
  m.keyOrder.filterMap (fun key => (m.payload.get? key).map (key, ·)) ++
    m.payload.filter fun (key, v) => !m.keyOrder.contains key && !isVoid v

theorem toJson_eq (m : Manifest) : m.toJson = .obj m.written := rfl

/-- Everything that is written is in the payload. -/
theorem WellFormed.payload_of_mem_written (h : m.WellFormed) (hv : (key, v) ∈ m.written) :
    m.payload.get? key = some v := by
  rcases List.mem_append.1 hv with hv | hv
  · obtain ⟨k, -, hk⟩ := List.mem_filterMap.1 hv
    obtain ⟨w, hw, heq⟩ := Option.map_eq_some_iff.1 hk
    cases heq
    exact hw
  · exact Entries.get?_of_mem h.nodup_payload (List.mem_filter.1 hv).1

theorem keys_filterMap_sublist (m : Entries Json Wide) (order : List Wide) :
    (Entries.keys (order.filterMap fun key => (m.get? key).map (key, ·))).Sublist order := by
  induction order with
  | nil => exact List.Sublist.slnil
  | cons key order ih =>
    cases h : m.get? key with
    | none => simpa [h, Entries.keys] using ih.cons key
    | some v => simpa [h, Entries.keys] using ih.cons_cons key

theorem WellFormed.nodup_written (h : m.WellFormed) : (Entries.keys m.written).Nodup := by
  have hknown := keys_filterMap_sublist m.payload m.keyOrder
  rw [written, Entries.keys, List.map_append]
  refine List.nodup_append.2 ⟨hknown.nodup h.keyOrder, ?_, ?_⟩
  · exact (List.filter_sublist.map Prod.fst).nodup h.nodup_payload
  · rintro k hk _ hk' rfl
    obtain ⟨e, he, rfl⟩ := List.mem_map.1 hk'
    have hnew := (List.mem_filter.1 he).2
    have hmem : e.1 ∈ m.keyOrder := hknown.subset hk
    simp [hmem] at hnew

/-! ## Soundness -/

theorem sound_texts {texts : Entries Wide Wide} (h : texts.keys.Nodup) :
    (textsToJson texts).Sound := by
  refine Json.sound_obj.2 ⟨?_, ?_⟩
  · rwa [Entries.keys_map]
  · intro e he
    obtain ⟨e', -, rfl⟩ := List.mem_map.1 he
    trivial

theorem sound_task (t : LintTask) : t.toJson.Sound := by
  cases t with
  | command text => trivial
  | commands texts =>
    refine Json.sound_arr.2 fun v hv => ?_
    obtain ⟨text, -, rfl⟩ := List.mem_map.1 hv
    trivial

theorem sound_optional {α : Type} {toJson : α → Json} {r : Option (Entries α Wide)}
    (hkeys : ∀ entries ∈ r, (Entries.keys entries).Nodup)
    (hsound : ∀ entries ∈ r, ∀ e ∈ entries, (toJson e.2).Sound) :
    (optionalToJson toJson r).Sound := by
  cases r with
  | none => trivial
  | some entries =>
    refine Json.sound_obj.2 ⟨?_, ?_⟩
    · rw [Entries.keys_map]
      exact hkeys entries rfl
    · intro e he
      obtain ⟨e', he', rfl⟩ := List.mem_map.1 he
      exact hsound entries rfl e' he'

theorem WellFormed.sound_payload (h : m.WellFormed) : ∀ e ∈ m.payload, e.2.Sound := by
  intro e he
  rcases List.mem_append.1 he with he | he
  · simp only [List.mem_cons, List.not_mem_nil, or_false] at he
    rcases he with rfl | rfl | rfl | rfl | rfl
    · exact sound_texts h.scripts
    · exact sound_optional h.lintStaged fun _ _ e _ => sound_task e.2
    · exact sound_texts h.dependencies
    · exact sound_texts h.devDependencies
    · exact sound_optional (fun settings hs => (h.config settings hs).1)
        fun settings hs => (h.config settings hs).2
  · exact h.extra.2 e he

/-- **A well-formed manifest is written as a sound value.** -/
theorem WellFormed.sound_toJson (h : m.WellFormed) : m.toJson.Sound := by
  refine Json.sound_obj.2 ⟨h.nodup_written, fun e he => ?_⟩
  exact h.sound_payload _ (Entries.mem_of_get? (h.payload_of_mem_written he))

/-! ## Reading the sections -/

/-- A section that is read is absent, or an object of which every member is read. -/
theorem readSection_eq_ok {α : Type} {key : String} {r : Entries α Wide}
    {read : List FieldStep → Json → Except (List FieldFault) α}
    (h : readSection members key read = .ok r) :
    members.get? (.text key) = none ∧ r = [] ∨
      ∃ v entries, members.get? (.text key) = some v ∧ readMembers [.key key] v = .ok entries ∧
        readEach [.key key] read entries = .ok r := by
  unfold readSection at h
  split at h
  · rename_i habsent
    cases h
    exact .inl ⟨habsent, rfl⟩
  · rename_i v hv
    obtain ⟨entries, hentries, heach⟩ := bind_eq_ok_iff.1 h
    exact .inr ⟨v, entries, hv, hentries, heach⟩

/-- An optional section may be null as well. -/
theorem readOptionalSection_eq_ok {α : Type} {key : String} {r : Option (Entries α Wide)}
    {read : List FieldStep → Json → Except (List FieldFault) α}
    (h : readOptionalSection members key read = .ok r) :
    (members.get? (.text key) = none ∨ members.get? (.text key) = some .null) ∧ r = none ∨
      ∃ v entries a, members.get? (.text key) = some v ∧ readMembers [.key key] v = .ok entries ∧
        readEach [.key key] read entries = .ok a ∧ r = some a := by
  unfold readOptionalSection at h
  split at h
  · rename_i habsent
    cases h
    exact .inl ⟨.inl habsent, rfl⟩
  · rename_i hnull
    cases h
    exact .inl ⟨.inr hnull, rfl⟩
  · rename_i v _ hv
    obtain ⟨entries, hentries, hmore⟩ := bind_eq_ok_iff.1 h
    obtain ⟨a, heach, hr⟩ := bind_eq_ok_iff.1 hmore
    cases hr
    exact .inr ⟨v, entries, a, hv, hentries, heach, rfl⟩

/-- What the members of a document are read as: each section comes from its key, and the members that
are no sections are kept. -/
structure SectionsRead (members : Entries Json Wide) (m : Manifest) : Prop where
  /-- the keys are texts -/
  texts : ∀ key ∈ members.keys, key.isText = true
  /-- the scripts -/
  scripts : readSection members "scripts" readString = .ok m.scripts
  /-- the tasks for staged files -/
  lintStaged : readOptionalSection members "lint-staged" readTask = .ok m.lintStaged
  /-- the packages -/
  dependencies : readSection members "dependencies" readString = .ok m.dependencies
  /-- the packages for development -/
  devDependencies : readSection members "devDependencies" readString = .ok m.devDependencies
  /-- the settings -/
  config : readOptionalSection members "config" (fun _ v => .ok v) = .ok m.config
  /-- the other members -/
  extra : m.extra = members.filter fun (key, _) => !sectionKeys.contains key
  /-- the order of the keys is remembered -/
  keyOrder : m.keyOrder = members.keys

theorem checkKeys_eq_ok_iff :
    checkKeys members = .ok () ↔ ∀ key ∈ members.keys, key.isText = true := by
  simp [checkKeys]

theorem ofMembers_eq_ok_iff : ofMembers members = .ok m ↔ SectionsRead members m := by
  rw [ofMembers, bind_eq_ok_iff]
  constructor
  · rintro ⟨_, htexts, h⟩
    unfold readSections at h
    simp only at h
    split at h
    · rename_i hscripts hlintStaged hdependencies hdevDependencies hconfig
      cases h
      exact ⟨checkKeys_eq_ok_iff.1 htexts, hscripts, hlintStaged, hdependencies, hdevDependencies,
        hconfig, rfl, rfl⟩
    · cases h
  · intro h
    refine ⟨(), checkKeys_eq_ok_iff.2 h.texts, ?_⟩
    rw [readSections, h.scripts, h.lintStaged, h.dependencies, h.devDependencies, h.config]
    simp only [← h.extra, ← h.keyOrder]

theorem readEach_map {α β : Type} {place : List FieldStep} {toJson : β → Json}
    {read : List FieldStep → Json → Except (List FieldFault) α} {f : β → α} (entries : Entries β Wide)
    (h : ∀ e ∈ entries, ∀ place, read place (toJson e.2).reread = .ok (f e.2)) :
    readEach place read (Json.rereadMembers (entries.map fun (key, b) => (key, toJson b))) =
      .ok (entries.map fun (key, b) => (key, f b)) := by
  induction entries with
  | nil => rfl
  | cons e entries ih =>
    have hfirst := h e (.head _) (place ++ [.key e.1.shown])
    have hmore := ih fun e' he' => h e' (.tail _ he')
    simp only [List.map_cons, Json.rereadMembers, readEach, hfirst, hmore]

theorem readStrings_map (place : List FieldStep) (i : Nat) (texts : List Wide) :
    readStrings place i (Json.rereadItems (texts.map .str)) = .ok texts := by
  induction texts generalizing i with
  | nil => rfl
  | cons text texts ih => simp [Json.rereadItems, Json.reread, readStrings, readString, ih]

theorem readTask_toJson (place : List FieldStep) (t : LintTask) :
    readTask place t.toJson.reread = .ok t := by
  cases t with
  | command text => rfl
  | commands texts => simp [LintTask.toJson, Json.reread, readTask, readStrings_map]

theorem WellFormed.texts_written (h : m.WellFormed) :
    ∀ key ∈ Entries.keys (Json.rereadMembers m.written), key.isText = true := by
  intro key hkey
  rw [Json.rereadMembers_eq, Entries.keys_map] at hkey
  obtain ⟨e, he, rfl⟩ := List.mem_map.1 hkey
  have hpayload := Entries.mem_keys_of_get? (h.payload_of_mem_written he)
  rw [keys_payload] at hpayload
  rcases List.mem_append.1 hpayload with hsection | hextra
  · have hall : ∀ key ∈ sectionKeys, key.isText = true := by decide
    exact hall e.1 hsection
  · exact h.texts e.1 hextra

/-- A section of the document that is read where the manifest was written. -/
theorem WellFormed.get?_reread (h : m.WellFormed)
    (hv : Entries.get? key (Json.rereadMembers m.written) = some v) :
    ∃ w, m.payload.get? key = some w ∧ v = w.reread := by
  have hmem := Entries.mem_of_get? hv
  rw [Json.rereadMembers_eq] at hmem
  obtain ⟨e, he, heq⟩ := List.mem_map.1 hmem
  cases heq
  exact ⟨e.2, h.payload_of_mem_written he, rfl⟩

theorem WellFormed.readSection_written (h : m.WellFormed) (key : String) {texts : Entries Wide Wide}
    (hkey : m.payload.get? (.text key) = some (textsToJson texts)) :
    ∃ r, readSection (Json.rereadMembers m.written) key readString = .ok r := by
  unfold readSection
  split
  · exact ⟨[], rfl⟩
  · rename_i v hv
    obtain ⟨w, hw, rfl⟩ := h.get?_reread hv
    cases hkey.symm.trans hw
    have hread : readEach [.key key] readString
        (Json.rereadMembers (texts.map fun e => (e.1, .str e.2))) =
          .ok (texts.map fun e => (e.1, id e.2)) :=
      readEach_map texts fun _ _ _ => rfl
    exact ⟨_, hread⟩

theorem WellFormed.readOptionalSection_written {α β : Type} {toJson : β → Json} {f : β → α}
    {r : Option (Entries β Wide)} (h : m.WellFormed) (key : String)
    (read : List FieldStep → Json → Except (List FieldFault) α)
    (hkey : m.payload.get? (.text key) = some (optionalToJson toJson r))
    (hread : ∀ b place, read place (toJson b).reread = .ok (f b)) :
    ∃ r, readOptionalSection (Json.rereadMembers m.written) key read = .ok r := by
  unfold readOptionalSection
  split
  · exact ⟨none, rfl⟩
  · exact ⟨none, rfl⟩
  · rename_i v hnull hv
    obtain ⟨w, hw, rfl⟩ := h.get?_reread hv
    cases hkey.symm.trans hw
    cases r with
    | none => exact absurd rfl hnull
    | some entries =>
      refine ⟨some (entries.map fun (key, b) => (key, f b)), ?_⟩
      simp only [optionalToJson, Json.reread, readMembers, bind, Except.bind]
      rw [readEach_map entries fun _ _ _ => hread _ _]
      rfl

/-- **A well-formed manifest is written as a text that is read as a manifest.** -/
theorem WellFormed.exists_ofText_toText (h : m.WellFormed) : ∃ m', ofText m.toText = .ok m' := by
  have hparse := Json.parseCommented_toFile h.sound_toJson
  obtain ⟨scripts, hscripts⟩ := h.readSection_written "scripts" rfl
  obtain ⟨tasks, htasks⟩ := h.readOptionalSection_written "lint-staged" readTask rfl
    fun t place => readTask_toJson place t
  obtain ⟨dependencies, hdependencies⟩ := h.readSection_written "dependencies" rfl
  obtain ⟨devDependencies, hdevDependencies⟩ :=
    h.readSection_written "devDependencies" rfl
  obtain ⟨config, hconfig⟩ := h.readOptionalSection_written "config" (fun _ v => .ok v)
    rfl fun _ _ => rfl
  obtain ⟨m', hm'⟩ : ∃ m', ofMembers (Json.rereadMembers m.written) = .ok m' := by
    simp only [ofMembers, checkKeys_eq_ok_iff.2 h.texts_written, readSections, hscripts, htasks,
      hdependencies, hdevDependencies, hconfig]
    exact ⟨_, rfl⟩
  refine ⟨m', ?_⟩
  rw [ofText, toText, hparse, toJson_eq]
  simp only [Json.reread]
  rw [hm']
  rfl

/-! ## Manifests that are read -/

theorem keys_readEach {α : Type} {place : List FieldStep}
    {read : List FieldStep → Json → Except (List FieldFault) α} {r : Entries α Wide}
    (h : readEach place read members = .ok r) : r.keys = members.keys := by
  induction members generalizing r with
  | nil =>
    cases h
    rfl
  | cons e members ih =>
    rw [readEach] at h
    split at h
    · cases h
      rename_i hmore
      exact congrArg (e.1 :: ·) (ih hmore)
    · cases h
    · cases h
    · cases h

theorem readEach_self (place : List FieldStep) (members : Entries Json Wide) :
    readEach place (fun _ v => .ok v) members = .ok members := by
  induction members with
  | nil => rfl
  | cons e members ih => simp only [readEach, ih]

theorem soundEntries_of_readMembers {place : List FieldStep} {entries : Entries Json Wide}
    (hsound : v.Sound) (h : readMembers place v = .ok entries) : Json.SoundEntries entries := by
  cases v <;> cases h
  exact Json.sound_obj.1 hsound

theorem nodup_of_readSection {α : Type} {key : String} {r : Entries α Wide}
    {read : List FieldStep → Json → Except (List FieldFault) α} (hsound : Json.SoundEntries members)
    (h : readSection members key read = .ok r) : r.keys.Nodup := by
  rcases readSection_eq_ok h with ⟨-, rfl⟩ | ⟨v, entries, hv, hentries, heach⟩
  · exact List.nodup_nil
  · have hv' := hsound.2 _ (Entries.mem_of_get? hv)
    rw [keys_readEach heach]
    exact (soundEntries_of_readMembers hv' hentries).1

/-- An optional section that is read comes from an object of the document. -/
theorem exists_of_readOptionalSection {α : Type} {key : String} {r : Option (Entries α Wide)}
    {read : List FieldStep → Json → Except (List FieldFault) α} (hsound : Json.SoundEntries members)
    (h : readOptionalSection members key read = .ok r) :
    ∀ a ∈ r, ∃ entries, Json.SoundEntries entries ∧ readEach [.key key] read entries = .ok a := by
  rcases readOptionalSection_eq_ok h with ⟨-, rfl⟩ | ⟨v, entries, a, hv, hentries, heach, rfl⟩
  · exact nofun
  · have hv' := hsound.2 _ (Entries.mem_of_get? hv)
    rintro _ ⟨⟩
    exact ⟨entries, soundEntries_of_readMembers hv' hentries, heach⟩

theorem WellFormed.of_ofMembers (hsound : Json.SoundEntries members)
    (h : ofMembers members = .ok m) : m.WellFormed := by
  have hread := ofMembers_eq_ok_iff.1 h
  exact {
    scripts := nodup_of_readSection hsound hread.scripts
    lintStaged := fun tasks htasks => by
      obtain ⟨entries, hentries, heach⟩ :=
        exists_of_readOptionalSection hsound hread.lintStaged tasks htasks
      rw [keys_readEach heach]
      exact hentries.1
    dependencies := nodup_of_readSection hsound hread.dependencies
    devDependencies := nodup_of_readSection hsound hread.devDependencies
    config := fun settings hsettings => by
      obtain ⟨entries, hentries, heach⟩ :=
        exists_of_readOptionalSection hsound hread.config settings hsettings
      rw [readEach_self] at heach
      cases heach
      exact hentries
    extra := by
      rw [hread.extra]
      exact ⟨(List.filter_sublist.map Prod.fst).nodup hsound.1,
        fun e he => hsound.2 e (List.mem_filter.1 he).1⟩
    apart := fun k hk => by
      rw [hread.extra] at hk
      obtain ⟨e, he, rfl⟩ := List.mem_map.1 hk
      simpa using (List.mem_filter.1 he).2
    texts := fun k hk => by
      rw [hread.extra] at hk
      exact hread.texts k ((List.filter_sublist.map Prod.fst).subset hk)
    keyOrder := by
      rw [hread.keyOrder]
      exact hsound.1 }

/-- **A manifest that is read is well-formed.** -/
theorem WellFormed.of_ofText {text : Wide} (h : ofText text = .ok m) : m.WellFormed := by
  unfold ofText at h
  split at h
  · cases h
  · rename_i members hparse
    have hsound := Json.sound_obj.1 (Json.sound_of_parseCommented hparse)
    exact .of_ofMembers hsound (mapError_eq_ok_iff.1 h)
  · cases h

/-! ## Updates -/

/-- **An update keeps a manifest well-formed.** -/
theorem WellFormed.withEffects (h : m.WellFormed) (version : String) {e : Effects}
    (he : ∀ setting ∈ e.packageConfig, setting.2.Sound) : (m.withEffects version e).WellFormed where
  scripts := Entries.nodup_keys_insertAll h.scripts
  lintStaged := nodup_writeSection h.lintStaged
  dependencies := nodup_addPackages h.dependencies _ _
  devDependencies := nodup_addPackages h.devDependencies _ _
  config := by
    intro settings hsettings
    refine ⟨nodup_writeSection (fun entries hentries => (h.config entries hentries).1) _ hsettings,
      fun setting hsetting => ?_⟩
    change settings ∈ writeSection m.config e.packageConfig at hsettings
    unfold writeSection at hsettings
    split at hsettings
    · exact (h.config settings hsettings).2 setting hsetting
    · cases hsettings
      rcases Entries.mem_insertAll hsetting with hnew | hold
      · obtain ⟨declared, hdeclared, rfl⟩ := List.mem_map.1 hnew
        exact he declared hdeclared
      · cases hconfig : m.config with
        | none =>
          rw [hconfig] at hold
          cases hold
        | some entries =>
          rw [hconfig] at hold
          exact (h.config entries hconfig).2 setting hold
  extra := h.extra
  apart := h.apart
  texts := h.texts
  keyOrder := h.keyOrder

end Scaffold.Manifest
