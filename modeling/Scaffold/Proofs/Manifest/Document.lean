import Scaffold.Proofs.Manifest.Reload

/-!
# A manifest and its document

Reading a document as a manifest and writing the manifest gives the document back.

* **Reading** splits a document into sections and other members. Every part is what the document has
  at its key; a section that holds nothing may stand for an absent one (`ReadFrom`).
* **Writing** goes by keys: a key of the document is written with what the manifest has for it, and a
  section that the document lacks is written if it holds something (`get?_written`, `keys_written`).
-/

namespace Scaffold.Manifest

variable {α β : Type} {d members : Entries Json Wide} {m : Manifest} {place : List FieldStep}
  {key : Wide} {v : Json}

/-! ## Values that were read -/

theorem readMembers_ok (h : readMembers place v = .ok members) : v = .obj members := by
  cases v <;> cases h
  rfl

theorem readString_ok {text : Wide} (h : readString place v = .ok text) : v = .str text := by
  cases v <;> cases h
  rfl

theorem readStrings_ok {i : Nat} {items : List Json} {texts : List Wide}
    (h : readStrings place i items = .ok texts) : items = texts.map .str := by
  induction items generalizing i texts with
  | nil =>
    cases h
    rfl
  | cons v items ih =>
    rw [readStrings] at h
    split at h
    · rename_i text more htext hmore
      cases h
      rw [readString_ok htext, ih hmore, List.map_cons]
    · cases h
    · cases h
    · cases h

theorem readTask_ok {t : LintTask} (h : readTask place v = .ok t) : v = t.toJson := by
  unfold readTask at h
  split at h
  · cases h
    rfl
  · split at h
    · rename_i texts htexts
      cases h
      rw [readStrings_ok htexts, LintTask.toJson]
    · cases h
  · cases h

/-- Entries that were read one by one are what would be written for them. -/
theorem readEach_ok {toJson : α → Json} {read : List FieldStep → Json → Except (List FieldFault) α}
    (hread : ∀ {place v a}, read place v = .ok a → v = toJson a) {r : Entries α Wide}
    (h : readEach place read members = .ok r) :
    members = r.map fun (key, a) => (key, toJson a) := by
  induction members generalizing r with
  | nil =>
    cases h
    rfl
  | cons e members ih =>
    obtain ⟨key, v⟩ := e
    rw [readEach] at h
    split at h
    · rename_i a more ha hmore
      cases h
      obtain rfl := hread ha
      exact congrArg ((key, toJson a) :: ·) (ih hmore)
    · cases h
    · cases h
    · cases h

/-! ## Sections that were read -/

/-- The value is what the document has at the key; one that holds nothing may stand for an absent
section. -/
def Restores (d : Entries Json Wide) (key : Wide) (v : Json) : Prop :=
  d.get? key = some v ∨ d.get? key = none ∧ isVoid v = true

theorem restores_of_readSection {key : String} {texts : Entries Wide Wide}
    (h : readSection d key readString = .ok texts) : Restores d key (textsToJson texts) := by
  rcases readSection_eq_ok h with ⟨habsent, rfl⟩ | ⟨v, members, hv, hmembers, heach⟩
  · exact .inr ⟨habsent, rfl⟩
  · left
    rw [hv, readMembers_ok hmembers, readEach_ok readString_ok heach, textsToJson]

theorem restores_of_readOptionalSection {key : String} {toJson : α → Json}
    {read : List FieldStep → Json → Except (List FieldFault) α}
    (hread : ∀ {place v a}, read place v = .ok a → v = toJson a) {r : Option (Entries α Wide)}
    (h : readOptionalSection d key read = .ok r) : Restores d key (optionalToJson toJson r) := by
  rcases readOptionalSection_eq_ok h with
    ⟨habsent | hnull, rfl⟩ | ⟨v, members, entries, hv, hmembers, heach, rfl⟩
  · exact .inr ⟨habsent, rfl⟩
  · exact .inl hnull
  · left
    rw [hv, readMembers_ok hmembers, readEach_ok hread heach, optionalToJson]

/-- What reading a document has made of it. -/
structure ReadFrom (d : Entries Json Wide) (m : Manifest) : Prop where
  /-- the order of the keys is remembered -/
  keyOrder : m.keyOrder = d.keys
  /-- the members that are no sections are kept -/
  extra : m.extra = d.filter fun (key, _) => !sectionKeys.contains key
  /-- a section is what the document has at its key -/
  sections : ∀ key ∈ sectionKeys, ∀ v, m.payload.get? key = some v → Restores d key v

theorem ReadFrom.of_ofMembers (h : ofMembers d = .ok m) : ReadFrom d m := by
  have hread := ofMembers_eq_ok_iff.1 h
  refine ⟨hread.keyOrder, hread.extra, fun key hkey v hv => ?_⟩
  simp only [sectionKeys, List.mem_cons, List.not_mem_nil, or_false] at hkey
  rcases hkey with rfl | rfl | rfl | rfl | rfl <;> cases hv
  · exact restores_of_readSection hread.scripts
  · exact restores_of_readOptionalSection readTask_ok hread.lintStaged
  · exact restores_of_readSection hread.dependencies
  · exact restores_of_readSection hread.devDependencies
  · exact restores_of_readOptionalSection (fun h => Except.ok.inj h) hread.config

/-! ## Writing by keys -/

theorem get?_filterMap (m : Entries Json Wide) (order : List Wide) (key : Wide) :
    Entries.get? key (order.filterMap fun key => (m.get? key).map (key, ·)) =
      if key ∈ order then m.get? key else none := by
  induction order with
  | nil => rfl
  | cons k order ih =>
    cases hk : m.get? k with
    | none =>
      rw [List.filterMap_cons_none (by rw [hk]; rfl), ih]
      by_cases h : key = k
      · subst h
        simp [hk]
      · simp [h]
    | some w =>
      rw [List.filterMap_cons_some (by rw [hk]; rfl), Entries.get?, ih]
      by_cases h : k = key
      · subst h
        simp [hk]
      · have h' : ¬ key = k := fun hkey => h hkey.symm
        simp [h, h']

/-- **What is written at a key**: what the manifest has for it, unless the document lacks the key and
there is nothing to hold. -/
theorem get?_written (hm : m.payload.keys.Nodup) (key : Wide) :
    Entries.get? key m.written =
      (m.payload.get? key).filter fun v => m.keyOrder.contains key || !isVoid v := by
  rw [written, Entries.get?_append, get?_filterMap, Entries.get?_filter hm]
  by_cases hkey : key ∈ m.keyOrder <;> cases m.payload.get? key <;> simp [hkey, Option.filter]

theorem keys_filterMap (m : Entries Json Wide) {order : List Wide} (h : ∀ key ∈ order, key ∈ m.keys) :
    Entries.keys (order.filterMap fun key => (m.get? key).map (key, ·)) = order := by
  induction order with
  | nil => rfl
  | cons key order ih =>
    obtain ⟨v, hv⟩ := Entries.mem_keys_iff.1 (h key (.head _))
    have hmore := ih fun key' hkey' => h key' (.tail _ hkey')
    rw [List.filterMap_cons_some (by rw [hv]; rfl)]
    exact congrArg (key :: ·) hmore

/-- **The keys that are written**: those of the document, then the sections that it lacks and that
hold something. -/
theorem keys_written (hm : m.payload.keys.Nodup) (hextra : ∀ key ∈ m.extra.keys, key ∈ m.keyOrder)
    (horder : ∀ key ∈ m.keyOrder, key ∈ m.payload.keys) :
    Entries.keys m.written = m.keyOrder ++ sectionKeys.filter fun key =>
      !m.keyOrder.contains key && (m.payload.get? key).any (!isVoid ·) := by
  have hnew : Entries.keys (m.payload.filter fun (key, v) => !m.keyOrder.contains key && !isVoid v) =
      m.payload.keys.filter fun key =>
        !m.keyOrder.contains key && (m.payload.get? key).any (!isVoid ·) := by
    rw [Entries.keys_filter hm]
    apply List.filter_congr
    intro key _
    cases m.payload.get? key <;> simp
  -- no member beside the sections is new
  have hknown : m.extra.keys.filter (fun key =>
      !m.keyOrder.contains key && (m.payload.get? key).any (!isVoid ·)) = [] := by
    apply List.filter_eq_nil_iff.2
    intro key hkey
    simp [hextra key hkey]
  rw [written, Entries.keys, List.map_append]
  change Entries.keys _ ++ Entries.keys _ = _
  rw [keys_filterMap m.payload horder, hnew, keys_payload, List.filter_append, hknown,
    List.append_nil]

/-! ## Writing what was read -/

theorem get?_payload_of_not_mem (h : key ∉ sectionKeys) :
    m.payload.get? key = m.extra.get? key := by
  unfold payload
  rw [Entries.get?_append, Entries.get?_eq_none_iff.2 h, Option.none_or]

theorem exists_payload (m : Manifest) (h : key ∈ sectionKeys) : ∃ v, m.payload.get? key = some v :=
  Entries.mem_keys_iff.1 (List.mem_append_left _ h)

namespace ReadFrom

theorem get?_extra (h : ReadFrom d m) (hd : d.keys.Nodup) (hkey : key ∉ sectionKeys) :
    m.extra.get? key = d.get? key := by
  rw [h.extra, Entries.get?_filter hd]
  cases d.get? key <;> simp [hkey]

theorem mem_keyOrder_of_extra (h : ReadFrom d m) : ∀ key ∈ m.extra.keys, key ∈ m.keyOrder := by
  intro key hkey
  rw [h.extra] at hkey
  rw [h.keyOrder]
  exact (List.filter_sublist.map Prod.fst).subset hkey

theorem mem_payload_of_keyOrder (h : ReadFrom d m) (hd : d.keys.Nodup) :
    ∀ key ∈ m.keyOrder, key ∈ m.payload.keys := by
  intro key hkey
  rw [keys_payload]
  by_cases hsection : key ∈ sectionKeys
  · exact List.mem_append_left _ hsection
  · rw [h.keyOrder, Entries.mem_keys_iff] at hkey
    obtain ⟨v, hv⟩ := hkey
    refine List.mem_append_right _ (Entries.mem_keys_iff.2 ⟨v, ?_⟩)
    rw [h.get?_extra hd hsection, hv]

/-- **A manifest is written as the document that it was read from.** -/
theorem written_eq (h : ReadFrom d m) (hd : d.keys.Nodup) (hm : m.payload.keys.Nodup) :
    m.written = d := by
  apply Entries.eq_of_get? hd
  · -- a section that the document lacks holds nothing, so nothing is written after its keys
    have hnone : sectionKeys.filter (fun key =>
        !m.keyOrder.contains key && (m.payload.get? key).any (!isVoid ·)) = [] := by
      apply List.filter_eq_nil_iff.2
      intro key hsection
      obtain ⟨v, hv⟩ := exists_payload m hsection
      rcases h.sections key hsection v hv with hsame | ⟨-, hvoid⟩
      · have hkey := Entries.mem_keys_of_get? hsame
        simp [h.keyOrder, hkey]
      · simp [hv, hvoid]
    rw [keys_written hm h.mem_keyOrder_of_extra (h.mem_payload_of_keyOrder hd), hnone,
      List.append_nil, h.keyOrder]
  · intro key
    rw [get?_written hm]
    by_cases hsection : key ∈ sectionKeys
    · obtain ⟨v, hv⟩ := exists_payload m hsection
      rcases h.sections key hsection v hv with hsame | ⟨habsent, hvoid⟩
      · have hkey := Entries.mem_keys_of_get? hsame
        simp [hv, hsame, h.keyOrder, hkey]
      · have hkey := Entries.get?_eq_none_iff.1 habsent
        simp [hv, habsent, h.keyOrder, hkey, hvoid]
    · rw [get?_payload_of_not_mem hsection, h.get?_extra hd hsection]
      cases hv : d.get? key with
      | none => rfl
      | some v =>
        have hkey := Entries.mem_keys_of_get? hv
        simp [h.keyOrder, hkey]

end ReadFrom

theorem written_of_ofMembers (hd : Json.SoundEntries d) (hm : ofMembers d = .ok m) : m.written = d :=
  (ReadFrom.of_ofMembers hm).written_eq hd.1 (WellFormed.of_ofMembers hd hm).nodup_payload

/-- **A document that is accepted is given back**: as a value, with the order of the keys at every
level, and as a text that is read as a manifest with the same value. Numbers that are not integers
have to survive being written and read. -/
theorem document_restored (hd : Json.SoundEntries d)
    (hfloats : ∀ x ∈ (Json.obj d).floats, x.reread = x) (hm : ofMembers d = .ok m) :
    m.toJson = .obj d ∧ ∃ m', ofText m.toText = .ok m' ∧ m'.toJson = .obj d := by
  have hvalue : m.toJson = .obj d := by
    rw [toJson_eq, written_of_ofMembers hd hm]
  have hparse : Json.parseCommented m.toText = .ok (.obj d) := by
    rw [toText, hvalue, Json.parseCommented_toFile (Json.sound_obj.2 hd),
      Json.reread_of_floats (.obj d) hfloats]
  refine ⟨hvalue, m, ?_, hvalue⟩
  rw [ofText, hparse]
  simp only [hm]
  rfl

/-- A document with sections of every form, comment marks in a string, a key like the name of a
field, a string that is no text, and a number that is not an integer. -/
def mixedDocument : Entries Json Wide :=
  [("name", .str "demo // /* */"), ("author", .str (.half "" ⟨0xDC00, by decide⟩ "//")),
   ("lint_staged", .arr []), ("config", .null),
   ("devDependencies", .obj [("vite", .str "^5"), ("eslint", .str "~9")]),
   ("lint-staged", .obj [("*.ts", .arr [.str "eslint", .str "tsc"]), ("*.css", .str "prettier")]),
   ("weight", .float (.finite false 6755399441055744 (-52))), ("scripts", .obj [])]

theorem sound_mixedDocument : Json.SoundEntries mixedDocument := by
  have hweight : Binary64.Fits (.finite false 6755399441055744 (-52)) := .finite _ _ _ (by decide)
  refine Json.sound_obj.1 ?_
  simp [mixedDocument, Json.Sound, Json.SoundMembers, Json.SoundItems, Entries.keys, hweight]

theorem document_restored_mixed : ∃ m, ofMembers mixedDocument = .ok m ∧
    m.toJson = .obj mixedDocument ∧
    ∃ m', ofText m.toText = .ok m' ∧ m'.toJson = .obj mixedDocument := by
  obtain ⟨m, hm⟩ : ∃ m, ofMembers mixedDocument = .ok m := ⟨_, rfl⟩
  exact ⟨m, hm, document_restored sound_mixedDocument (by decide +kernel) hm⟩

end Scaffold.Manifest
