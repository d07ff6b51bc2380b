import Scaffold.Proofs.Effects.Collisions

/-!
# Calls in another order

What the order of the features has a say in when their effects are merged: the order of what is
listed, and which of several loosely equal values is held.

* **What is gathered** is known from the calls without a ledger: the lists are the concatenations, the
  names of packages are those of all calls, and no name and no key occurs twice.
* **Compatibility is symmetric.** So calls that are merged in one order are merged in all.
* **Held values** of two orders are loosely equal, since each is declared in both.
-/

namespace Scaffold

/-- Two lists of entries that are the same map: the order is open, and each key occurs once. -/
structure Entries.SameMap {α : Type} (m m' : Entries α) : Prop where
  /-- no key occurs twice -/
  nodup_keys : m.keys.Nodup
  /-- the entries are the same -/
  perm : m.Perm m'

/-- The same effects in another order, apart from the settings. -/
structure MergedEffects.Rearranged (e e' : MergedEffects) : Prop where
  /-- the same features -/
  features : e.features.Perm e'.features
  /-- the same packages -/
  dependencies : e.dependencies.Perm e'.dependencies
  /-- the same packages for development -/
  devDependencies : e.devDependencies.Perm e'.devDependencies
  /-- the same import lines, each as often -/
  imports : e.imports.Perm e'.imports
  /-- the same calls, each as often -/
  useCalls : e.useCalls.Perm e'.useCalls
  /-- the same scripts -/
  scripts : e.scripts.SameMap e'.scripts
  /-- the same commands on changed files -/
  lintStaged : e.lintStaged.SameMap e'.lintStaged

theorem Effects.Compatible.symm {e e' : Effects} (h : e.Compatible Json.LooselyEqual e') :
    e'.Compatible Json.LooselyEqual e :=
  fun s k v w hv hw => (h s k w v hw hv).symm

theorem OwnedEntries.nodup_keys_merge {α : Type} {agree : α → α → Bool} {feature : String}
    {m : OwnedEntries α} {new : Entries α} (h : m.values.keys.Nodup) :
    (merge agree feature m new).1.values.keys.Nodup := by
  induction new generalizing m with
  | nil => exact h
  | cons e new ih =>
    rw [merge]
    split
    · exact h
    · exact ih (Entries.nodup_keys_insertNew h)

namespace Ledger

variable {a a' b : Ledger} {feature : String} {e : Effects} {events : List Event}
  {calls calls' : List (String × Effects)} {s : Section} {k : String} {v : Json}

/-! ## What is gathered -/

/-- A ledger holds the lists of the calls, each name and each key once. -/
structure Gathers (calls : List (String × Effects)) (a : Ledger) : Prop where
  /-- the features are those of the calls -/
  features : a.features = calls.map Prod.fst
  /-- the import lines are those of the calls -/
  imports : a.imports = calls.flatMap (·.2.imports)
  /-- the calls on the application are those of the calls -/
  useCalls : a.useCalls = calls.flatMap (·.2.useCalls)
  /-- the packages are those of the calls -/
  mem_dependencies (name : String) :
    name ∈ a.dependencies ↔ ∃ call ∈ calls, name ∈ call.2.dependencies
  /-- the packages for development are those of the calls -/
  mem_devDependencies (name : String) :
    name ∈ a.devDependencies ↔ ∃ call ∈ calls, name ∈ call.2.devDependencies
  /-- no package is listed twice -/
  nodup_dependencies : a.dependencies.Nodup
  /-- no package for development is listed twice -/
  nodup_devDependencies : a.devDependencies.Nodup
  /-- no key occurs twice -/
  nodup_keys (s : Section) : (a.part s).values.keys.Nodup

theorem nodup_includeNames {names : List String} (h : names.Nodup) (new : List String) :
    (includeNames names new).Nodup := by
  unfold includeNames
  induction new generalizing names with
  | nil => exact h
  | cons name new ih =>
    rw [List.foldl_cons]
    refine ih ?_
    split
    · exact h
    · rename_i hname
      exact Entries.nodup_append_of_not_mem h (by simpa using hname)

theorem gathers_empty : Gathers [] {} where
  features := rfl
  imports := rfl
  useCalls := rfl
  mem_dependencies _ := by simp
  mem_devDependencies _ := by simp
  nodup_dependencies := .nil
  nodup_devDependencies := .nil
  nodup_keys s := by cases s <;> exact .nil

/-- What a call that does not fail adds to the lists. -/
theorem lists_of_record_ok (h : a.record feature e = (b, .ok events)) :
    b.features = a.features ++ [feature] ∧
      b.dependencies = includeNames a.dependencies e.dependencies ∧
      b.devDependencies = includeNames a.devDependencies e.devDependencies := by
  rw [record] at h
  rcases hmerged : a.mergeSections feature e with ⟨c, _ | failure⟩
  · have hrest := (mergeSections_merged hmerged).1
    rw [hmerged] at h
    cases h
    exact ⟨by rw [hrest.features], by rw [hrest.dependencies], by rw [hrest.devDependencies]⟩
  · rw [hmerged] at h
    cases h

theorem Gathers.record (h : Gathers calls a) (hrecord : a.record feature e = (b, .ok events)) :
    Gathers (calls ++ [(feature, e)]) b := by
  obtain ⟨hfeatures, hdependencies, hdevDependencies⟩ := lists_of_record_ok hrecord
  obtain ⟨himports, huseCalls, -⟩ := record_ok hrecord
  exact {
    features := by rw [hfeatures, h.features, List.map_append]; rfl
    imports := by rw [himports, h.imports, List.flatMap_append]; simp
    useCalls := by rw [huseCalls, h.useCalls, List.flatMap_append]; simp
    mem_dependencies := fun name => by
      rw [hdependencies, mem_includeNames, h.mem_dependencies]
      simp [or_and_right, exists_or]
    mem_devDependencies := fun name => by
      rw [hdevDependencies, mem_includeNames, h.mem_devDependencies]
      simp [or_and_right, exists_or]
    nodup_dependencies := hdependencies ▸ nodup_includeNames h.nodup_dependencies _
    nodup_devDependencies := hdevDependencies ▸ nodup_includeNames h.nodup_devDependencies _
    nodup_keys := fun s => by
      have hpart : (a.extended feature e s).1 = b.part s := by rw [extended_of_record_ok hrecord]
      exact hpart ▸ OwnedEntries.nodup_keys_merge (h.nodup_keys s) }

/-- **What a ledger gathers** from calls that do not fail. -/
theorem gathers_of_recordAll (h : recordAll {} calls = .ok a) : Gathers calls a := by
  induction calls using List.reverseRecOn generalizing a with
  | nil =>
    cases h
    exact gathers_empty
  | append_singleton calls call ih =>
    obtain ⟨feature, e⟩ := call
    obtain ⟨b, events, hb, hrecord⟩ := recordAll_concat_eq_ok.1 h
    exact (ih hb).record hrecord

/-! ## Collisions -/

theorem Consistent.perm (h : calls.Perm calls') :
    Consistent Json.LooselyEqual calls ↔ Consistent Json.LooselyEqual calls' :=
  h.pairwise_iff Effects.Compatible.symm

/-- Calls that are merged in one order are merged in every order. -/
theorem exists_recordAll_of_perm (hperm : calls.Perm calls')
    (hcalls : ∀ call ∈ calls, call.2.Regular) (h : recordAll {} calls = .ok a) :
    ∃ a', recordAll {} calls' = .ok a' := by
  have hcalls' : ∀ call ∈ calls', call.2.Regular :=
    fun call hcall => hcalls call (hperm.mem_iff.2 hcall)
  rw [recordAll_iff_consistent hcalls', ← Consistent.perm hperm, ← recordAll_iff_consistent hcalls]
  exact ⟨a, h⟩

/-- Calls that are not all merged end in a collision. -/
theorem disagreement_of_recordAll (hcalls : ∀ call ∈ calls, call.2.Regular) {failure : Failure}
    (h : recordAll {} calls = .error failure) : ∃ clash, failure = .disagreement clash := by
  have hnot : ¬ Consistent Json.LooselyEqual calls := by
    intro hconsistent
    obtain ⟨a, ha⟩ := (recordAll_iff_consistent hcalls).2 hconsistent
    rw [ha] at h
    cases h
  obtain ⟨before, feature, e, after, rfl, hbefore, hfirst⟩ := exists_first_not_compatible hnot
  obtain ⟨a, b, clash, ha, hrecord⟩ := (detects_looselyEqual hcalls).refused rfl hbefore hfirst
  rw [recordAll_append, ha] at h
  change a.recordAll ((feature, e) :: after) = _ at h
  rw [recordAll, hrecord] at h
  cases h
  exact ⟨clash, rfl⟩

/-! ## Held values -/

/-- A value that one order holds is loosely equal to one that the other order holds. -/
theorem exists_held (hperm : calls.Perm calls') (h : Holds calls a) (h' : Holds calls' a')
    (hv : (a.part s).values.get? k = some v) :
    ∃ w, (a'.part s).values.get? k = some w ∧ Json.LooselyEqual w v := by
  obtain ⟨call, hcall, hdeclared⟩ := h.declared hv
  exact h'.held (hperm.mem_iff.1 hcall) hdeclared

theorem mem_keys_of_held (hperm : calls.Perm calls') (h : Holds calls a) (h' : Holds calls' a')
    (hk : k ∈ (a.part s).values.keys) : k ∈ (a'.part s).values.keys := by
  obtain ⟨v, hv⟩ := Entries.mem_keys_iff.1 hk
  obtain ⟨w, hw, -⟩ := exists_held hperm h h' hv
  exact Entries.mem_keys_of_get? hw

theorem str_of_looselyEqual {text : String} (h : Json.LooselyEqual v (.str text)) :
    v = .str text := by
  cases h with
  | str => rfl
  | number _ hb => cases hb

/-- A text that one order holds is held by the other order. -/
theorem get?_text_of_held {m m' : OwnedEntries String} {text : String} (hperm : calls.Perm calls')
    (h : Holds calls a) (h' : Holds calls' a') (hm : a.part s = m.map fun s : String => .str s)
    (hm' : a'.part s = m'.map fun s : String => .str s) (htext : m.values.get? k = some text) :
    m'.values.get? k = some text := by
  have hv : (a.part s).values.get? k = some (.str text) := by
    rw [hm, OwnedEntries.get?_values_map, htext]
    rfl
  obtain ⟨w, hw, hloose⟩ := exists_held hperm h h' hv
  rw [str_of_looselyEqual hloose, hm', OwnedEntries.get?_values_map, Option.map_eq_some_iff] at hw
  obtain ⟨text', htext', heq⟩ := hw
  cases heq
  exact htext'

theorem sameMap_texts {m m' : OwnedEntries String} (s : Section)
    (hm : a.part s = m.map fun s : String => .str s)
    (hm' : a'.part s = m'.map fun s : String => .str s) (hperm : calls.Perm calls') (h : Gathers calls a)
    (h' : Gathers calls' a') (hholds : Holds calls a) (hholds' : Holds calls' a') :
    m.values.SameMap m'.values := by
  have hkeys := h.nodup_keys s
  have hkeys' := h'.nodup_keys s
  rw [hm, OwnedEntries.keys_values_map] at hkeys
  rw [hm', OwnedEntries.keys_values_map] at hkeys'
  refine ⟨hkeys, Entries.perm_of_get? hkeys hkeys' fun k => ?_⟩
  ext text
  constructor
  · exact get?_text_of_held hperm.symm hholds' hholds hm' hm
  · exact get?_text_of_held hperm hholds hholds' hm hm'

/-- The names that two orders list are the same, each listed once. -/
theorem perm_names {names names' : List String} {asked : Effects → List String}
    (hperm : calls.Perm calls') (h : names.Nodup) (h' : names'.Nodup)
    (hmem : ∀ name, name ∈ names ↔ ∃ call ∈ calls, name ∈ asked call.2)
    (hmem' : ∀ name, name ∈ names' ↔ ∃ call ∈ calls', name ∈ asked call.2) :
    names.Perm names' := by
  refine (List.perm_ext_iff_of_nodup h h').2 fun name => ?_
  rw [hmem, hmem']
  simp only [hperm.mem_iff]

theorem Holds.regular (h : Holds calls a) (hcalls : ∀ call ∈ calls, call.2.Regular)
    (hv : (a.part s).values.get? k = some v) : v.Regular := by
  obtain ⟨call, hcall, hdeclared⟩ := h.declared hv
  exact (hcalls call hcall).declared hdeclared

theorem same_config (hperm : calls.Perm calls') (hcalls : ∀ call ∈ calls, call.2.Regular)
    (h : Gathers calls a) (h' : Gathers calls' a') (hholds : Holds calls a)
    (hholds' : Holds calls' a') :
    Json.same (.obj a.packageConfig.values.textKeys) (.obj a'.packageConfig.values.textKeys) =
      true := by
  have hcalls' : ∀ call ∈ calls', call.2.Regular :=
    fun call hcall => hcalls call (hperm.mem_iff.2 hcall)
  apply Json.same_obj_textKeys (h.nodup_keys .config) (h'.nodup_keys .config)
  · intro k
    exact ⟨mem_keys_of_held (s := .config) hperm hholds hholds',
      mem_keys_of_held (s := .config) hperm.symm hholds' hholds⟩
  · intro k v w hv hw
    have hregular : v.Regular := hholds.regular (s := .config) hcalls hv
    have hregular' : w.Regular := hholds'.regular (s := .config) hcalls' hw
    apply (Json.same_iff hregular hregular').2
    obtain ⟨w', hw', hloose⟩ := exists_held (s := .config) hperm hholds hholds' hv
    obtain rfl : w = w' := Option.some.inj (hw.symm.trans hw')
    exact hloose.symm

/-- A setting that no two calls declare differently is held by the other order too. -/
theorem get?_config_of_held (hperm : calls.Perm calls') (h : Holds calls a) (h' : Holds calls' a')
    (halike : ∀ call ∈ calls, ∀ other ∈ calls, Effects.Alike call.2 other.2)
    (hv : a.packageConfig.values.get? k = some v) : a'.packageConfig.values.get? k = some v := by
  obtain ⟨call, hcall, hdeclared⟩ := h.declared (s := .config) hv
  obtain ⟨w, hw, -⟩ := exists_held (s := .config) hperm h h' hv
  obtain ⟨other, hother, hdeclared'⟩ := h'.declared (s := .config) hw
  rw [halike call hcall other (hperm.mem_iff.2 hother) k v w hdeclared hdeclared']
  exact hw

/-- **The order of the features** decides on nothing but the order of what is listed and the spelling
of settings. -/
theorem rearranged_of_recordAll (hperm : calls.Perm calls')
    (hcalls : ∀ call ∈ calls, call.2.Regular) (h : recordAll {} calls = .ok a)
    (h' : recordAll {} calls' = .ok a') :
    a.total.Rearranged a'.total ∧
      Json.same (.obj a.total.packageConfig.textKeys) (.obj a'.total.packageConfig.textKeys) =
        true := by
  have hcalls' : ∀ call ∈ calls', call.2.Regular :=
    fun call hcall => hcalls call (hperm.mem_iff.2 hcall)
  have hgathers := gathers_of_recordAll h
  have hgathers' := gathers_of_recordAll h'
  have hholds := holds_of_recordAll hcalls h
  have hholds' := holds_of_recordAll hcalls' h'
  refine ⟨?_, same_config hperm hcalls hgathers hgathers' hholds hholds'⟩
  exact {
    features := by
      rw [total, total, hgathers.features, hgathers'.features]
      exact hperm.map Prod.fst
    dependencies := perm_names hperm hgathers.nodup_dependencies hgathers'.nodup_dependencies
      hgathers.mem_dependencies hgathers'.mem_dependencies
    devDependencies := perm_names hperm hgathers.nodup_devDependencies
      hgathers'.nodup_devDependencies hgathers.mem_devDependencies hgathers'.mem_devDependencies
    imports := by
      rw [total, total, hgathers.imports, hgathers'.imports]
      exact hperm.flatMap_right _
    useCalls := by
      rw [total, total, hgathers.useCalls, hgathers'.useCalls]
      exact hperm.flatMap_right _
    scripts := sameMap_texts .scripts rfl rfl hperm hgathers hgathers' hholds hholds'
    lintStaged := sameMap_texts .lintStaged rfl rfl hperm hgathers hgathers' hholds hholds' }

/-- Where no two features declare a setting differently, the settings are the same map. -/
theorem sameMap_config (hperm : calls.Perm calls') (hcalls : ∀ call ∈ calls, call.2.Regular)
    (halike : ∀ call ∈ calls, ∀ other ∈ calls, Effects.Alike call.2 other.2)
    (h : recordAll {} calls = .ok a) (h' : recordAll {} calls' = .ok a') :
    a.total.packageConfig.SameMap a'.total.packageConfig := by
  have hcalls' : ∀ call ∈ calls', call.2.Regular :=
    fun call hcall => hcalls call (hperm.mem_iff.2 hcall)
  have halike' : ∀ call ∈ calls', ∀ other ∈ calls', Effects.Alike call.2 other.2 :=
    fun call hcall other hother =>
      halike call (hperm.mem_iff.2 hcall) other (hperm.mem_iff.2 hother)
  have hholds := holds_of_recordAll hcalls h
  have hholds' := holds_of_recordAll hcalls' h'
  have hkeys := (gathers_of_recordAll h).nodup_keys .config
  refine ⟨hkeys, Entries.perm_of_get? hkeys ((gathers_of_recordAll h').nodup_keys .config)
    fun k => ?_⟩
  ext v
  constructor
  · exact get?_config_of_held hperm.symm hholds' hholds halike'
  · exact get?_config_of_held hperm hholds hholds' halike

end Ledger

end Scaffold
