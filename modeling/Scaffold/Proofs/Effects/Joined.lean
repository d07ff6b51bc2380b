import Scaffold.Proofs.Effects.Ledger
import Scaffold.Proofs.Entries.Overlay

/-!
# Joined effects

What the merged effects hold that go into the manifest, after one more feature was merged.

* **Joining** leaves the order of merging open: the keyed sections are overlays of what was merged
  before and what the feature declares, and the names of packages are those of both.
* **Merging joins.** A ledger that accepts a feature joins its effects. Scripts and commands agree
  with earlier ones if they are equal; settings may agree without being equal, so that two features
  mean the same setting is an assumption (`Alike`).
-/

namespace Scaffold

namespace Effects

/-- Effects as they are given: in maps, which hold each key once. -/
structure Keyed (e : Effects) : Prop where
  /-- the scripts have different names -/
  scripts : e.scripts.keys.Nodup
  /-- the commands have different patterns -/
  lintStaged : e.lintStaged.keys.Nodup
  /-- the settings are of different tools -/
  packageConfig : e.packageConfig.keys.Nodup

/-- Settings of a tool that both declare are the same value. -/
def Alike (e e' : Effects) : Prop :=
  ∀ k v v', e.packageConfig.get? k = some v → e'.packageConfig.get? k = some v' → v = v'

/-- The effects `b` are what `a` and `e` ask for of the manifest together. -/
structure Joined (a e b : Effects) : Prop where
  /-- the scripts of both -/
  scripts : Entries.Overlaid a.scripts e.scripts b.scripts
  /-- the commands of both -/
  lintStaged : Entries.Overlaid a.lintStaged e.lintStaged b.lintStaged
  /-- the settings of both -/
  packageConfig : Entries.Overlaid a.packageConfig e.packageConfig b.packageConfig
  /-- the packages of both -/
  dependencies (name : String) : name ∈ b.dependencies ↔ name ∈ a.dependencies ∨ name ∈ e.dependencies
  /-- the packages for development of both -/
  devDependencies (name : String) :
    name ∈ b.devDependencies ↔ name ∈ a.devDependencies ∨ name ∈ e.devDependencies

variable {a b c e : Effects}

theorem Joined.keyed (h : Joined a e b) (ha : a.Keyed) (he : e.Keyed) : b.Keyed where
  scripts := h.scripts.nodup_keys ha.scripts he.scripts
  lintStaged := h.lintStaged.nodup_keys ha.lintStaged he.lintStaged
  packageConfig := h.packageConfig.nodup_keys ha.packageConfig he.packageConfig

theorem Joined.alike (h : Joined a e b) (ha : Alike a c) (he : Alike e c) : Alike b c := by
  intro k v v' hv hv'
  rw [h.packageConfig.value, Option.or_eq_some_iff] at hv
  rcases hv with hv | ⟨-, hv⟩
  · exact he k v v' hv hv'
  · exact ha k v v' hv hv'

theorem keyed_empty : ({} : Effects).Keyed := ⟨List.nodup_nil, List.nodup_nil, List.nodup_nil⟩

theorem alike_empty (e : Effects) : Alike {} e := fun _ _ _ h => nomatch h

end Effects

/-! ## Sections -/

namespace OwnedEntries

variable {α : Type} {agree : α → α → Bool} {feature : String} {m m' : OwnedEntries α}
  {new : Entries α}

/-- **A section that is merged without a refusal** is overlaid with what was declared, if values that
agree are equal. -/
theorem overlaid_merge (h : merge agree feature m new = (m', none)) (hnew : new.keys.Nodup)
    (hagree : ∀ k v v', m.values.get? k = some v → Entries.get? k new = some v' → agree v v' = true → v = v') :
    Entries.Overlaid m.values new m'.values := by
  induction new generalizing m with
  | nil =>
    cases h
    exact .nil_right _
  | cons e new ih =>
    obtain ⟨key, value⟩ := e
    obtain ⟨hfresh, hnodup⟩ := List.nodup_cons.1 hnew
    -- a key is declared once
    have hne {k : String} {v' : α} (hv' : Entries.get? k new = some v') : ¬ key = k := by
      rintro rfl
      exact hfresh (Entries.mem_keys_of_get? hv')
    rw [merge] at h
    split at h
    · cases h
    rename_i hrefusal
    have hfirst : Entries.Overlaid m.values [(key, value)] (m.claim feature key value).values := by
      rw [claim, Entries.insertNew, Entries.contains]
      cases hvalue : m.values.get? key with
      | none => exact .fresh hvalue value
      | some first =>
        -- the key has the value already
        obtain rfl : first = value := hagree key first value hvalue
          (by rw [Entries.get?, if_pos rfl]) (refusal?_eq_none_iff.1 hrefusal first hvalue)
        exact .known hvalue
    refine hfirst.cons (ih h hnodup fun k v v' hv hv' => ?_) hfresh
    rw [hfirst.value, Entries.get?, if_neg (hne hv')] at hv
    exact hagree k v v' hv (by rw [Entries.get?, if_neg (hne hv'), hv'])

end OwnedEntries

/-! ## Ledgers -/

namespace Ledger

variable {a b : Ledger} {feature : String} {e : Effects} {events : List Event}
  {results : List (String × Effects)}

theorem mem_includeNames (names new : List String) (name : String) :
    name ∈ includeNames names new ↔ name ∈ names ∨ name ∈ new := by
  unfold includeNames
  induction new generalizing names with
  | nil => simp
  | cons first new ih =>
    rw [List.foldl_cons, ih]
    split
    · rename_i hfirst
      have hmem : first ∈ names := by simpa using hfirst
      constructor
      · rintro (h | h)
        · exact .inl h
        · exact .inr (.tail _ h)
      · rintro (h | h)
        · exact .inl h
        · rcases List.mem_cons.1 h with rfl | h
          · exact .inl hmem
          · exact .inr h
    · simp [or_assoc]

/-- The keyed sections are merged one after another, each without a refusal. -/
theorem mergeSections_none (h : a.mergeSections feature e = (b, none)) :
    ∃ scripts lintStaged packageConfig,
      a.scripts.merge (· == ·) feature e.scripts = (scripts, none) ∧
      a.lintStaged.merge (· == ·) feature e.lintStaged = (lintStaged, none) ∧
      a.packageConfig.merge Json.agrees feature e.packageConfig = (packageConfig, none) ∧
      b = { a with scripts, lintStaged, packageConfig } := by
  unfold mergeSections at h
  rcases hscripts : a.scripts.merge (· == ·) feature e.scripts with ⟨scripts, _ | c⟩
  · simp only [hscripts] at h
    rcases hlintStaged : a.lintStaged.merge (· == ·) feature e.lintStaged with ⟨lintStaged, _ | c⟩
    · simp only [hlintStaged] at h
      rcases hconfig : a.packageConfig.merge Json.agrees feature e.packageConfig with
        ⟨packageConfig, _ | c⟩
      · simp only [hconfig] at h
        cases h
        exact ⟨scripts, lintStaged, packageConfig, rfl, rfl, rfl, rfl⟩
      · simp only [hconfig] at h
        cases h
    · simp only [hlintStaged] at h
      cases h
  · simp only [hscripts] at h
    cases h

/-- **A ledger that accepts a feature joins its effects.** -/
theorem joined_of_record (h : a.record feature e = (b, .ok events)) (he : e.Keyed)
    (halike : Effects.Alike a.total.toEffects e) :
    Effects.Joined a.total.toEffects e b.total.toEffects := by
  unfold record at h
  split at h
  · cases h
  · rename_i merged hmerged
    obtain ⟨scripts, lintStaged, packageConfig, hscripts, hlintStaged, hconfig, rfl⟩ :=
      mergeSections_none hmerged
    cases h
    exact {
      scripts := OwnedEntries.overlaid_merge hscripts he.scripts fun _ _ _ _ _ => eq_of_beq
      lintStaged := OwnedEntries.overlaid_merge hlintStaged he.lintStaged fun _ _ _ _ _ => eq_of_beq
      packageConfig := OwnedEntries.overlaid_merge hconfig he.packageConfig
        fun k v v' hv hv' _ => halike k v v' hv hv'
      dependencies := mem_includeNames _ _
      devDependencies := mem_includeNames _ _ }

/-- Merges the effects of several features, one after another. -/
def recordAll (a : Ledger) : List (String × Effects) → Except Failure Ledger
  | [] => .ok a
  | (feature, e) :: rest =>
    match a.record feature e with
    | (b, .ok _) => b.recordAll rest
    | (_, .error failure) => .error failure

end Ledger

end Scaffold
