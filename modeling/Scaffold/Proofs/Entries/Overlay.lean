import Scaffold.Proofs.Entries

/-!
# Overlays

A map written over another one, said without the order of the writes: old keys keep their positions,
new ones follow, and where both maps have a value the new one counts.

* **One result.** The keys and values of an overlay are given, so there is only one.
* **Overlays compose.** Writing two maps one after the other is writing the overlay of the two.
-/

namespace Scaffold.Entries

variable {α β κ : Type} [DecidableEq κ] {old new mid r r' a b c : Entries α κ} {k : κ} {v : α}

/-- The map `r` is `old` with the entries of `new` written over it. -/
structure Overlaid (old new r : Entries α κ) : Prop where
  /-- old keys keep their positions, and new ones follow in their own order -/
  keys : r.keys = old.keys ++ new.keys.filter fun k => !old.keys.contains k
  /-- a new value counts before an old one -/
  value (k : κ) : r.get? k = (new.get? k).or (old.get? k)

namespace Overlaid

/-- Writing one entry after another gives an overlay. -/
theorem insertAll (hnew : new.keys.Nodup) (old : Entries α κ) :
    Overlaid old new (Entries.insertAll old new) :=
  ⟨keys_insertAll hnew, get?_insertAll hnew⟩

theorem nodup_keys (h : Overlaid old new r) (hold : old.keys.Nodup) (hnew : new.keys.Nodup) :
    r.keys.Nodup := by
  rw [h.keys]
  refine List.nodup_append.2 ⟨hold, hnew.filter _, ?_⟩
  -- a key that follows is none of the old ones
  rintro k hk _ hk' rfl
  simp [hk] at hk'

/-- **There is only one overlay.** -/
theorem unique (h : Overlaid old new r) (h' : Overlaid old new r') (hold : old.keys.Nodup)
    (hnew : new.keys.Nodup) : r' = r := by
  apply eq_of_get? (h.nodup_keys hold hnew)
  · rw [h.keys, h'.keys]
  · intro k
    rw [h.value, h'.value]

theorem nil_right (old : Entries α κ) : Overlaid old [] old where
  keys := by simp [Entries.keys]
  value _ := rfl

theorem nil_left (new : Entries α κ) : Overlaid [] new new where
  keys := by simp [Entries.keys]
  value k := by rw [get?_nil, Option.or_none]

theorem map (f : α → β) (h : Overlaid old new r) :
    Overlaid (old.map fun (key, v) => (key, f v)) (new.map fun (key, v) => (key, f v))
      (r.map fun (key, v) => (key, f v)) where
  keys := by
    rw [keys_map, keys_map, keys_map, h.keys]
  value k := by
    rw [get?_map, get?_map, get?_map, h.value, Option.map_or]

/-- An overlay under other names for the keys. -/
theorem rename {κ' : Type} [DecidableEq κ'] {f : κ → κ'} (hf : Function.Injective f)
    (h : Overlaid old new r) :
    Overlaid (old.map fun (key, v) => (f key, v)) (new.map fun (key, v) => (f key, v))
      (r.map fun (key, v) => (f key, v)) where
  keys := by
    rw [keys_rename, keys_rename, keys_rename, h.keys, List.map_append, List.filter_map]
    simp [Function.comp_def, hf.eq_iff]
  value k := by
    by_cases hk : ∃ key, f key = k
    · obtain ⟨k, rfl⟩ := hk
      rw [get?_rename hf, get?_rename hf, get?_rename hf, h.value]
    · -- what is no name of a key has no value in any of the three
      have hnone (m : Entries α κ) : get? k (m.map fun (key, v) => (f key, v)) = none := by
        rw [get?_eq_none_iff, keys_rename]
        intro hmem
        obtain ⟨key, -, hkey⟩ := List.mem_map.1 hmem
        exact hk ⟨key, hkey⟩
      rw [hnone, hnone, hnone]
      rfl

/-- **Overlays compose.** -/
theorem trans (hfirst : Overlaid old a mid) (hsecond : Overlaid mid b r) (hboth : Overlaid a b c) :
    Overlaid old c r where
  keys := by
    -- a key of `b` is new after the first overlay if it is neither one of `a` nor an old one
    have hfresh : b.keys.filter (fun k => !mid.keys.contains k) =
        (b.keys.filter fun k => !a.keys.contains k).filter fun k => !old.keys.contains k := by
      rw [List.filter_filter]
      apply List.filter_congr
      intro k _
      rw [hfirst.keys, Bool.eq_iff_iff]
      simp only [List.contains_eq_mem, List.mem_append, List.mem_filter, Bool.not_eq_true',
        decide_eq_false_iff_not, Bool.and_eq_true]
      tauto
    rw [hsecond.keys, hfresh, hfirst.keys, hboth.keys, List.filter_append, List.append_assoc]
  value k := by
    rw [hsecond.value, hfirst.value, hboth.value, Option.or_assoc]

/-- An overlay is empty where both maps are. -/
theorem eq_nil_iff (h : Overlaid old new r) : r = [] ↔ old = [] ∧ new = [] := by
  have hkeys : r = [] ↔ r.keys = [] := List.map_eq_nil_iff.symm
  rw [hkeys, h.keys, List.append_eq_nil_iff]
  constructor
  · rintro ⟨hold, hnew⟩
    rw [hold] at hnew
    refine ⟨List.map_eq_nil_iff.1 hold, ?_⟩
    cases new with
    | nil => rfl
    | cons e new => simp [Entries.keys] at hnew
  · rintro ⟨rfl, rfl⟩
    exact ⟨rfl, rfl⟩

/-- A key that has the value already. -/
theorem known (h : old.get? k = some v) : Overlaid old [(k, v)] old where
  keys := by
    have hmem : old.keys.contains k = true := List.contains_iff_mem.2 (mem_keys_of_get? h)
    change old.keys = old.keys ++ List.filter _ [k]
    rw [List.filter_cons_of_neg (by simpa using hmem), List.filter_nil, List.append_nil]
  value other := by
    rw [get?]
    split
    · rename_i hk
      subst hk
      exact h
    · rfl

/-- A key that has no value yet. -/
theorem fresh (h : old.get? k = none) (v : α) : Overlaid old [(k, v)] (old ++ [(k, v)]) where
  keys := by
    have hmem := get?_eq_none_iff.1 h
    have hkept : List.filter (fun key => !old.keys.contains key) [k] = [k] := by
      simpa using hmem
    change (old ++ [(k, v)]).map Prod.fst = old.keys ++ List.filter _ [k]
    rw [hkept, List.map_append]
    rfl
  value other := by
    rw [get?_append, get?]
    split
    · rename_i hk
      subst hk
      rw [h]
      rfl
    · rw [get?_nil, Option.or_none]
      rfl

/-- Writing a first entry and then the others. -/
theorem cons (hfirst : Overlaid old [(k, v)] mid) (hmore : Overlaid mid new r) (hk : k ∉ new.keys) :
    Overlaid old ((k, v) :: new) r := by
  -- the list of all entries is the overlay of its head and its tail
  refine hfirst.trans hmore ⟨?_, fun other => ?_⟩
  · have hkept : new.keys.filter (fun key => !(Entries.keys [(k, v)]).contains key) = new.keys := by
      apply List.filter_eq_self.2
      intro key hkey
      have hne : key ≠ k := by
        rintro rfl
        exact hk hkey
      simpa [Entries.keys] using hne
    rw [hkept]
    rfl
  · by_cases hother : k = other
    · subst hother
      simp [get?, get?_eq_none_iff.2 hk]
    · simp [get?, hother]

end Overlaid

end Scaffold.Entries
