import Scaffold.Json.Basic
import Scaffold.Proofs.Lists
import Scaffold.Proofs.Text.Wide
import Mathlib.Data.List.Nodup

/-!
# Maps whose keys occur once

Reading an object gives a map in which each key occurs once, and every operation keeps it that way.
In such a map the entries and the view `get?` say the same.
-/

namespace Scaffold.Entries

variable {α β κ : Type} [DecidableEq κ] {m m' old new : Entries α κ} {k : κ} {v : α} {e : κ × α}

/-! ## Entries and values -/

theorem mem_of_get? (h : m.get? k = some v) : (k, v) ∈ m := by
  induction m with
  | nil => simp at h
  | cons e m ih =>
    obtain ⟨k', v'⟩ := e
    rw [get?] at h
    split at h
    · rename_i hk
      cases h
      cases hk
      exact .head _
    · exact .tail _ (ih h)

theorem get?_of_mem (hkeys : m.keys.Nodup) (h : (k, v) ∈ m) : m.get? k = some v := by
  induction m with
  | nil => cases h
  | cons e m ih =>
    obtain ⟨k', v'⟩ := e
    have hnodup := List.nodup_cons.1 hkeys
    rcases List.mem_cons.1 h with h | h
    · cases h
      simp [get?]
    · have hne : k' ≠ k := by
        have hmem : k ∈ m.map Prod.fst := List.mem_map_of_mem (f := Prod.fst) h
        rintro rfl
        exact hnodup.1 hmem
      rw [get?, if_neg hne, ih hnodup.2 h]

theorem mem_keys_of_get? (h : m.get? k = some v) : k ∈ m.keys :=
  List.mem_map_of_mem (f := Prod.fst) (mem_of_get? h)

theorem contains_iff : m.contains k = true ↔ k ∈ m.keys := by
  induction m with
  | nil => simp [contains, keys]
  | cons e m ih =>
    by_cases h : e.1 = k
    · simp [contains, get?, keys, h]
    · have hne : k ≠ e.1 := fun hk => h hk.symm
      simpa [contains, get?, keys, h, hne] using ih

theorem get?_eq_none_iff : m.get? k = none ↔ k ∉ m.keys := by
  rw [← contains_iff, contains, Bool.not_eq_true, Option.isSome_eq_false_iff,
    Option.isNone_iff_eq_none]

theorem mem_keys_iff : k ∈ m.keys ↔ ∃ v, m.get? k = some v := by
  rw [← contains_iff, contains, Option.isSome_iff_exists]

omit [DecidableEq κ] in
theorem keys_map (f : α → β) (m : Entries α κ) :
    keys (m.map fun (key, a) => (key, f a)) = m.keys := by
  simp [keys, Function.comp_def]

/-! ## The view -/

theorem get?_append (m m' : Entries α κ) (k : κ) :
    get? k (m ++ m') = (m.get? k).or (m'.get? k) := by
  induction m with
  | nil => rfl
  | cons e m ih =>
    rw [List.cons_append, get?, get?]
    split
    · rfl
    · exact ih

theorem get?_map (f : α → β) (m : Entries α κ) (k : κ) :
    get? k (m.map fun (key, a) => (key, f a)) = (m.get? k).map f := by
  induction m with
  | nil => rfl
  | cons e m ih =>
    rw [List.map_cons, get?, get?]
    split
    · rfl
    · exact ih

omit [DecidableEq κ] in
theorem keys_rename {κ' : Type} (f : κ → κ') (m : Entries α κ) :
    keys (m.map fun (key, a) => (f key, a)) = m.keys.map f := by
  simp [keys, Function.comp_def]

theorem get?_rename {κ' : Type} [DecidableEq κ'] {f : κ → κ'} (hf : Function.Injective f)
    (m : Entries α κ) (k : κ) : get? (f k) (m.map fun (key, a) => (f key, a)) = m.get? k := by
  induction m with
  | nil => rfl
  | cons e m ih => simp only [List.map_cons, get?, hf.eq_iff, ih]

theorem get?_filter (hm : m.keys.Nodup) (p : κ × α → Bool) (k : κ) :
    get? k (m.filter p) = (m.get? k).filter fun v => p (k, v) := by
  induction m with
  | nil => rfl
  | cons e m ih =>
    obtain ⟨hfresh, hnodup⟩ := List.nodup_cons.1 hm
    have hrest := ih hnodup
    by_cases hk : e.1 = k
    · -- behind the entry of a key there is no other one
      subst hk
      rw [get?_eq_none_iff.2 hfresh] at hrest
      by_cases hp : p e <;> simp [get?, Option.filter, hp, hrest]
    · by_cases hp : p e <;> simp [get?, hp, hk, hrest]

theorem keys_filter (hm : m.keys.Nodup) (p : κ × α → Bool) :
    keys (m.filter p) = m.keys.filter fun k => (m.get? k).any fun v => p (k, v) := by
  have hview : ∀ e ∈ m, p e = (m.get? e.1).any fun v => p (e.1, v) := by
    intro e he
    rw [get?_of_mem hm he]
    rfl
  rw [keys, List.filter_congr hview, keys, List.filter_map]
  rfl

theorem get?_of_perm (hm : m.keys.Nodup) (h : m.Perm m') (k : κ) : m'.get? k = m.get? k := by
  have hm' : m'.keys.Nodup := (h.map Prod.fst).nodup_iff.1 hm
  ext v
  constructor
  · intro hv
    exact get?_of_mem hm (h.mem_iff.2 (mem_of_get? hv))
  · intro hv
    exact get?_of_mem hm' (h.mem_iff.1 (mem_of_get? hv))

/-- **The keys and the view of a map determine it.** -/
theorem eq_of_get? (hm : m.keys.Nodup) (hkeys : m'.keys = m.keys)
    (hget : ∀ k, m'.get? k = m.get? k) : m' = m := by
  induction m generalizing m' with
  | nil => exact List.map_eq_nil_iff.1 hkeys
  | cons e m ih =>
    obtain ⟨e', m', rfl⟩ : ∃ e' tail, m' = e' :: tail := by
      cases m' with
      | nil => cases hkeys
      | cons e' tail => exact ⟨e', tail, rfl⟩
    obtain ⟨hfirst, htail⟩ := List.cons.inj hkeys
    obtain ⟨hfresh, hnodup⟩ := List.nodup_cons.1 hm
    have hvalue : e'.2 = e.2 := by
      have h := hget e.1
      rw [get?, get?, if_pos hfirst, if_pos rfl] at h
      exact Option.some.inj h
    have hrest (k : κ) : get? k m' = get? k m := by
      by_cases hk : e.1 = k
      · subst hk
        have hfresh' : e.1 ∉ keys m' := by
          intro hmem
          exact hfresh (htail ▸ hmem)
        rw [get?_eq_none_iff.2 hfresh, get?_eq_none_iff.2 hfresh']
      · have h := hget k
        rwa [get?, get?, if_neg hk, if_neg (hfirst ▸ hk)] at h
    rw [Prod.ext hfirst hvalue, ih hnodup htail hrest]

/-- The view of a map determines it up to the order of its entries. -/
theorem perm_of_get? (hm : m.keys.Nodup) (hm' : m'.keys.Nodup)
    (hget : ∀ k, m'.get? k = m.get? k) : m.Perm m' := by
  have hnodup {m : Entries α κ} (h : m.keys.Nodup) : m.Nodup :=
    (List.pairwise_map.1 h).imp fun hne heq => hne (congrArg Prod.fst heq)
  refine (List.perm_ext_iff_of_nodup (hnodup hm) (hnodup hm')).2 fun e =>
    ⟨fun he => ?_, fun he => ?_⟩
  · exact mem_of_get? ((hget e.1).trans (get?_of_mem hm he))
  · exact mem_of_get? ((hget e.1).symm.trans (get?_of_mem hm' he))

/-! ## Inserting -/

/-- Writing what a key has already changes nothing. -/
theorem insert_of_get? (h : m.get? k = some v) : m.insert k v = m := by
  induction m with
  | nil => simp at h
  | cons e m ih =>
    rw [get?] at h
    rw [insert]
    split at h
    · rename_i hk
      cases h
      rw [if_pos hk]
    · rename_i hk
      rw [if_neg hk, ih h]

theorem mem_insert (h : e ∈ m.insert k v) : e = (k, v) ∨ e ∈ m := by
  induction m with
  | nil => simpa [insert] using h
  | cons e' m ih =>
    rw [insert] at h
    split at h
    · rename_i hk
      rcases List.mem_cons.1 h with rfl | h
      · exact .inl (by rw [hk])
      · exact .inr (.tail _ h)
    · rcases List.mem_cons.1 h with rfl | h
      · exact .inr (.head _)
      · exact (ih h).imp_right (.tail _)

/-- A key stands behind others at its first place. -/
theorem exists_append_of_get? (h : m.get? k = some v) :
    ∃ before after : Entries α κ, k ∉ before.keys ∧ m = before ++ (k, v) :: after := by
  induction m with
  | nil => cases h
  | cons e m ih =>
    by_cases hk : e.1 = k
    · obtain ⟨k', v'⟩ := e
      cases hk
      rw [get?, if_pos rfl] at h
      cases h
      exact ⟨[], m, by simp [keys], rfl⟩
    · rw [get?, if_neg hk] at h
      obtain ⟨before, after, hbefore, rfl⟩ := ih h
      refine ⟨e :: before, after, ?_, rfl⟩
      simpa [keys, Ne.symm hk] using hbefore

/-- A key is given a value at its first place. -/
theorem insert_append_cons {before after : Entries α κ} (h : k ∉ before.keys) (v w : α) :
    (before ++ (k, v) :: after).insert k w = before ++ (k, w) :: after := by
  induction before with
  | nil => simp [insert]
  | cons e before ih =>
    simp only [keys, List.map_cons, List.mem_cons, not_or] at h
    rw [List.cons_append, insert, if_neg (Ne.symm h.1), ih h.2, List.cons_append]

omit [DecidableEq κ] in
theorem nodup_append_of_not_mem {ks : List κ} (h : ks.Nodup) (hk : k ∉ ks) :
    (ks ++ [k]).Nodup := by
  refine List.nodup_append.2 ⟨h, by simp, fun a ha b hb => ?_⟩
  rw [List.mem_singleton.1 hb]
  rintro rfl
  exact hk ha

theorem nodup_keys_insert (h : m.keys.Nodup) : (m.insert k v).keys.Nodup := by
  rw [keys_insert]
  split
  · exact h
  · exact nodup_append_of_not_mem h ‹_›

theorem nodup_keys_insertNew (h : m.keys.Nodup) : (m.insertNew k v).keys.Nodup := by
  unfold insertNew
  split
  · exact h
  · rename_i hk
    rw [contains_iff] at hk
    have := nodup_append_of_not_mem h hk
    simpa [keys] using this

theorem mem_insertAll (h : e ∈ insertAll m new) : e ∈ new ∨ e ∈ m := by
  induction new generalizing m with
  | nil => exact .inr h
  | cons e' new ih =>
    rcases ih (m := m.insert e'.1 e'.2) h with h | h
    · exact .inl (.tail _ h)
    · rcases mem_insert h with rfl | h
      · exact .inl (.head _)
      · exact .inr h

theorem nodup_keys_insertAll (h : m.keys.Nodup) : (insertAll m new).keys.Nodup := by
  induction new generalizing m with
  | nil => exact h
  | cons e new ih => exact ih (m := m.insert e.1 e.2) (nodup_keys_insert h)

theorem get?_insertAll (hnew : new.keys.Nodup) (k : κ) :
    (insertAll old new).get? k = (new.get? k).or (old.get? k) := by
  induction new generalizing old with
  | nil => rfl
  | cons e new ih =>
    obtain ⟨hfresh, hnodup⟩ := List.nodup_cons.1 hnew
    change (insertAll (old.insert e.1 e.2) new).get? k = _
    rw [ih hnodup, get?_insert, get?]
    split
    · rename_i hk
      subst hk
      rw [get?_eq_none_iff.2 hfresh]
      rfl
    · rfl

/-- **Old keys keep their positions, and new ones follow.** -/
theorem keys_insertAll (hnew : new.keys.Nodup) :
    (insertAll old new).keys = old.keys ++ new.keys.filter fun k => !old.keys.contains k := by
  induction new generalizing old with
  | nil => simp [insertAll, keys]
  | cons e new ih =>
    obtain ⟨hfresh, hnodup⟩ := List.nodup_cons.1 hnew
    change (insertAll (old.insert e.1 e.2) new).keys = old.keys ++ (e.1 :: keys new).filter _
    rw [ih hnodup, keys_insert]
    split
    · rename_i hold
      rw [List.filter_cons_of_neg (by simpa using hold)]
    · rename_i hold
      have hkept : (keys new).filter (fun k => !(old.keys ++ [e.1]).contains k) =
          (keys new).filter fun k => !old.keys.contains k := by
        refine List.filter_congr fun k hk => ?_
        have hne : k ≠ e.1 := by
          rintro rfl
          exact hfresh hk
        simp [hne]
      rw [List.filter_cons_of_pos (by simpa using hold), hkept, List.append_assoc]
      rfl

theorem get?_insertNew (m : Entries α κ) (key k : κ) (v : α) :
    (m.insertNew key v).get? k = (m.get? k).or (if key = k then some v else none) := by
  unfold insertNew
  split
  · rename_i hkey
    split
    · rename_i hk
      subst hk
      obtain ⟨w, hw⟩ := Option.isSome_iff_exists.1 hkey
      rw [hw]
      rfl
    · rw [Option.or_none]
  · rw [get?_append]
    rfl

theorem insertNew_map (f : α → β) (m : Entries α κ) (key : κ) (v : α) :
    insertNew key (f v) (m.map fun (key, a) => (key, f a)) =
      (m.insertNew key v).map fun (key, a) => (key, f a) := by
  rw [insertNew, insertNew, contains, contains, get?_map, Option.isSome_map]
  split
  · rfl
  · rw [List.map_append]
    rfl

/-! ## Keys that are texts -/

theorem keys_textKeys (m : Entries α) : m.textKeys.keys = m.keys.map .text :=
  keys_rename Wide.text m

theorem nodup_textKeys {m : Entries α} (h : m.keys.Nodup) : m.textKeys.keys.Nodup := by
  rw [keys_textKeys]
  exact h.map Wide.text_injective

theorem get?_textKeys (m : Entries α) (k : String) : m.textKeys.get? (.text k) = m.get? k :=
  get?_rename Wide.text_injective m k

theorem map_textKeys (f : α → β) (m : Entries α) :
    m.textKeys.map (fun (key, a) => (key, f a)) = textKeys (m.map fun (key, a) => (key, f a)) := by
  simp [textKeys]

end Scaffold.Entries
