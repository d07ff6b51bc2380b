import Scaffold.Manifest.Update
import Scaffold.Proofs.Entries.Overlay
import Scaffold.Proofs.Text.Wide

/-!
# Updated sections

What an update makes of one section of the manifest.

* **Packages** are given by their names: the section holds the old and the asked-for names in
  ascending order, and only names that are new get the version marker. So the section depends on the
  set of the names alone, and asking for names in two steps is asking for all of them at once.
* **Other sections** are overlays. One that nothing is declared for keeps its absence.
-/

namespace Scaffold.Manifest

open Entries (textKeys nodup_textKeys)

variable {α β : Type} {old r r' mid : Entries α Wide} {names names' all : List String} {version : α}

/-! ## Packages -/

/-- The section `r` holds the packages of `old` with their versions, and those of `names` that are
new with the version marker. -/
structure Packaged (old : Entries α Wide) (names : List String) (version : α) (r : Entries α Wide) :
    Prop where
  /-- the names are in ascending order, each once -/
  ascending : r.keys.Pairwise (· < ·)
  /-- the names are the old ones and those asked for -/
  mem_keys {k : Wide} : k ∈ r.keys ↔ k ∈ old.keys ∨ k ∈ names.map .text
  /-- an old name keeps its version -/
  value {k : Wide} : k ∈ r.keys → r.get? k = some ((old.get? k).getD version)

namespace Packaged

theorem nodup_keys (h : Packaged old names version r) : r.keys.Nodup := by
  refine h.ascending.imp ?_
  rintro a _ hlt rfl
  exact Wide.lt_irrefl a hlt

/-- **The packages are determined by the set of the names.** -/
theorem unique (h : Packaged old names version r) (h' : Packaged old names' version r')
    (hnames : ∀ k, k ∈ names ↔ k ∈ names') : r' = r := by
  have hmem (k : Wide) : k ∈ r'.keys ↔ k ∈ r.keys := by
    simp only [h.mem_keys, h'.mem_keys, List.mem_map, hnames]
  -- two ascending lists with the same members are the same list
  have hperm : r'.keys.Perm r.keys := (List.perm_ext_iff_of_nodup h'.nodup_keys h.nodup_keys).2 hmem
  have hkeys : r'.keys = r.keys :=
    List.Perm.eq_of_pairwise (fun _ _ _ _ hlt hlt' => absurd hlt (Wide.lt_asymm hlt'))
      h'.ascending h.ascending hperm
  apply Entries.eq_of_get? h.nodup_keys hkeys
  intro k
  by_cases hk : k ∈ r.keys
  · rw [h.value hk, h'.value (hkeys ▸ hk)]
  · rw [Entries.get?_eq_none_iff.2 hk, Entries.get?_eq_none_iff.2 (hkeys ▸ hk)]

theorem map (f : α → β) (h : Packaged old names version r) :
    Packaged (old.map fun (key, v) => (key, f v)) names (f version)
      (r.map fun (key, v) => (key, f v)) where
  ascending := by
    rw [Entries.keys_map]
    exact h.ascending
  mem_keys := by
    rw [Entries.keys_map, Entries.keys_map]
    exact h.mem_keys
  value {k} hk := by
    rw [Entries.keys_map] at hk
    rw [Entries.get?_map, Entries.get?_map, h.value hk]
    cases old.get? k <;> rfl

/-- Asking for names in two steps. -/
theorem trans (hfirst : Packaged old names version mid) (hsecond : Packaged mid names' version r)
    (hall : ∀ k, k ∈ all ↔ k ∈ names ∨ k ∈ names') : Packaged old all version r where
  ascending := hsecond.ascending
  mem_keys {k} := by
    have hnames : k ∈ all.map .text ↔ k ∈ names.map .text ∨ k ∈ names'.map .text := by
      rw [← List.mem_append, ← List.map_append]
      simp only [List.mem_map, List.mem_append, hall]
    rw [hsecond.mem_keys, hfirst.mem_keys, hnames, or_assoc]
  value {k} hk := by
    rw [hsecond.value hk]
    by_cases hmid : k ∈ mid.keys
    · -- the first step gave the name its version
      rw [hfirst.value hmid]
      rfl
    · have hold : k ∉ old.keys := by
        intro hold
        exact hmid (hfirst.mem_keys.2 (.inl hold))
      rw [Entries.get?_eq_none_iff.2 hmid, Entries.get?_eq_none_iff.2 hold]

end Packaged

variable {old : Entries Wide Wide} {version : String}

theorem nodup_foldl_insertNew (h : old.keys.Nodup) (names : List String) (version : Wide) :
    (names.foldl (fun m name => m.insertNew (.text name) version) old).keys.Nodup := by
  induction names generalizing old with
  | nil => exact h
  | cons name names ih => exact ih (Entries.nodup_keys_insertNew h)

theorem get?_foldl_insertNew (old : Entries Wide Wide) (names : List String) (version k : Wide) :
    (names.foldl (fun m name => m.insertNew (.text name) version) old).get? k =
      (old.get? k).or (if k ∈ names.map .text then some version else none) := by
  induction names generalizing old with
  | nil => simp
  | cons name names ih =>
    rw [List.foldl_cons, ih, Entries.get?_insertNew, Option.or_assoc]
    by_cases hk : .text name = k
    · simp [hk]
    · have hk' : ¬ k = .text name := fun h => hk h.symm
      simp [hk, hk']

theorem nodup_addPackages (h : old.keys.Nodup) (names : List String) (version : String) :
    (addPackages old names version).keys.Nodup :=
  ((List.mergeSort_perm _ _).map Prod.fst).nodup_iff.2 (nodup_foldl_insertNew h names version)

theorem get?_addPackages (h : old.keys.Nodup) (names : List String) (version : String) (k : Wide) :
    (addPackages old names version).get? k =
      (old.get? k).or (if k ∈ names.map .text then some (.text version) else none) := by
  rw [← get?_foldl_insertNew]
  exact Entries.get?_of_perm (nodup_foldl_insertNew h names version) (List.mergeSort_perm _ _).symm k

/-- **Adding packages**, whatever the order of the names and however often each is asked for. -/
theorem packaged_addPackages (h : old.keys.Nodup) (names : List String) (version : String) :
    Packaged old names (.text version) (addPackages old names version) where
  ascending := by
    have htrans (a b c : Wide × Wide) (hab : decide (a.1 ≤ b.1) = true)
        (hbc : decide (b.1 ≤ c.1) = true) : decide (a.1 ≤ c.1) = true :=
      decide_eq_true (Wide.le_trans (of_decide_eq_true hab) (of_decide_eq_true hbc))
    have htotal (a b : Wide × Wide) : (decide (a.1 ≤ b.1) || decide (b.1 ≤ a.1)) = true := by
      simpa using Wide.le_total a.1 b.1
    have hsorted : (addPackages old names version).Pairwise fun a b => decide (a.1 ≤ b.1) = true :=
      List.pairwise_mergeSort htrans htotal _
    have hle : (addPackages old names version).keys.Pairwise (· ≤ ·) :=
      List.pairwise_map.2 (hsorted.imp of_decide_eq_true)
    -- no name occurs twice, so the order is strict
    refine (hle.and (nodup_addPackages h names version)).imp ?_
    exact fun ⟨hab, hne⟩ => Wide.lt_of_le_of_ne hab hne
  mem_keys {k} := by
    rw [Entries.mem_keys_iff, get?_addPackages h, Entries.mem_keys_iff]
    by_cases hk : k ∈ names.map .text <;> simp only [hk] <;> simp
  value {k} hk := by
    obtain ⟨v, hv⟩ := Entries.mem_keys_iff.1 hk
    rw [get?_addPackages h] at hv ⊢
    cases hold : old.get? k with
    | some w => rfl
    | none =>
      rw [hold] at hv
      by_cases hk : k ∈ names.map .text
      · simp only [hk, if_true]
        rfl
      · simp only [hk, if_false] at hv
        cases hv

/-- **Packages may be asked for one after another or all at once.** -/
theorem addPackages_addPackages (h : old.keys.Nodup) (names names' all : List String)
    (version : String) (hall : ∀ k, k ∈ all ↔ k ∈ names ∨ k ∈ names') :
    addPackages (addPackages old names version) names' version = addPackages old all version := by
  have hsecond := packaged_addPackages (nodup_addPackages h names version) names' version
  have htwice := (packaged_addPackages h names version).trans hsecond hall
  exact (packaged_addPackages h all version).unique htwice fun _ => Iff.rfl

theorem addPackages_congr (h : old.keys.Nodup) {names names' : List String} (version : String)
    (hnames : ∀ k, k ∈ names ↔ k ∈ names') :
    addPackages old names version = addPackages old names' version :=
  (packaged_addPackages h names' version).unique (packaged_addPackages h names version)
    fun k => (hnames k).symm

/-! ## Sections that may be absent -/

variable {section? : Option (Entries α Wide)} {a b c new : Entries α}

theorem nodup_getD (h : ∀ entries ∈ section?, (Entries.keys entries).Nodup) :
    (Entries.keys (section?.getD [])).Nodup := by
  cases section? with
  | none => exact List.nodup_nil
  | some entries => exact h entries rfl

theorem nodup_writeSection (h : ∀ entries ∈ section?, (Entries.keys entries).Nodup) :
    ∀ entries ∈ writeSection section? new, (Entries.keys entries).Nodup := by
  unfold writeSection
  split
  · exact h
  · rintro _ ⟨⟩
    exact Entries.nodup_keys_insertAll (nodup_getD h)

/-- **Entries may be written one after another or all at once.** -/
theorem insertAll_insertAll {entries : Entries α Wide} (h : entries.keys.Nodup) (ha : a.keys.Nodup)
    (hb : b.keys.Nodup) (hboth : Entries.Overlaid a b c) :
    Entries.insertAll (Entries.insertAll entries (textKeys a)) (textKeys b) =
      Entries.insertAll entries (textKeys c) := by
  have hc := nodup_textKeys (hboth.nodup_keys ha hb)
  have htwice := (Entries.Overlaid.insertAll (nodup_textKeys ha) entries).trans
    (.insertAll (nodup_textKeys hb) _) (hboth.rename Wide.text_injective)
  exact (Entries.Overlaid.insertAll hc entries).unique htwice h hc

/-- What a section holds after declared entries have been written over it. -/
theorem overlaid_writeSection (section? : Option (Entries α Wide)) (ha : a.keys.Nodup) :
    Entries.Overlaid (section?.getD []) (textKeys a) ((writeSection section? a).getD []) := by
  cases a with
  | nil => exact .nil_right _
  | cons e a => exact .insertAll (nodup_textKeys ha) _

/-- So may those of a section that may be absent. -/
theorem writeSection_writeSection (h : ∀ entries ∈ section?, (Entries.keys entries).Nodup)
    (ha : a.keys.Nodup) (hb : b.keys.Nodup) (hboth : Entries.Overlaid a b c) :
    writeSection (writeSection section? a) b = writeSection section? c := by
  have hc := hboth.nodup_keys ha hb
  have hcontent : (writeSection (writeSection section? a) b).getD [] =
      (writeSection section? c).getD [] :=
    (overlaid_writeSection section? hc).unique
      ((overlaid_writeSection section? ha).trans (overlaid_writeSection _ hb)
        (hboth.rename Wide.text_injective)) (nodup_getD h) (nodup_textKeys hc)
  -- the contents agree; it remains to see that the section is there after both or after neither
  cases b with
  | nil =>
    obtain rfl : c = a := (Entries.Overlaid.nil_right a).unique hboth ha List.nodup_nil
    rfl
  | cons e b =>
    cases c with
    | nil => exact absurd (hboth.eq_nil_iff.1 rfl).2 (List.cons_ne_nil e b)
    | cons x c => exact congrArg some hcontent

end Scaffold.Manifest
