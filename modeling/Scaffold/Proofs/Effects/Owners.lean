import Scaffold.Proofs.Effects.Sections
import Scaffold.Proofs.Effects.Joined
import Scaffold.Proofs.Json.Equality
import Mathlib.Data.List.Induction

/-!
# Owners

A call that fails leaves what it had merged until then, so a ledger can hold values of features that
are not among its features. Still every value has an owner, and the owner is the feature that
introduced it.

* **In one section** old values and old owners stay, and a new value belongs to the feature that is
  being merged.
* **Over all calls**, failed ones included, the owner of a value is the feature of the call before
  which the key had no value.
* **A failed call** names the owner of the key and what both features declared for it.
-/

namespace Scaffold

/-! ## One section -/

namespace OwnedEntries

variable {α : Type} {agree : α → α → Bool} {feature key : String} {m m' : OwnedEntries α}
  {new : Entries α} {r : Refusal α} {value v : α} {k owner : String}

/-- The keys with an owner are the keys with a value, in the same order. -/
def Matched (m : OwnedEntries α) : Prop := m.owners.keys = m.values.keys

theorem Matched.contains_eq (h : m.Matched) (k : String) :
    m.owners.contains k = m.values.contains k := by
  rw [Bool.eq_iff_iff, Entries.contains_iff, Entries.contains_iff, h]

theorem Matched.exists_owner (h : m.Matched) (hv : m.values.get? k = some v) :
    ∃ owner, m.owners.get? k = some owner := by
  rw [← Entries.mem_keys_iff, h]
  exact Entries.mem_keys_of_get? hv

theorem Matched.claim (h : m.Matched) (feature key : String) (value : α) :
    (m.claim feature key value).Matched := by
  rw [Matched, OwnedEntries.claim, Entries.insertNew, Entries.insertNew, h.contains_eq]
  split
  · exact h
  · have hkeys : m.owners.keys = m.values.keys := h
    simpa [Entries.keys] using hkeys

theorem get?_owners_claim (m : OwnedEntries α) (feature key other : String) (value : α) :
    (m.claim feature key value).owners.get? other =
      (m.owners.get? other).or (if key = other then some feature else none) :=
  Entries.get?_insertNew _ _ _ _

/-- A section was extended by declarations of a feature. -/
structure Extends (feature : String) (new : Entries α) (m m' : OwnedEntries α) : Prop where
  /-- values stay -/
  values {k : String} {v : α} (h : m.values.get? k = some v) : m'.values.get? k = some v
  /-- owners stay -/
  owners {k owner : String} (h : m.owners.get? k = some owner) : m'.owners.get? k = some owner
  /-- a new value was declared by the feature, which owns it -/
  fresh {k : String} {v : α} (hold : m.values.get? k = none) (h : m'.values.get? k = some v) :
    m'.owners.get? k = some feature ∧ (k, v) ∈ new

theorem Extends.refl (feature : String) (new : Entries α) (m : OwnedEntries α) :
    Extends feature new m m where
  values h := h
  owners h := h
  fresh hold h := by
    rw [hold] at h
    cases h

theorem Matched.extends_claim (h : m.Matched) (feature key : String) (value : α) (new : Entries α) :
    Extends feature ((key, value) :: new) m (m.claim feature key value) where
  values hv := by rw [get?_values_claim, hv, Option.some_or]
  owners ho := by rw [get?_owners_claim, ho, Option.some_or]
  fresh {k v} hold hv := by
    rw [get?_values_claim, hold, Option.none_or] at hv
    split at hv
    · rename_i hk
      cases hv
      cases hk
      -- without a value there was no owner either
      have howner : m.owners.get? key = none := by
        rw [Entries.get?_eq_none_iff, h, ← Entries.get?_eq_none_iff]
        exact hold
      exact ⟨by rw [get?_owners_claim, howner, if_pos rfl, Option.none_or], .head _⟩
    · cases hv

/-- **Merging extends a section**, whether it ends with a refusal or not. -/
theorem Matched.merge (h : m.Matched) (agree : α → α → Bool) (feature : String) (new : Entries α) :
    (m.merge agree feature new).1.Matched ∧
      Extends feature new m (m.merge agree feature new).1 := by
  induction new generalizing m with
  | nil => exact ⟨h, .refl _ _ _⟩
  | cons e new ih =>
    obtain ⟨key, value⟩ := e
    rw [OwnedEntries.merge]
    split
    · exact ⟨h, .refl _ _ _⟩
    · obtain ⟨hmatched, hrest⟩ := ih (h.claim feature key value)
      have hfirst := h.extends_claim feature key value new
      refine ⟨hmatched, fun hv => hrest.values (hfirst.values hv),
        fun ho => hrest.owners (hfirst.owners ho), fun {k v} hold hv => ?_⟩
      cases hclaimed : (m.claim feature key value).values.get? k with
      | none =>
        obtain ⟨howner, hmem⟩ := hrest.fresh hclaimed hv
        exact ⟨howner, .tail _ hmem⟩
      | some w =>
        obtain ⟨howner, hmem⟩ := hfirst.fresh hold hclaimed
        obtain rfl : w = v := by
          rw [hrest.values hclaimed] at hv
          exact Option.some.inj hv
        exact ⟨hrest.owners howner, hmem⟩

theorem Matched.refusal?_eq_some (h : m.Matched) (hr : m.refusal? agree key value = some r) :
    ∃ owner first, r = .clash key owner first value ∧ m.values.get? key = some first ∧
      m.owners.get? key = some owner ∧ agree first value = false := by
  rw [refusal?] at hr
  cases hfirst : m.values.get? key with
  | none =>
    rw [hfirst] at hr
    cases hr
  | some first =>
    obtain ⟨owner, howner⟩ := h.exists_owner hfirst
    simp only [hfirst, howner] at hr
    split at hr
    · cases hr
    · rename_i hagree
      cases hr
      exact ⟨owner, first, rfl, rfl, howner, Bool.eq_false_iff.2 hagree⟩

/-- **A refusal** names a value that was there before the feature, its owner, and a value that the
feature declares and that does not agree with it. -/
theorem Matched.refused (h : m.Matched) (hnew : new.keys.Nodup)
    (hr : (m.merge agree feature new).2 = some r) :
    ∃ k owner first second, r = .clash k owner first second ∧ m.values.get? k = some first ∧
      m.owners.get? k = some owner ∧ Entries.get? k new = some second ∧
      agree first second = false := by
  induction new generalizing m with
  | nil => cases hr
  | cons e new ih =>
    obtain ⟨key, value⟩ := e
    obtain ⟨hfresh, hnodup⟩ := List.nodup_cons.1 hnew
    rw [OwnedEntries.merge] at hr
    split at hr
    · rename_i hrefusal
      cases hr
      obtain ⟨owner, first, hr, hfirst, howner, hagree⟩ := h.refusal?_eq_some hrefusal
      exact ⟨key, owner, first, value, hr, hfirst, howner, by rw [Entries.get?, if_pos rfl], hagree⟩
    · obtain ⟨k, owner, first, second, hr, hfirst, howner, hsecond, hagree⟩ :=
        ih (h.claim feature key value) hnodup hr
      -- the values that the feature itself has brought are of other keys
      have hne : ¬ key = k := by
        rintro rfl
        exact hfresh (Entries.mem_keys_of_get? hsecond)
      rw [get?_values_claim, if_neg hne, Option.or_none] at hfirst
      rw [get?_owners_claim, if_neg hne, Option.or_none] at howner
      exact ⟨k, owner, first, second, hr, hfirst, howner, by rw [Entries.get?, if_neg hne, hsecond],
        hagree⟩

end OwnedEntries

/-! ## All calls -/

theorem Effects.Keyed.declared {e : Effects} (h : e.Keyed) (s : Section) :
    (e.declared s).keys.Nodup := by
  cases s with
  | scripts =>
    rw [Effects.declared, Entries.keys_map fun s : String => Json.str s]
    exact h.scripts
  | lintStaged =>
    rw [Effects.declared, Entries.keys_map fun s : String => Json.str s]
    exact h.lintStaged
  | config => exact h.packageConfig

namespace Ledger

variable {a b : Ledger} {feature : String} {e : Effects} {failure : Failure}
  {calls before : List (String × Effects)} {s : Section} {k owner : String} {v : Json}

/-- The ledger after calls, failed ones included. -/
def afterCalls (calls : List (String × Effects)) : Ledger :=
  calls.foldl (fun a call => (a.record call.1 call.2).1) {}

theorem afterCalls_concat (calls : List (String × Effects)) (feature : String) (e : Effects) :
    afterCalls (calls ++ [(feature, e)]) = ((afterCalls calls).record feature e).1 := by
  rw [afterCalls, List.foldl_append]
  rfl

/-- A feature introduced a value: before one of its calls the key had none, the call declared the
value, and after it the key has it. -/
def Introduced (calls : List (String × Effects)) (s : Section) (k feature : String) (v : Json) :
    Prop :=
  ∃ before e after, calls = before ++ (feature, e) :: after ∧
    ((afterCalls before).part s).values.get? k = none ∧
    (e.declared s).get? k = some v ∧
    ((afterCalls (before ++ [(feature, e)])).part s).values.get? k = some v

theorem Introduced.concat (h : Introduced calls s k owner v) (feature : String) (e : Effects) :
    Introduced (calls ++ [(feature, e)]) s k owner v := by
  obtain ⟨before, e', after, rfl, h⟩ := h
  exact ⟨before, e', after ++ [(feature, e)], by simp, h⟩

/-- Each value of the ledger has an owner, the feature that introduced it. -/
structure Accounted (calls : List (String × Effects)) (a : Ledger) : Prop where
  /-- there are owners for the keys that have a value -/
  matched (s : Section) : (a.part s).Matched
  /-- the owner introduced the value -/
  introduced {s : Section} {k owner : String} {v : Json} (hv : (a.part s).values.get? k = some v)
    (howner : (a.part s).owners.get? k = some owner) : Introduced calls s k owner v

/-- A call extends each section, whether it fails or not. -/
theorem extends_record (hmatched : ∀ s, (a.part s).Matched) (feature : String) (e : Effects)
    (s : Section) :
    ((a.record feature e).1.part s).Matched ∧
      OwnedEntries.Extends feature (e.declared s) (a.part s) ((a.record feature e).1.part s) := by
  have hextended := (hmatched s).merge Json.agrees feature (e.declared s)
  rcases hrecord : a.record feature e with ⟨b, failure | events⟩
  · cases (refused_of_record_error hrecord).2 with
    | refusedIn s' hrefused hparts =>
      rcases hparts s with hpart | hpart
      · rw [hpart]
        exact hextended
      · rw [hpart]
        exact ⟨hmatched s, .refl _ _ _⟩
  · have hpart : a.extended feature e s = _ := extended_of_record_ok hrecord s
    rw [extended] at hpart
    rw [hpart] at hextended
    exact hextended

theorem accounted_afterCalls (hcalls : ∀ call ∈ calls, call.2.Keyed) :
    Accounted calls (afterCalls calls) := by
  induction calls using List.reverseRecOn with
  | nil =>
    refine ⟨fun s => ?_, fun {s k owner v} hv _ => ?_⟩
    · cases s <;> rfl
    · cases s <;> cases hv
  | append_singleton calls call ih =>
    obtain ⟨feature, e⟩ := call
    obtain ⟨hmatched, hintroduced⟩ :=
      ih fun call hcall => hcalls call (List.mem_append_left _ hcall)
    have he : e.Keyed := hcalls (feature, e) (by simp)
    have hstep := afterCalls_concat calls feature e
    refine ⟨fun s => ?_, fun {s k owner v} hv howner => ?_⟩
    · rw [hstep]
      exact (extends_record hmatched feature e s).1
    · obtain ⟨-, hextends⟩ := extends_record hmatched feature e s
      rw [← hstep] at hextends
      cases hold : ((afterCalls calls).part s).values.get? k with
      | none =>
        -- this call introduced the key
        obtain ⟨hfeature, hmem⟩ := hextends.fresh hold hv
        rw [hfeature] at howner
        cases howner
        exact ⟨calls, e, [], rfl, hold, Entries.get?_of_mem (he.declared s) hmem, hv⟩
      | some w =>
        obtain ⟨owner', howner'⟩ := (hmatched s).exists_owner hold
        rw [hextends.values hold] at hv
        rw [hextends.owners howner'] at howner
        cases hv
        cases howner
        exact (hintroduced hold howner').concat feature e

/-- What is refused in an accounted ledger. -/
theorem disagreement_of_record_error (hmatched : ∀ s, (a.part s).Matched) (he : e.Keyed)
    (h : a.record feature e = (b, .error failure)) :
    ∃ s k owner first second, failure = .disagreement ⟨s.name, k, owner, first, feature, second⟩ ∧
      (a.part s).values.get? k = some first ∧ (a.part s).owners.get? k = some owner ∧
      (e.declared s).get? k = some second ∧ Json.agrees first second = false := by
  cases (refused_of_record_error h).2 with
  | refusedIn s hrefused =>
    obtain ⟨k, owner, first, second, rfl, hfirst, howner, hsecond, hagree⟩ :=
      (hmatched s).refused (he.declared s) hrefused
    exact ⟨s, k, owner, first, second, rfl, hfirst, howner, hsecond, hagree⟩

/-- **Owners.** After any calls, failed or not, each section has owners for exactly the keys with a
value, and the owner introduced the value. A call that fails from there fails because of a value
that the owner introduced and another one that the feature declares, and changes nothing but the
sections. -/
theorem owners_of_calls (hcalls : ∀ call ∈ calls, call.2.Keyed) (feature : String) (he : e.Keyed) :
    (∀ s, ((afterCalls calls).part s).owners.keys = ((afterCalls calls).part s).values.keys) ∧
    (∀ s k v, ((afterCalls calls).part s).values.get? k = some v →
      ∃ owner, ((afterCalls calls).part s).owners.get? k = some owner ∧
        Introduced calls s k owner v) ∧
    ∀ b failure, (afterCalls calls).record feature e = (b, .error failure) →
      SameRest (afterCalls calls) b ∧
      ∃ s k owner first second,
        failure = .disagreement ⟨s.name, k, owner, first, feature, second⟩ ∧
        Introduced calls s k owner first ∧ (e.declared s).get? k = some second ∧
        Json.agrees first second = false ∧
        (first.Regular → second.Regular → ¬ Json.Equal first second) := by
  obtain ⟨hmatched, hintroduced⟩ := accounted_afterCalls hcalls
  refine ⟨hmatched, fun s k v hv => ?_, fun b failure h => ?_⟩
  · obtain ⟨owner, howner⟩ := (hmatched s).exists_owner hv
    exact ⟨owner, howner, hintroduced hv howner⟩
  · obtain ⟨s, k, owner, first, second, rfl, hfirst, howner, hsecond, hagree⟩ :=
      disagreement_of_record_error hmatched he h
    refine ⟨(refused_of_record_error h).1, s, k, owner, first, second, rfl,
      hintroduced hfirst howner, hsecond, hagree, fun hf hs heq => ?_⟩
    rw [(Json.agrees_iff hf hs).2 heq.loosely] at hagree
    cases hagree

/-- Calls of which the second one fails, after its first script. -/
def halfMerged : List (String × Effects) :=
  [("a", { scripts := [("lint", "eslint")] }),
    ("b", { scripts := [("build", "vite build"), ("lint", "stylelint"), ("test", "vitest")] })]

/-- A feature that failed owns the script that it left, and a later one is told of it. -/
theorem owners_of_calls_half_merged :
    (∀ call ∈ halfMerged, call.2.Keyed) ∧ (afterCalls halfMerged).features = ["a"] ∧
    Introduced halfMerged .scripts "build" "b" (.str "vite build") ∧
    ∃ b, (afterCalls halfMerged).record "c" { scripts := [("build", "tsc")] } =
        (b, .error (.disagreement ⟨"scripts", "build", "b", .str "vite build", "c", .str "tsc"⟩)) ∧
      b.features = ["a"] := by
  have hkeyed (scripts : Entries String) (h : scripts.keys.Nodup) : Effects.Keyed { scripts } :=
    ⟨h, List.nodup_nil, List.nodup_nil⟩
  have hcalls : ∀ call ∈ halfMerged, call.2.Keyed := by
    intro call hcall
    simp only [halfMerged, List.mem_cons, List.not_mem_nil, or_false] at hcall
    rcases hcall with rfl | rfl
    · exact hkeyed _ (by decide)
    · exact hkeyed _ (by decide)
  obtain ⟨-, howner, hfailed⟩ := owners_of_calls hcalls "c" (hkeyed [("build", "tsc")] (by decide))
  obtain ⟨owner, hb, hintroduced⟩ := howner .scripts "build" (.str "vite build") rfl
  obtain rfl : owner = "b" := Option.some.inj hb.symm
  obtain ⟨hrest, -⟩ := hfailed _ _ rfl
  exact ⟨hcalls, rfl, hintroduced, _, rfl, hrest.features⟩

end Ledger

end Scaffold
