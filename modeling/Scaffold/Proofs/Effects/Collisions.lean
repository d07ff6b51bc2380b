import Scaffold.Proofs.Effects.Owners
import Scaffold.Proofs.Outcomes

/-!
# Collisions

When merging the effects of several features fails, said by what the features declare and not by
what the ledger compares, which is each declaration with the first one for its key.

* **What a ledger holds** after features were merged: for each declared key a declared value, and
  every declaration of the key is loosely equal to it.
* **A feature is refused** if and only if it is not compatible with a feature before it. Loose
  equality carries this from the first declaration to all: it is transitive.
* **Truth values** count as numbers in the comparison, so a feature that declares `true` where an
  earlier one declares `1` is not refused. That is the only difference from equality of JSON values.
-/

namespace Scaffold

/-! ## Effects of two features -/

namespace Effects

variable {e e' : Effects} {s : Section} {k : String} {v w : Json} {equal : Json → Json → Prop}

/-- Effects as programs hold them: maps, with values that have no other than proper numbers. -/
structure Regular (e : Effects) : Prop extends e.Keyed where
  /-- the values of the settings -/
  settings : ∀ setting ∈ e.packageConfig, setting.2.Regular

/-- Values that both effects declare for a key are equal. -/
def Compatible (equal : Json → Json → Prop) (e e' : Effects) : Prop :=
  ∀ s k v w, (e.declared s).get? k = some v → (e'.declared s).get? k = some w → equal v w

theorem Compatible.loosely (h : Compatible Json.Equal e e') : Compatible Json.LooselyEqual e e' :=
  fun s k v w hv hw => (h s k v w hv hw).loosely

theorem regular_of_texts {texts : Entries String}
    (h : Entries.get? k (texts.map fun (key, text) => (key, Json.str text)) = some v) :
    v.Regular := by
  rw [Entries.get?_map fun s : String => Json.str s, Option.map_eq_some_iff] at h
  obtain ⟨text, -, rfl⟩ := h
  exact ⟨trivial, nofun⟩

theorem Regular.declared (h : e.Regular) (hv : (e.declared s).get? k = some v) : v.Regular := by
  cases s with
  | scripts | lintStaged => exact regular_of_texts hv
  | config => exact h.settings (k, v) (Entries.mem_of_get? hv)

theorem regular_setting (tool : String) (h : v.Regular) :
    Effects.Regular { packageConfig := [(tool, v)] } where
  scripts := List.nodup_nil
  lintStaged := List.nodup_nil
  packageConfig := List.pairwise_singleton _ _
  settings := List.forall_mem_singleton.2 h

end Effects

/-! ## One section -/

namespace OwnedEntries

variable {α : Type} {agree : α → α → Bool} {feature : String} {m m' : OwnedEntries α}
  {new : Entries α}

/-- **A section that is merged without a refusal:** what was declared agrees with what was there,
and a key has the value that was there or else the declared one. -/
theorem merge_accepted (hnew : new.keys.Nodup) (h : m.merge agree feature new = (m', none)) :
    (∀ k first v, m.values.get? k = some first → Entries.get? k new = some v →
        agree first v = true) ∧
      ∀ k, m'.values.get? k = (m.values.get? k).or (Entries.get? k new) := by
  induction new generalizing m with
  | nil =>
    cases h
    exact ⟨fun _ _ _ _ hv => (nomatch hv), fun _ => Option.or_none.symm⟩
  | cons e new ih =>
    obtain ⟨key, value⟩ := e
    obtain ⟨hfresh, hnodup⟩ := List.nodup_cons.1 hnew
    rw [merge] at h
    split at h
    · cases h
    rename_i hrefusal
    obtain ⟨hagree, hvalues⟩ := ih hnodup h
    refine ⟨fun k first v hfirst hv => ?_, fun k => ?_⟩
    · rw [Entries.get?] at hv
      split at hv
      · rename_i hk
        cases hv
        cases hk
        exact refusal?_eq_none_iff.1 hrefusal first hfirst
      · exact hagree k first v (by rw [get?_values_claim, hfirst, Option.some_or]) hv
    · rw [hvalues, get?_values_claim, Option.or_assoc, Entries.get?]
      split
      · rw [Option.some_or]
      · rw [Option.none_or]

end OwnedEntries

/-! ## Consistent calls -/

namespace Ledger

variable {a b c : Ledger} {feature : String} {e : Effects} {events : List Event}
  {calls xs : List (String × Effects)} {equal : Json → Json → Prop} {s : Section} {k : String}
  {v w : Json}

/-- Any two features are compatible. -/
def Consistent (equal : Json → Json → Prop) (calls : List (String × Effects)) : Prop :=
  calls.Pairwise fun call call' => Effects.Compatible equal call.2 call'.2

theorem consistent_concat :
    Consistent equal (calls ++ [(feature, e)]) ↔
      Consistent equal calls ∧ ∀ call ∈ calls, Effects.Compatible equal call.2 e := by
  simp [Consistent, List.pairwise_append]

theorem Consistent.loosely (h : Consistent Json.Equal calls) : Consistent Json.LooselyEqual calls :=
  h.imp Effects.Compatible.loosely

/-- Calls that are not consistent have a first one that is not compatible with an earlier one. -/
theorem exists_first_not_compatible (h : ¬ Consistent equal calls) :
    ∃ before feature e after, calls = before ++ (feature, e) :: after ∧ Consistent equal before ∧
      ∃ call ∈ before, ¬ Effects.Compatible equal call.2 e := by
  induction calls using List.reverseRecOn with
  | nil => exact absurd .nil h
  | append_singleton calls call ih =>
    obtain ⟨feature, e⟩ := call
    by_cases hcalls : Consistent equal calls
    · refine ⟨calls, feature, e, [], rfl, hcalls, ?_⟩
      by_contra hnone
      push Not at hnone
      exact h (consistent_concat.2 ⟨hcalls, hnone⟩)
    · obtain ⟨before, feature', e', after, rfl, hbefore, hnot⟩ := ih hcalls
      exact ⟨before, feature', e', after ++ [(feature, e)], by simp, hbefore, hnot⟩

/-! ## Calls that do not fail -/

theorem recordAll_append (a : Ledger) (xs ys : List (String × Effects)) :
    a.recordAll (xs ++ ys) = (a.recordAll xs).bind fun b => b.recordAll ys := by
  induction xs generalizing a with
  | nil => rfl
  | cons call xs ih =>
    obtain ⟨feature, e⟩ := call
    rw [List.cons_append, recordAll, recordAll]
    rcases a.record feature e with ⟨b, failure | events⟩
    · rfl
    · exact ih b

theorem recordAll_concat_eq_ok :
    a.recordAll (xs ++ [(feature, e)]) = .ok c ↔
      ∃ b events, a.recordAll xs = .ok b ∧ b.record feature e = (c, .ok events) := by
  have hlast (b : Ledger) : b.recordAll [(feature, e)] = .ok c ↔
      ∃ events, b.record feature e = (c, .ok events) := by
    rw [recordAll]
    rcases b.record feature e with ⟨d, failure | events⟩ <;> simp [recordAll]
  rw [recordAll_append]
  change (a.recordAll xs >>= fun b => b.recordAll [(feature, e)]) = _ ↔ _
  simp only [bind_eq_ok_iff, hlast, exists_and_left]

/-- Calls that do not fail lead to the ledger after them. -/
theorem afterCalls_of_recordAll (h : recordAll {} calls = .ok a) : afterCalls calls = a := by
  induction calls using List.reverseRecOn generalizing a with
  | nil =>
    cases h
    rfl
  | append_singleton calls call ih =>
    obtain ⟨feature, e⟩ := call
    obtain ⟨b, events, hb, hrecord⟩ := recordAll_concat_eq_ok.1 h
    rw [afterCalls_concat, ih hb, hrecord]

/-- A ledger holds what features declared: one value for each key, which stands for all. -/
structure Holds (calls : List (String × Effects)) (a : Ledger) : Prop where
  /-- a value was declared -/
  declared {s : Section} {k : String} {v : Json} (h : (a.part s).values.get? k = some v) :
    ∃ call ∈ calls, (call.2.declared s).get? k = some v
  /-- a declared value is loosely equal to the one that is held -/
  held {s : Section} {k : String} {v : Json} {call : String × Effects} (hcall : call ∈ calls)
    (h : (call.2.declared s).get? k = some v) :
    ∃ first, (a.part s).values.get? k = some first ∧ Json.LooselyEqual first v

theorem holds_empty : Holds [] {} where
  declared {s k v} h := by cases s <;> cases h
  held hcall := nomatch hcall

/-- A held value is compared with a declared one by loose equality. -/
theorem Holds.agrees_iff (h : Holds calls a) (hcalls : ∀ call ∈ calls, call.2.Regular)
    (he : e.Regular) (hv : (a.part s).values.get? k = some v)
    (hw : (e.declared s).get? k = some w) :
    Json.agrees v w = true ↔ Json.LooselyEqual v w := by
  obtain ⟨call, hcall, hdeclared⟩ := h.declared hv
  exact Json.agrees_iff ((hcalls call hcall).declared hdeclared) (he.declared hw)

/-- A feature that is not refused is compatible with all features before it. -/
theorem Holds.compatible (h : Holds calls a) (hcalls : ∀ call ∈ calls, call.2.Regular)
    (he : e.Regular) (hrecord : a.record feature e = (b, .ok events)) {call : String × Effects}
    (hcall : call ∈ calls) :
    Effects.Compatible Json.LooselyEqual call.2 e := by
  intro s k v w hv hw
  -- both are loosely equal to the value that is held
  obtain ⟨first, hfirst, hloose⟩ := h.held hcall hv
  have hagree := (OwnedEntries.merge_accepted (he.toKeyed.declared s)
    (extended_of_record_ok hrecord s)).1 k first w hfirst hw
  exact Json.LooselyEqual.trans hloose.symm ((h.agrees_iff hcalls he hfirst hw).1 hagree)

theorem Holds.record (h : Holds calls a) (hcalls : ∀ call ∈ calls, call.2.Regular) (he : e.Regular)
    (hrecord : a.record feature e = (b, .ok events)) : Holds (calls ++ [(feature, e)]) b := by
  have hmerged (s : Section) := OwnedEntries.merge_accepted (he.toKeyed.declared s)
    (extended_of_record_ok hrecord s)
  refine ⟨fun {s k v} hv => ?_, fun {s k v call} hcall hv => ?_⟩
  · rw [(hmerged s).2, Option.or_eq_some_iff] at hv
    rcases hv with hv | ⟨-, hv⟩
    · obtain ⟨call, hcall, hdeclared⟩ := h.declared hv
      exact ⟨call, List.mem_append_left _ hcall, hdeclared⟩
    · exact ⟨(feature, e), by simp, hv⟩
  · rcases List.mem_append.1 hcall with hcall | hcall
    · obtain ⟨first, hfirst, hloose⟩ := h.held hcall hv
      exact ⟨first, by rw [(hmerged s).2, hfirst, Option.some_or], hloose⟩
    · obtain rfl := List.mem_singleton.1 hcall
      cases hold : (a.part s).values.get? k with
      | none =>
        -- a new key: the feature's own value is held
        refine ⟨v, ?_, (he.declared hv).equal_self.loosely⟩
        rw [(hmerged s).2, hold, Option.none_or]
        exact hv
      | some first =>
        -- a known key: the comparison with the first declaration has passed
        have hagree := (hmerged s).1 k first v hold hv
        refine ⟨first, ?_, (h.agrees_iff hcalls he hold hv).1 hagree⟩
        rw [(hmerged s).2, hold, Option.some_or]

/-- A feature that is refused is not compatible with some feature before it. -/
theorem Holds.not_compatible (h : Holds calls a) (hmatched : ∀ s, (a.part s).Matched)
    (hcalls : ∀ call ∈ calls, call.2.Regular) (he : e.Regular) {failure : Failure}
    (hrecord : a.record feature e = (b, .error failure)) :
    ∃ call ∈ calls, ¬ Effects.Compatible Json.LooselyEqual call.2 e := by
  obtain ⟨s, k, owner, first, second, -, hfirst, -, hsecond, hagree⟩ :=
    disagreement_of_record_error hmatched he.toKeyed hrecord
  obtain ⟨call, hcall, hdeclared⟩ := h.declared hfirst
  refine ⟨call, hcall, ?_⟩
  intro hcompatible
  have hloose := hcompatible s k first second hdeclared hsecond
  rw [(h.agrees_iff hcalls he hfirst hsecond).2 hloose] at hagree
  cases hagree

theorem matched_of_recordAll (hcalls : ∀ call ∈ calls, call.2.Regular)
    (h : recordAll {} calls = .ok a) (s : Section) : (a.part s).Matched := by
  have haccounted := accounted_afterCalls fun call hcall => (hcalls call hcall).toKeyed
  rw [afterCalls_of_recordAll h] at haccounted
  exact haccounted.matched s

theorem holds_of_recordAll (hcalls : ∀ call ∈ calls, call.2.Regular)
    (h : recordAll {} calls = .ok a) : Holds calls a := by
  induction calls using List.reverseRecOn generalizing a with
  | nil =>
    cases h
    exact holds_empty
  | append_singleton calls call ih =>
    obtain ⟨feature, e⟩ := call
    have hcalls' : ∀ call ∈ calls, call.2.Regular := fun call hcall =>
      hcalls call (List.mem_append_left _ hcall)
    obtain ⟨b, events, hb, hrecord⟩ := recordAll_concat_eq_ok.1 h
    exact (ih hcalls' hb).record hcalls' (hcalls (feature, e) (by simp)) hrecord

/-- **All features are merged if and only if any two are compatible.** -/
theorem recordAll_iff_consistent (hcalls : ∀ call ∈ calls, call.2.Regular) :
    (∃ a, recordAll {} calls = .ok a) ↔ Consistent Json.LooselyEqual calls := by
  induction calls using List.reverseRecOn with
  | nil => exact ⟨fun _ => .nil, fun _ => ⟨_, rfl⟩⟩
  | append_singleton calls call ih =>
    obtain ⟨feature, e⟩ := call
    have hcalls' : ∀ call ∈ calls, call.2.Regular := fun call hcall =>
      hcalls call (List.mem_append_left _ hcall)
    have he : e.Regular := hcalls (feature, e) (by simp)
    rw [consistent_concat, ← ih hcalls']
    constructor
    · rintro ⟨b, h⟩
      obtain ⟨a, events, ha, hrecord⟩ := recordAll_concat_eq_ok.1 h
      have hholds := holds_of_recordAll hcalls' ha
      exact ⟨⟨a, ha⟩, fun call hcall => hholds.compatible hcalls' he hrecord hcall⟩
    · rintro ⟨⟨a, ha⟩, hcompatible⟩
      rcases hrecord : a.record feature e with ⟨b, failure | events⟩
      · obtain ⟨call, hcall, hnot⟩ := (holds_of_recordAll hcalls' ha).not_compatible
          (matched_of_recordAll hcalls' ha) hcalls' he hrecord
        exact absurd (hcompatible call hcall) hnot
      · exact ⟨b, recordAll_concat_eq_ok.2 ⟨a, events, ha, hrecord⟩⟩

/-! ## Detection -/

/-- Collisions of values that are not equal are detected: features are merged if and only if any two
are compatible, and otherwise the first that is not compatible with an earlier one is refused. -/
structure Detects (equal : Json → Json → Prop) (calls : List (String × Effects)) : Prop where
  /-- what is merged -/
  merged : (∃ a, recordAll {} calls = .ok a) ↔ Consistent equal calls
  /-- what is refused, and where -/
  refused {before after : List (String × Effects)} {feature : String} {e : Effects}
    (hcalls : calls = before ++ (feature, e) :: after)
    (hbefore : Consistent equal before)
    (hnot : ∃ call ∈ before, ¬ Effects.Compatible equal call.2 e) :
    ∃ a b clash, recordAll {} before = .ok a ∧
      a.record feature e = (b, .error (.disagreement clash))

/-- The first feature that is not compatible with an earlier one differs from all of them only by
truth values that count as numbers. -/
def Masked (calls : List (String × Effects)) : Prop :=
  ∃ before feature e after, calls = before ++ (feature, e) :: after ∧ Consistent Json.Equal before ∧
    (∃ call ∈ before, ¬ Effects.Compatible Json.Equal call.2 e) ∧
    ∀ call ∈ before, Effects.Compatible Json.LooselyEqual call.2 e

theorem detects_looselyEqual (hcalls : ∀ call ∈ calls, call.2.Regular) :
    Detects Json.LooselyEqual calls where
  merged := recordAll_iff_consistent hcalls
  refused {before after feature e} hsplit hbefore hnot := by
    have hbefore' : ∀ call ∈ before, call.2.Regular := fun call hcall =>
      hcalls call (hsplit ▸ List.mem_append_left _ hcall)
    have he : e.Regular := hcalls (feature, e) (by simp [hsplit])
    obtain ⟨a, ha⟩ := (recordAll_iff_consistent hbefore').2 hbefore
    rcases hrecord : a.record feature e with ⟨b, failure | events⟩
    · obtain ⟨s, k, owner, first, second, rfl, -⟩ :=
        disagreement_of_record_error (matched_of_recordAll hbefore' ha) he.toKeyed hrecord
      exact ⟨a, b, _, ha, hrecord⟩
    · obtain ⟨call, hcall, hnot⟩ := hnot
      exact absurd ((holds_of_recordAll hbefore' ha).compatible hbefore' he hrecord hcall) hnot

/-- A masked collision is not detected: up to it all features are merged. -/
theorem Masked.not_detects (hcalls : ∀ call ∈ calls, call.2.Regular) (h : Masked calls) :
    ¬ Detects Json.Equal calls := by
  intro hdetects
  obtain ⟨before, feature, e, after, hsplit, hbefore, hnot, hloose⟩ := h
  obtain ⟨a, b, clash, ha, hrefused⟩ := hdetects.refused hsplit hbefore hnot
  have hfirst : ∀ call ∈ before ++ [(feature, e)], call.2.Regular := by
    intro call hcall
    apply hcalls
    rw [hsplit, List.append_cons]
    exact List.mem_append_left _ hcall
  obtain ⟨c, hc⟩ :=
    (recordAll_iff_consistent hfirst).2 (consistent_concat.2 ⟨hbefore.loosely, hloose⟩)
  obtain ⟨a', events, ha', hrecord⟩ := recordAll_concat_eq_ok.1 hc
  rw [ha] at ha'
  cases ha'
  rw [hrefused] at hrecord
  cases hrecord

theorem detects_equal_of_not_masked (hcalls : ∀ call ∈ calls, call.2.Regular) (h : ¬ Masked calls) :
    Detects Json.Equal calls := by
  have hdetects := detects_looselyEqual hcalls
  -- the first incompatible feature is incompatible by loose equality too
  have hloosely {before after : List (String × Effects)} {feature : String} {e : Effects}
      (hsplit : calls = before ++ (feature, e) :: after) (hbefore : Consistent Json.Equal before)
      (hnot : ∃ call ∈ before, ¬ Effects.Compatible Json.Equal call.2 e) :
      ∃ call ∈ before, ¬ Effects.Compatible Json.LooselyEqual call.2 e := by
    by_contra hnone
    push Not at hnone
    exact h ⟨before, feature, e, after, hsplit, hbefore, hnot, hnone⟩
  constructor
  case merged =>
    constructor
    · intro hmerged
      by_contra hinconsistent
      obtain ⟨before, feature, e, after, hsplit, hbefore, hnot⟩ :=
        exists_first_not_compatible hinconsistent
      obtain ⟨call, hcall, hnot⟩ := hloosely hsplit hbefore hnot
      have hconsistent := hdetects.merged.1 hmerged
      rw [hsplit, Consistent, List.pairwise_append] at hconsistent
      exact hnot (hconsistent.2.2 call hcall _ (.head _))
    · intro hconsistent
      exact hdetects.merged.2 hconsistent.loosely
  case refused =>
    intro before after feature e hsplit hbefore hnot
    exact hdetects.refused hsplit hbefore.loosely (hloosely hsplit hbefore hnot)

/-- **Collisions are detected** by loose equality, in which truth values count as numbers. By
equality they are detected exactly unless the first one is masked by that. -/
theorem collisions_detected (hcalls : ∀ call ∈ calls, call.2.Regular) :
    Detects Json.LooselyEqual calls ∧ (Detects Json.Equal calls ↔ ¬ Masked calls) := by
  refine ⟨detects_looselyEqual hcalls, ?_, detects_equal_of_not_masked hcalls⟩
  intro hdetects hmasked
  exact hmasked.not_detects hcalls hdetects

/-- Features with settings of ports. -/
def portCalls : List (String × Effects) :=
  [("a", { packageConfig := [("ports", .obj [("dev", .int 1), ("open", .bool true)])] }),
    ("b", { packageConfig := [("ports", .obj [("open", .bool true), ("dev", .int 1)])] }),
    ("c", { packageConfig := [("ports", .obj [("dev", .int 2), ("open", .bool true)])] })]

theorem regular_portCalls : ∀ call ∈ portCalls, call.2.Regular := by
  intro call hcall
  simp only [portCalls, List.mem_cons, List.not_mem_nil, or_false] at hcall
  rcases hcall with rfl | rfl | rfl <;>
    exact Effects.regular_setting _ ⟨⟨by decide, trivial, trivial, trivial⟩, nofun⟩

/-- The order of members does not matter, their values do. -/
theorem collisions_detected_ports :
    (∀ call ∈ portCalls, call.2.Regular) ∧
    (∃ a, recordAll {} (portCalls.take 2) = .ok a) ∧ (∀ a, recordAll {} portCalls ≠ .ok a) ∧
    ¬ Consistent Json.LooselyEqual portCalls ∧
    (Detects Json.Equal portCalls ↔ ¬ Masked portCalls) := by
  obtain ⟨hdetects, hiff⟩ := collisions_detected regular_portCalls
  have hrefused (a : Ledger) : recordAll {} portCalls ≠ .ok a := nofun
  refine ⟨regular_portCalls, ⟨_, rfl⟩, hrefused, fun h => ?_, hiff⟩
  obtain ⟨a, ha⟩ := hdetects.merged.2 h
  exact hrefused a ha

/-- A feature that declares `1` where an earlier one declares `true` is not refused. -/
theorem not_detects_truth_as_number :
    ∃ calls : List (String × Effects), calls = [("a", { packageConfig := [("k", .bool true)] }),
        ("b", { packageConfig := [("k", .int 1)] })] ∧
      (∀ call ∈ calls, call.2.Regular) ∧ ¬ Detects Json.Equal calls := by
  refine ⟨_, rfl, ?_, fun h => ?_⟩
  · intro call hcall
    simp only [List.mem_cons, List.not_mem_nil, or_false] at hcall
    rcases hcall with rfl | rfl
    · exact Effects.regular_setting _ ⟨trivial, nofun⟩
    · exact Effects.regular_setting _ ⟨trivial, nofun⟩
  · -- both are merged, but a truth value is no number
    have hconsistent := h.merged.1 ⟨_, rfl⟩
    have hcompatible := (List.pairwise_cons.1 hconsistent).1 _ (.head _)
    cases hcompatible .config "k" (.bool true) (.int 1) rfl rfl with
    | number htrue => cases htrue

end Ledger

end Scaffold
