import Scaffold.Proofs.Text.Search

/-!
# Scanning a text

A text is scanned from left to right for what can be read in it. The scan goes on behind what it has
read, so readings do not overlap.

* **The scan is a relation** of a text to the number of readings, without a recogniser in it. Every
  text has one number, if a reading ends in one way.
* **`count` is this number**, for a recogniser that never reads an empty text, and an anchor is refused
  with it.
-/

namespace Scaffold.Text

variable {α : Type} {p : Recogniser α} {s before after : List Char} {v : α} {n m : Nat}
  {reads : List Char → List Char → Prop} {pattern : String}

/-- A scan of a text from left to right, with the number of its readings. `reads s after` says that
something can be read at the start of `s`, and that `after` follows it. -/
inductive Scan (reads : List Char → List Char → Prop) : List Char → Nat → Prop
  /-- the end of the text -/
  | done : Scan reads [] 0
  /-- nothing can be read, and the scan goes on behind one character -/
  | skip {c : Char} {s : List Char} {n : Nat} (h : ∀ after, ¬ reads (c :: s) after)
      (hrest : Scan reads s n) : Scan reads (c :: s) n
  /-- something is read, and the scan goes on behind it -/
  | read {s after : List Char} {n : Nat} (hne : s ≠ []) (h : reads s after)
      (hrest : Scan reads after n) : Scan reads s (n + 1)

/-- A text has one number of readings. -/
theorem Scan.unique (hreads : ∀ s after after', reads s after → reads s after' → after = after')
    (h : Scan reads s n) (hother : Scan reads s m) : n = m := by
  induction h generalizing m with
  | done =>
    cases hother with
    | done => rfl
    | read hne => exact absurd rfl hne
  | skip h _ ih =>
    cases hother with
    | skip _ hrest => exact ih hrest
    | read _ hread => exact absurd hread (h _)
  | read hne h _ ih =>
    cases hother with
    | done => exact absurd rfl hne
    | skip hnone => exact absurd h (hnone _)
    | read _ h' hrest =>
      obtain rfl := hreads _ _ _ h h'
      rw [ih hrest]

/-- What a recogniser reads, and what follows. -/
def Recogniser.Reads (p : Recogniser α) (s after : List Char) : Prop := ∃ v, p s = some (v, after)

theorem Recogniser.Reads.unique {after' : List Char} (h : p.Reads s after) (h' : p.Reads s after') :
    after = after' := by
  obtain ⟨v, hv⟩ := h
  obtain ⟨w, hw⟩ := h'
  exact (Prod.mk.inj (Option.some.inj (hv.symm.trans hw))).2

/-- A recogniser that never reads an empty text: what follows is shorter. -/
def Recogniser.Advances (p : Recogniser α) : Prop :=
  ∀ s v after, p s = some (v, after) → after.length < s.length

/-- Where nothing is found, nothing is read. -/
theorem scan_of_find?_none (h : find? p s = none) : Scan p.Reads s 0 := by
  induction s with
  | nil => exact .done
  | cons c s ih =>
    refine .skip (fun after hread => ?_) (ih (find?_eq_none_iff.2 fun t hne ht => ?_))
    · obtain ⟨v, hv⟩ := hread
      rw [find?_eq_none_iff.1 h _ (List.cons_ne_nil c s) (List.suffix_refl _)] at hv
      cases hv
    · exact find?_eq_none_iff.1 h t hne (ht.trans (List.suffix_cons c s))

/-- The first place that is found is the first reading. -/
theorem scan_of_find?_some (h : find? p s = some (before, v, after))
    (hafter : Scan p.Reads after n) : Scan p.Reads s (n + 1) := by
  obtain ⟨t, hne, rfl, hread, hnone⟩ := find?_eq_some h
  clear h
  induction before with
  | nil => exact .read hne ⟨v, hread⟩ hafter
  | cons c before ih =>
    refine .skip (fun after hread => ?_) (ih fun y hy hsuffix => ?_)
    · obtain ⟨w, hw⟩ := hread
      exact absurd ((hnone _ (List.cons_ne_nil c before) (List.suffix_refl _)).symm.trans hw) nofun
    · exact hnone y hy (hsuffix.trans (List.suffix_cons c before))

/-- What follows the first place is shorter than the text. -/
theorem Recogniser.Advances.length_lt_of_find? (hp : p.Advances)
    (h : find? p s = some (before, v, after)) : after.length < s.length := by
  obtain ⟨t, -, rfl, hread, -⟩ := find?_eq_some h
  have := hp t v after hread
  rw [List.length_append]
  omega

theorem Recogniser.Advances.count_eq (hp : p.Advances) (h : find? p s = some (before, v, after)) :
    count p s = count p after + 1 := by
  rw [count, h]
  exact dif_pos (hp.length_lt_of_find? h)

/-- **The number of places is the number of readings.** -/
theorem Recogniser.Advances.scan_iff (hp : p.Advances) : Scan p.Reads s n ↔ n = count p s := by
  have hscan (s : List Char) : Scan p.Reads s (count p s) := by
    induction hlength : s.length using Nat.strong_induction_on generalizing s with
    | _ length ih =>
      cases hfind : find? p s with
      | none =>
        rw [count_eq_zero_iff.2 hfind]
        exact scan_of_find?_none hfind
      | some found =>
        obtain ⟨before, v, after⟩ := found
        rw [hp.count_eq hfind]
        have hlt := hp.length_lt_of_find? hfind
        exact scan_of_find?_some hfind (ih _ (hlength ▸ hlt) after rfl)
  constructor
  · exact fun h => Scan.unique (fun _ _ _ hread hread' => hread.unique hread') h (hscan s)
  · rintro rfl
    exact hscan s

/-- **An anchor is found exactly if the scan reads it once**, and refused with the number of readings
in every other case. -/
theorem Recogniser.Advances.anchor_cases (hp : p.Advances) (pattern : String) (s : List Char) :
    (count p s = 1 ∧ ∃ before v after, anchor pattern p s = .ok (before, v, after)) ∨
      (count p s ≠ 1 ∧ anchor pattern p s = .error ⟨pattern, count p s⟩) := by
  rw [anchor, unique?]
  cases hfind : find? p s with
  | none =>
    rw [count_eq_zero_iff.2 hfind]
    exact .inr ⟨by decide, rfl⟩
  | some found =>
    obtain ⟨before, v, after⟩ := found
    rw [hp.count_eq hfind]
    cases hcount : count p after with
    | zero =>
      refine .inl ⟨rfl, before, v, after, ?_⟩
      simp only [hcount, Except.mapError]
    | succ n =>
      refine .inr ⟨by omega, ?_⟩
      simp only [hcount, Except.mapError]

end Scaffold.Text
