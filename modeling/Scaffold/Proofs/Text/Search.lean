import Scaffold.Text.Search
import Scaffold.Proofs.Lists
import Scaffold.Proofs.Outcomes
import Mathlib.Data.List.Infix

/-!
# What a search finds

A search is described by the suffixes of the text: it finds the longest one that the recogniser
accepts, and nothing exactly if none is accepted.

* **Suffixes of a concatenation** are suffixes of its second part, or begin in its first one.
* **Occurrences** of a word do not reach over a character that is not in the word.
-/

namespace Scaffold.Text

variable {α : Type} {p : Recogniser α} {s t before after rest : List Char} {v : α}
  {pattern : String}

/-! ## Fixed texts -/

theorem literal?_eq_some {text : String} :
    literal? text s = some rest ↔ s = text.toList ++ rest := by
  rw [literal?, List.isPrefixOf?_eq_some_iff_append_eq, eq_comm]

@[simp]
theorem literal?_append (text : String) (rest : List Char) :
    literal? text (text.toList ++ rest) = some rest :=
  literal?_eq_some.2 rfl

/-- Whether a text occurs in another is whether it is a part of it. -/
theorem occursIn_iff {needle : List Char} : occursIn needle s = true ↔ needle <:+: s := by
  induction s with
  | nil => simp [occursIn]
  | cons c s ih =>
    rw [occursIn, Bool.or_eq_true, ih, List.infix_cons_iff, List.isPrefixOf_iff_prefix]

/-! ## Suffixes and occurrences -/

/-- A suffix of a concatenation is a suffix of the second part, or begins in the first. -/
theorem suffix_append_cases {a b : List Char} (h : t <:+ a ++ b) :
    t <:+ b ∨ ∃ y, y ≠ [] ∧ y <:+ a ∧ t = y ++ b := by
  rcases List.suffix_or_suffix_of_suffix h (List.suffix_append a b) with hb | ⟨y, rfl⟩
  · exact .inl hb
  · by_cases hy : y = []
    · exact .inl (by simp [hy])
    · obtain ⟨z, hz⟩ := h
      rw [← List.append_assoc] at hz
      exact .inr ⟨y, hy, ⟨z, List.append_cancel_right hz⟩, rfl⟩

/-- Two texts that are split at their first character of a kind are split at the same place. -/
theorem append_cons_inj_of_first {P : Char → Prop} {a b u w : List Char} {x y : Char}
    (h : a ++ x :: u = b ++ y :: w) (ha : ∀ c ∈ a, ¬ P c) (hb : ∀ c ∈ b, ¬ P c) (hx : P x)
    (hy : P y) : a = b ∧ x = y ∧ u = w := by
  induction a generalizing b with
  | nil =>
    cases b with
    | nil => simpa using h
    | cons c b =>
      rw [List.nil_append, List.cons_append, List.cons.injEq] at h
      exact absurd (h.1 ▸ hx) (hb c (.head _))
  | cons c a ih =>
    cases b with
    | nil =>
      rw [List.nil_append, List.cons_append, List.cons.injEq] at h
      exact absurd (h.1 ▸ hy) (ha c (.head _))
    | cons d b =>
      rw [List.cons_append, List.cons_append, List.cons.injEq] at h
      obtain ⟨hab, hxy, huw⟩ := ih h.2 (fun e he => ha e (.tail _ he)) fun e he => hb e (.tail _ he)
      exact ⟨by rw [h.1, hab], hxy, huw⟩

/-- Two texts that are split at the first `x` are split at the same place. -/
theorem append_cons_inj_of_not_mem {a b u w : List Char} {x : Char} (h : a ++ x :: u = b ++ x :: w)
    (ha : x ∉ a) (hb : x ∉ b) : a = b ∧ u = w := by
  have hother {s : List Char} (hs : x ∉ s) : ∀ c ∈ s, ¬ c = x := fun c hc hceq => hs (hceq ▸ hc)
  obtain ⟨hab, -, huw⟩ := append_cons_inj_of_first h (hother ha) (hother hb) rfl rfl
  exact ⟨hab, huw⟩

/-- A text that is split at the first `x` and at any `x` is split at the same place, or later. -/
theorem append_cons_cases {a b u w : List Char} {x : Char} (h : a ++ x :: u = b ++ x :: w)
    (ha : x ∉ a) : b = a ∧ w = u ∨ ∃ t, b = a ++ x :: t ∧ u = t ++ x :: w := by
  by_cases hb : x ∈ b
  · obtain ⟨b, t, rfl, hfirst⟩ := List.eq_append_cons_of_mem hb
    rw [List.append_assoc, List.cons_append] at h
    obtain ⟨rfl, hu⟩ := append_cons_inj_of_not_mem h ha hfirst
    exact .inr ⟨t, rfl, hu⟩
  · obtain ⟨rfl, rfl⟩ := append_cons_inj_of_not_mem h ha hb
    exact .inl ⟨rfl, rfl⟩

/-- A word that begins before a character which is not in it ends before it. -/
theorem prefix_of_prefix_append_cons {w a b : List Char} {d : Char} (hd : d ∉ w)
    (h : w <+: a ++ d :: b) : w <+: a := by
  induction a generalizing w with
  | nil =>
    rcases List.prefix_cons_iff.1 h with rfl | ⟨w, rfl, -⟩
    · exact List.nil_prefix
    · exact absurd List.mem_cons_self hd
  | cons c a ih =>
    rcases List.prefix_cons_iff.1 h with rfl | ⟨w, rfl, hw⟩
    · exact List.nil_prefix
    · exact List.prefix_cons_iff.2 (.inr ⟨w, rfl, ih (fun hmem => hd (.tail _ hmem)) hw⟩)

/-- A word whose first character is not in the rest of it does not overlap itself. -/
theorem prefix_of_prefix_append_self {w a b : List Char} {c : Char} (hc : c ∉ w) (ha : a ≠ [])
    (h : c :: w <+: a ++ c :: b) : c :: w <+: a := by
  obtain ⟨d, a, rfl⟩ := List.exists_cons_of_ne_nil ha
  rw [List.cons_append, List.cons_prefix_cons] at h
  exact List.cons_prefix_cons.2 ⟨h.1, prefix_of_prefix_append_cons hc h.2⟩

/-- A word that occurs around a character which is not in it occurs on one side of it. -/
theorem infix_append_cons {w a b : List Char} {d : Char} (hd : d ∉ w) (h : w <:+: a ++ d :: b) :
    w <:+: a ∨ w <:+: b := by
  induction a with
  | nil =>
    rcases List.infix_cons_iff.1 h with hprefix | hb
    · exact .inl (prefix_of_prefix_append_cons (a := []) hd hprefix).isInfix
    · exact .inr hb
  | cons c a ih =>
    rcases List.infix_cons_iff.1 h with hprefix | hrest
    · exact .inl (prefix_of_prefix_append_cons (a := c :: a) hd hprefix).isInfix
    · exact (ih hrest).imp_left fun ha => ha.trans (List.suffix_cons c a).isInfix

/-- A word that occurs around a character occurs on one side of it or with it, or goes on over it. -/
theorem infix_append_cons_cases {w a b : List Char} {d : Char} (h : w <:+: a ++ d :: b) :
    w <:+: a ∨ w <:+: d :: b ∨ ∃ x y, x ≠ [] ∧ x <:+ a ∧ y <+: b ∧ w = x ++ d :: y := by
  rcases List.infix_append_iff_ne_nil.1 h with h | h | ⟨x, z, hx, hz, rfl, hsuffix, hprefix⟩
  · exact .inl h
  · exact .inr (.inl h)
  · rcases List.prefix_cons_iff.1 hprefix with rfl | ⟨y, rfl, hy⟩
    · exact absurd rfl hz
    · exact .inr (.inr ⟨x, y, hx, hsuffix, hy, rfl⟩)

/-! ## Searching -/

theorem find?_eq_none_iff : find? p s = none ↔ ∀ t, t ≠ [] → t <:+ s → p t = none := by
  induction s with
  | nil =>
    refine ⟨fun _ t hne ht => absurd (List.suffix_nil.1 ht) hne, fun _ => rfl⟩
  | cons c s ih =>
    rw [find?]
    constructor
    · intro h t hne ht
      split at h
      · cases h
      · rename_i hp
        rcases List.suffix_cons_iff.1 ht with rfl | ht
        · exact hp
        · exact ih.1 (Option.map_eq_none_iff.1 h) t hne ht
    · intro h
      rw [h _ (List.cons_ne_nil c s) (List.suffix_refl _)]
      simp only [Option.map_eq_none_iff]
      exact ih.2 fun t hne ht => h t hne (ht.trans (List.suffix_cons c s))

/-- What is found begins at the first place that is accepted. -/
theorem find?_eq_some (h : find? p s = some (before, v, after)) :
    ∃ t, t ≠ [] ∧ s = before ++ t ∧ p t = some (v, after) ∧
      ∀ y, y ≠ [] → y <:+ before → p (y ++ t) = none := by
  induction s generalizing before with
  | nil => cases h
  | cons c s ih =>
    rw [find?] at h
    split at h
    · rename_i hp
      cases h
      exact ⟨c :: s, by simp, rfl, hp, fun y hne hy => absurd (List.suffix_nil.1 hy) hne⟩
    · rename_i hp
      obtain ⟨⟨before, w, rest⟩, hfound, heq⟩ := Option.map_eq_some_iff.1 h
      cases heq
      obtain ⟨t, hne, rfl, ht, hnone⟩ := ih hfound
      refine ⟨t, hne, rfl, ht, fun y hy hsuffix => ?_⟩
      rcases List.suffix_cons_iff.1 hsuffix with rfl | hsuffix
      · exact hp
      · exact hnone y hy hsuffix

/-- The first place that is accepted is found. -/
theorem find?_append (hne : t ≠ []) (ht : p t = some (v, after))
    (hnone : ∀ y, y ≠ [] → y <:+ before → p (y ++ t) = none) :
    find? p (before ++ t) = some (before, v, after) := by
  induction before with
  | nil =>
    obtain ⟨c, t, rfl⟩ := List.exists_cons_of_ne_nil hne
    rw [List.nil_append, find?, ht]
  | cons c before ih =>
    have hc := hnone (c :: before) (by simp) (List.suffix_refl _)
    have hrest := ih fun y hy hsuffix => hnone y hy (hsuffix.trans (List.suffix_cons c before))
    rw [List.cons_append] at hc ⊢
    rw [find?, hc, hrest]
    rfl

theorem count_eq_zero_iff : count p s = 0 ↔ find? p s = none := by
  rw [count]
  split
  · simp [*]
  · rename_i hfound
    rw [hfound]
    split <;> simp

theorem anchor_of_none (h : find? p s = none) : anchor pattern p s = .error ⟨pattern, 0⟩ := by
  rw [anchor, unique?, h]
  rfl

/-- There is one place exactly if the search finds one, and none after it. -/
theorem unique?_eq_ok_iff :
    unique? p s = .ok (before, v, after) ↔
      find? p s = some (before, v, after) ∧ find? p after = none := by
  rw [unique?]
  cases hfound : find? p s with
  | none => simp
  | some r =>
    obtain ⟨b, w, a⟩ := r
    simp only
    split
    · rename_i hcount
      simp only [Except.ok.injEq, Option.some.injEq, Prod.mk.injEq]
      constructor
      · rintro ⟨rfl, rfl, rfl⟩
        exact ⟨⟨rfl, rfl, rfl⟩, count_eq_zero_iff.1 hcount⟩
      · exact And.left
    · rename_i n hcount
      simp only [reduceCtorEq, Option.some.injEq, Prod.mk.injEq, false_iff, not_and]
      rintro ⟨rfl, rfl, rfl⟩ hnone
      rw [count_eq_zero_iff.2 hnone] at hcount
      cases hcount

/-- An anchor is found exactly if there is one place and no other one. -/
theorem anchor_ok_iff :
    anchor pattern p s = .ok (before, v, after) ↔
      find? p s = some (before, v, after) ∧ find? p after = none := by
  rw [anchor, mapError_eq_ok_iff, unique?_eq_ok_iff]

/-- What is done at an anchor is done at the only place. -/
theorem anchor_bind_eq_ok {β : Type} {f : List Char × α × List Char → Except AnchorFault β} {b : β}
    (h : (anchor pattern p s >>= f) = .ok b) : ∃ before v after,
      find? p s = some (before, v, after) ∧ find? p after = none ∧
        f (before, v, after) = .ok b := by
  obtain ⟨⟨before, v, after⟩, hanchor, hf⟩ := bind_eq_ok_iff.1 h
  obtain ⟨hfind, hnone⟩ := anchor_ok_iff.1 hanchor
  exact ⟨before, v, after, hfind, hnone, hf⟩

/-- The number of places in a refusal is not one. -/
theorem anchor_error {fault : AnchorFault} (h : anchor pattern p s = .error fault) :
    ∃ n, n ≠ 1 ∧ fault = ⟨pattern, n⟩ := by
  obtain ⟨n, hunique, rfl⟩ := mapError_eq_error_iff.1 h
  refine ⟨n, ?_, rfl⟩
  rintro rfl
  unfold unique? at hunique
  split at hunique
  · cases hunique
  · split at hunique <;> cases hunique

end Scaffold.Text
