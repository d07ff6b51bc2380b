import Scaffold.Text.Wide
import Mathlib.Data.List.Basic

/-!
# Strings and their code points

A string is nothing but its code points: gathering them gives the string back, and a string is a text
exactly if each of them is a character. Read letter by letter, a text is its characters.
-/

namespace Scaffold

/-- Code points that are all characters. -/
def AreChars (l : List CodePoint) : Prop := ∀ p ∈ l, ∃ c, p = .char c

section AreChars

variable {l m : List CodePoint} {p : CodePoint}

@[simp]
theorem areChars_nil : AreChars [] := nofun

@[simp]
theorem areChars_cons : AreChars (p :: l) ↔ (∃ c, p = .char c) ∧ AreChars l := List.forall_mem_cons

@[simp]
theorem areChars_append : AreChars (l ++ m) ↔ AreChars l ∧ AreChars m := List.forall_mem_append

@[simp]
theorem areChars_map_char (s : List Char) : AreChars (s.map .char) := by
  intro p hp
  obtain ⟨c, -, rfl⟩ := List.mem_map.1 hp
  exact ⟨c, rfl⟩

end AreChars

namespace Wide

variable {s t : Wide}

theorem text_injective : Function.Injective Wide.text := fun _ _ => Wide.text.inj

theorem points_gather (chars : List Char) (l : List CodePoint) :
    (gather chars l).points = chars.reverse.map .char ++ l := by
  fun_induction gather chars l with
  | case1 => simp [points]
  | case2 chars c rest ih => simp [ih]
  | case3 chars u rest ih => simp [points, ih]

@[simp]
theorem points_ofPoints (l : List CodePoint) : (ofPoints l).points = l := points_gather [] l

theorem gather_map_append (chars rest : List Char) (l : List CodePoint) :
    gather chars (rest.map .char ++ l) = gather (rest.reverse ++ chars) l := by
  induction rest generalizing chars with
  | nil => rfl
  | cons c rest ih => simp [gather, ih]

@[simp]
theorem ofPoints_points (s : Wide) : ofPoints s.points = s := by
  unfold ofPoints
  induction s with
  | text s => simpa [points, gather] using gather_map_append [] s.toList []
  | half before u after ih => simp [points, gather_map_append, gather, ih]

theorem points_injective : Function.Injective points :=
  Function.LeftInverse.injective ofPoints_points

@[simp]
theorem ofPoints_map_char (l : List Char) : ofPoints (l.map .char) = .text (String.ofList l) := by
  simpa [points] using ofPoints_points (.text (String.ofList l))

theorem number_injective : Function.Injective CodePoint.number := by
  -- halves have the numbers that characters leave free
  have hchar (c : Char) : ¬ (0xD800 ≤ c.toNat ∧ c.toNat < 0xE000) := by
    rcases c.valid with h | h
    · exact fun h' => absurd h (Nat.not_lt.2 h'.1)
    · exact fun h' => absurd h'.2 (Nat.not_lt.2 h.1)
  rintro (c | u) (d | w) h
  · exact congrArg CodePoint.char (Char.toNat_inj.1 h)
  · have hc : c.toNat = w := h
    exact absurd (hc ▸ w.2) (hchar c)
  · have hd : u = d.toNat := h
    exact absurd (hd ▸ u.2) (hchar d)
  · exact congrArg CodePoint.half (Subtype.ext h)

/-- Strings with the same numbers are the same. -/
theorem numbers_injective : Function.Injective numbers :=
  (List.map_injective_iff.2 number_injective).comp points_injective

/-! ### Order -/

theorem lt_irrefl (s : Wide) : ¬ s < s := List.lt_irrefl s.numbers

theorem lt_asymm (h : s < t) : ¬ t < s := @List.lt_asymm Nat _ _ s.numbers t.numbers h

theorem le_trans {r : Wide} (h : r ≤ s) (h' : s ≤ t) : r ≤ t :=
  @List.le_trans Nat _ _ _ _ r.numbers s.numbers t.numbers h h'

theorem le_total (s t : Wide) : s ≤ t ∨ t ≤ s := List.le_total s.numbers t.numbers

theorem lt_of_le_of_ne (h : s ≤ t) (hne : s ≠ t) : s < t := by
  by_contra hnot
  exact hne (numbers_injective (@List.le_antisymm Nat _ _ s.numbers t.numbers h hnot))

/-! ### Texts -/

theorem isText_iff_points : s.isText = true ↔ AreChars s.points := by
  cases s with
  | text s => exact iff_of_true rfl (areChars_map_char s.toList)
  | half before u after => simp [isText, points]

theorem isText_ofPoints {l : List CodePoint} : (ofPoints l).isText = true ↔ AreChars l := by
  rw [isText_iff_points, points_ofPoints]

theorem isText_iff : s.isText = true ↔ s = .text s.shown := by
  cases s <;> simp [isText, shown]

/-- The halves that keep a string from being a text are there exactly if it is none. -/
theorem exists_asText_eq_error_iff : (∃ halves, s.asText = .error halves) ↔ s.isText = false := by
  cases s <;> simp [asText, isText]

end Wide

/-! ## Letters -/

namespace Letter

variable {γ : Type} [Letter γ]

@[simp]
theorem char_char (c : Char) : Letter.char c = c := rfl

@[simp]
theorem point_char (c : Char) : Letter.point c = .char c := rfl

@[simp]
theorem char_point (c : Char) : Letter.char (CodePoint.char c) = c := rfl

@[simp]
theorem point_point (p : CodePoint) : Letter.point p = p := rfl

@[simp]
theorem chars_nil : chars ([] : List γ) = [] := rfl

@[simp]
theorem chars_cons (c : γ) (s : List γ) : chars (c :: s) = Letter.char c :: chars s := rfl

@[simp]
theorem chars_append (s t : List γ) : chars (s ++ t) = chars s ++ chars t := List.map_append

@[simp]
theorem length_chars (s : List γ) : (chars s).length = s.length := List.length_map _

@[simp]
theorem chars_chars (s : List Char) : chars s = s := List.map_id s

@[simp]
theorem chars_map_char (s : List Char) : chars (s.map CodePoint.char) = s := by
  rw [chars, List.map_map]
  exact List.map_id s

end Letter

end Scaffold
