import Scaffold.Decimal.Shortest
import Scaffold.Proofs.Lists
import Mathlib.Tactic.Ring
import Mathlib.Tactic.Linarith

/-!
# Seventeen digits suffice

The search for the shortest decimal tries seventeen grids. It never runs out: on the last grid the
points lie closer together than the ends of the interval.

* **Powers of ten** with a positive or negative exponent are a pair of natural numbers, one of them
  one (`powerFraction_eq`), so all comparisons are between natural numbers.
* **The digits** of the answer begin with a digit that is not zero (`exists_digits_shortest`).
-/

namespace Scaffold.Decimal

variable {n num den m : Nat} {e : Int}

/-! ## Powers of ten -/

theorem powerFraction_eq (n : Nat) (e : Int) :
    powerFraction n e = (n * 10 ^ e.toNat, 10 ^ (-e).toNat) := by
  unfold powerFraction
  split
  · have : e.toNat = 0 := by omega
    simp [this]
  · have : (-e).toNat = 0 := by omega
    simp [this]

theorem width_pos (n : Nat) : 0 < width n := Nat.length_toDigits_pos

theorem lt_pow_width (n : Nat) : n < 10 ^ width n :=
  (Nat.length_toDigits_le_iff (by decide) (width_pos n)).1 (Nat.le_refl _)

theorem pow_width_le (h : n ≠ 0) : 10 ^ (width n - 1) ≤ n := by
  by_cases hw : width n = 1
  · simpa [hw] using Nat.one_le_iff_ne_zero.2 h
  · have hpos : 0 < width n - 1 := by
      have := width_pos n
      omega
    refine Nat.not_lt.1 fun hlt => ?_
    have hle : width n ≤ width n - 1 := (Nat.length_toDigits_le_iff (by decide) hpos).2 hlt
    omega

/-- The power of ten just below a positive rational does not exceed it. -/
theorem pow_pointOf_le (hnum : 0 < num) (hden : 0 < den) :
    den * 10 ^ (pointOf num den - 1).toNat ≤ num * 10 ^ (1 - pointOf num den).toNat := by
  unfold pointOf
  split
  · rename_i hle
    have hquot : num / den ≠ 0 := (Nat.div_pos hle hden).ne'
    have hw := width_pos (num / den)
    have hup : ((width (num / den) : Int) - 1).toNat = width (num / den) - 1 := by omega
    have hdown : (1 - (width (num / den) : Int)).toNat = 0 := by omega
    rw [hup, hdown, pow_zero, mul_one]
    calc den * 10 ^ (width (num / den) - 1) ≤ den * (num / den) :=
          Nat.mul_le_mul_left _ (pow_width_le hquot)
      _ ≤ num := Nat.mul_div_le num den
  · rename_i hlt
    have hw := width_pos (den / num)
    simp only
    split
    · rename_i heq
      have hup : (2 - (width (den / num) : Int) - 1).toNat = 0 := by omega
      have hdown : (1 - (2 - (width (den / num) : Int))).toNat = width (den / num) - 1 := by omega
      rw [hup, hdown, pow_zero, mul_one]
      exact (beq_iff_eq.1 heq).ge
    · have hup : (1 - (width (den / num) : Int) - 1).toNat = 0 := by omega
      have hdown : (1 - (1 - (width (den / num) : Int))).toNat = width (den / num) := by omega
      rw [hup, hdown, pow_zero, mul_one]
      have := Nat.lt_mul_of_div_lt (lt_pow_width (den / num)) hnum
      linarith

/-! ## The last grid -/

/-- On the grid of seventeen digits at least `10 ^ 16` steps lead to the number. -/
theorem steps_le (hnum : 0 < num) (hden : 0 < den) :
    den * 10 ^ (pointOf num den - 17).toNat * 10 ^ 16 ≤
      num * 10 ^ (17 - pointOf num den).toNat := by
  have h := pow_pointOf_le hnum hden
  generalize pointOf num den = p at h ⊢
  rcases le_or_gt 17 p with hp | hp
  · have h1 : (p - 1).toNat = (p - 17).toNat + 16 := by omega
    have h2 : (1 - p).toNat = 0 := by omega
    have h3 : (17 - p).toNat = 0 := by omega
    rw [h1, h2, pow_add] at h
    rw [h3]
    linarith
  rcases le_or_gt p 1 with hp1 | hp1
  · have h1 : (p - 1).toNat = 0 := by omega
    have h2 : (p - 17).toNat = 0 := by omega
    have h3 : (17 - p).toNat = (1 - p).toNat + 16 := by omega
    rw [h1, pow_zero, mul_one] at h
    rw [h2, h3, pow_zero, mul_one, pow_add, ← mul_assoc]
    exact Nat.mul_le_mul_right _ h
  · have h1 : (1 - p).toNat = 0 := by omega
    have h2 : (p - 17).toNat = 0 := by omega
    have h3 : (p - 1).toNat + (17 - p).toNat = 16 := by omega
    rw [h1, pow_zero, mul_one] at h
    rw [h2, pow_zero, mul_one, ← h3, pow_add, ← mul_assoc]
    exact Nat.mul_le_mul_right _ h

theorem onGrid_ne_zero {i : Interval} (h : i.onGrid e = some n) : n ≠ 0 := by
  unfold Interval.onGrid at h
  simp only [powerFraction_eq] at h
  split at h
  · rename_i hboth _
    simp only [Bool.and_eq_true, bne_iff_ne, ne_eq] at hboth
    cases h
    split
    · exact hboth.1
    · exact Nat.succ_ne_zero _
  · rename_i hlow _
    simp only [Bool.and_eq_true, bne_iff_ne, ne_eq] at hlow
    cases h
    exact hlow.1
  · cases h
    exact Nat.succ_ne_zero _
  · cases h

theorem has_of_lt {i : Interval} (hlow : i.low * den < num * i.den)
    (hhigh : num * i.den < i.high * den) : i.has num den = true := by
  unfold Interval.has
  cases i.closed <;> simp [hlow, hhigh, hlow.le, hhigh.le]

/-- A grid that is finer than the interval has a point in it. -/
theorem isSome_onGrid {i : Interval} (hlow : i.low < i.mid) (hhigh : i.mid < i.high)
    (hsteps : i.den * 10 ^ e.toNat ≤ i.mid * 10 ^ (-e).toNat)
    (hden : 0 < i.den)
    (hfine : i.low * 10 ^ (-e).toNat + i.den * 10 ^ e.toNat < i.high * 10 ^ (-e).toNat) :
    (i.onGrid e).isSome := by
  have hunit : 0 < i.den * 10 ^ e.toNat := by positivity
  have hscale : 0 < 10 ^ (-e).toNat := by positivity
  have hmul := Nat.div_add_mod (i.mid * 10 ^ (-e).toNat) (i.den * 10 ^ e.toNat)
  have hrest := Nat.mod_lt (i.mid * 10 ^ (-e).toNat) hunit
  have hpos : 0 < i.mid * 10 ^ (-e).toNat / (i.den * 10 ^ e.toNat) := Nat.div_pos hsteps hunit
  have hlow' := Nat.mul_lt_mul_of_pos_right hlow hscale
  have hhigh' := Nat.mul_lt_mul_of_pos_right hhigh hscale
  unfold Interval.onGrid
  simp only [powerFraction_eq, one_mul]
  generalize i.mid * 10 ^ (-e).toNat / (i.den * 10 ^ e.toNat) = a at hmul hpos ⊢
  have hswap (k : Nat) : k * 10 ^ e.toNat * i.den = i.den * 10 ^ e.toNat * k := by ring
  have hnext : i.den * 10 ^ e.toNat * (a + 1) = i.den * 10 ^ e.toNat * a + i.den * 10 ^ e.toNat := by
    ring
  have hhit : i.has (a * 10 ^ e.toNat) (10 ^ (-e).toNat) = true ∨
      i.has ((a + 1) * 10 ^ e.toNat) (10 ^ (-e).toNat) = true := by
    rcases Nat.lt_or_ge (i.low * 10 ^ (-e).toNat) (i.den * 10 ^ e.toNat * a) with hinside | houtside
    · left
      refine has_of_lt ?_ ?_ <;> rw [hswap] <;> omega
    · right
      refine has_of_lt ?_ ?_ <;> rw [hswap] <;> omega
  split
  · rfl
  · rfl
  · rfl
  · rename_i hmiss hmiss'
    simp only [Bool.and_eq_false_iff, bne_eq_false_iff_eq] at hmiss
    rcases hhit with hhit | hhit
    · rcases hmiss with hzero | hmiss
      · omega
      · rw [hhit] at hmiss
        cases hmiss
    · rw [hhit] at hmiss'
      cases hmiss'

/-- The interval around a number: half a unit of the significand to either side, or a quarter of a
unit below a power of two. -/
theorem around_eq (m : Nat) (e : Int) :
    ∃ below, (below = 2 ∨ below = 1 ∧ m = 2 ^ 52) ∧
      Interval.around m e = ⟨(4 * m - below) * 2 ^ (e - 2).toNat, 4 * m * 2 ^ (e - 2).toNat,
        (4 * m + 2) * 2 ^ (e - 2).toNat, 2 ^ (2 - e).toNat, m % 2 == 0⟩ := by
  unfold Interval.around
  simp only [Nat.one_shiftLeft]
  split
  · rename_i h
    simp only [Bool.and_eq_true, beq_iff_eq] at h
    exact ⟨1, .inr ⟨rfl, h.1⟩, rfl⟩
  · exact ⟨2, .inl rfl, rfl⟩

/-- The grid of seventeen digits is finer than the interval around a number of the format. -/
theorem isSome_lastGrid (hpos : 0 < m) (hm : m ≤ 2 ^ 53) (e : Int) :
    ((Interval.around m e).onGrid
      (pointOf (Interval.around m e).mid (Interval.around m e).den - 17)).isSome := by
  obtain ⟨below, hbelow, heq⟩ := around_eq m e
  rw [heq]
  simp only
  have hscale : 0 < 2 ^ (e - 2).toNat := by positivity
  have hden : 0 < 2 ^ (2 - e).toNat := by positivity
  generalize 2 ^ (e - 2).toNat = scale at hscale ⊢
  generalize 2 ^ (2 - e).toNat = den at hden ⊢
  have hsteps := steps_le (show 0 < 4 * m * scale by positivity) hden
  generalize pointOf (4 * m * scale) den = p at hsteps ⊢
  have hneg : -(p - 17) = 17 - p := by omega
  have hwide : den * 10 ^ (p - 17).toNat < (2 + below) * (scale * 10 ^ (17 - p).toNat) := by
    have hV : 0 < scale * 10 ^ (17 - p).toNat := by positivity
    generalize hU : den * 10 ^ (p - 17).toNat = U at hsteps ⊢
    have hM : U * 10 ^ 16 ≤ 4 * m * (scale * 10 ^ (17 - p).toNat) := by
      rw [← mul_assoc]
      exact hsteps
    generalize scale * 10 ^ (17 - p).toNat = V at hV hM ⊢
    refine Nat.not_le.1 fun hle => ?_
    have hmany : (2 + below) * 10 ^ 16 * V ≤ 4 * m * V := by
      calc (2 + below) * 10 ^ 16 * V = (2 + below) * V * 10 ^ 16 := by ring
        _ ≤ U * 10 ^ 16 := Nat.mul_le_mul_right _ hle
        _ ≤ 4 * m * V := hM
    have := Nat.le_of_mul_le_mul_right hmany hV
    omega
  refine isSome_onGrid ?_ ?_ ?_ hden ?_
  · exact Nat.mul_lt_mul_of_pos_right (by omega) hscale
  · exact Nat.mul_lt_mul_of_pos_right (by omega) hscale
  · rw [hneg]
    exact (Nat.le_mul_of_pos_right _ (by positivity)).trans hsteps
  · have hsplit : (4 * m + 2) * scale * 10 ^ (17 - p).toNat =
        (4 * m - below) * scale * 10 ^ (17 - p).toNat +
          (2 + below) * (scale * 10 ^ (17 - p).toNat) := by
      have hsum : 4 * m + 2 = (4 * m - below) + (2 + below) := by omega
      rw [hsum]
      ring
    rw [hneg]
    change (4 * m - below) * scale * _ + _ < (4 * m + 2) * scale * _
    rw [hsplit]
    exact Nat.add_lt_add_left hwide _

/-! ## The answer -/

/-- A search that has a hit on its last grid does not run out. -/
theorem exists_firstHit {i : Interval} {point : Int} (fuel digits : Nat)
    (h : (i.onGrid (point - (digits + fuel : Nat))).isSome) :
    ∃ n e', n ≠ 0 ∧ i.firstHit point digits (fuel + 1) = some (ofScaled n e') := by
  induction fuel generalizing digits with
  | zero =>
    obtain ⟨n, hn⟩ := Option.isSome_iff_exists.1 h
    refine ⟨n, point - digits, onGrid_ne_zero hn, ?_⟩
    rw [Nat.add_zero] at hn
    simp [Interval.firstHit, hn]
  | succ fuel ih =>
    rw [Interval.firstHit]
    split
    · rename_i n hn
      exact ⟨n, _, onGrid_ne_zero hn, rfl⟩
    · have hsame : digits + 1 + fuel = digits + (fuel + 1) := by omega
      exact ih (digits + 1) (by rwa [hsame])

/-- The digits of a positive number begin with one that is not zero. -/
theorem exists_toDigits (h : n ≠ 0) : ∃ c rest, Nat.toDigits 10 n = c :: rest ∧ c ≠ '0' := by
  induction n using Nat.strongRecOn with
  | ind n ih =>
    rcases Nat.lt_or_ge n 10 with hlt | hge
    · refine ⟨n.digitChar, [], Nat.toDigits_of_lt_base hlt, ?_⟩
      have hall : ∀ k < 10, k ≠ 0 → k.digitChar ≠ '0' := by decide
      exact hall n hlt h
    · obtain ⟨c, rest, hdigits, hc⟩ := ih (n / 10) (by omega) (by omega)
      exact ⟨c, rest ++ [(n % 10).digitChar],
        by rw [Nat.toDigits_of_base_le (by decide) hge, hdigits, List.cons_append], hc⟩

/-- Digits without zeros at the end are still there, and begin as before. -/
theorem exists_ofScaled (h : n ≠ 0) (e : Int) :
    ∃ c rest, (ofScaled n e).digits = c :: rest ∧ c ≠ '0' ∧ ∀ d ∈ c :: rest, d.isDigit := by
  obtain ⟨c, rest, hdigits, hc⟩ := exists_toDigits h
  have hall : ∀ d ∈ c :: rest, d.isDigit := by
    rw [← hdigits]
    exact fun d hd => Nat.isDigit_of_mem_toDigits (by decide) (by decide) hd
  have hkept : (ofScaled n e).digits = c :: (rest.reverse.dropWhile (· == '0')).reverse := by
    have hc' : (c == '0') = false := by simpa using hc
    unfold ofScaled
    rw [hdigits]
    simp only [List.reverse_cons, List.dropWhile_append]
    split
    · rename_i hempty
      rw [List.isEmpty_iff.1 hempty]
      simp [hc']
    · simp
  refine ⟨c, _, hkept, hc, fun d hd => hall d ?_⟩
  rw [List.mem_cons, List.mem_reverse] at hd
  rcases hd with rfl | hd
  · exact .head _
  · exact .tail _ (List.mem_reverse.1 ((List.dropWhile_suffix _).subset hd))

/-- The shortest decimal is some number's digits without zeros at the end. -/
theorem exists_shortest (hpos : 0 < m) (hm : m ≤ 2 ^ 53) (e : Int) :
    ∃ n e', n ≠ 0 ∧ shortest m e = ofScaled n e' := by
  obtain ⟨n, e', hn, hhit⟩ := exists_firstHit 16 1 (isSome_lastGrid hpos hm e)
  refine ⟨n, e', hn, ?_⟩
  unfold shortest
  simp only [hhit, Option.getD_some]

/-- **The shortest decimal has digits**, and the first of them is not zero. -/
theorem exists_digits_shortest (hpos : 0 < m) (hm : m ≤ 2 ^ 53) (e : Int) :
    ∃ c rest, (shortest m e).digits = c :: rest ∧ c ≠ '0' ∧ ∀ d ∈ c :: rest, d.isDigit := by
  obtain ⟨n, e', hn, heq⟩ := exists_shortest hpos hm e
  rw [heq]
  exact exists_ofScaled hn e'

end Scaffold.Decimal
