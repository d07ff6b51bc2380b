import Scaffold.Decimal.Binary64
import Mathlib.Tactic.Ring
import Mathlib.Tactic.Linarith

/-!
# Numbers of the format

Reading a decimal gives a number whose significand fits: rounding goes to the exponent at which the
rational lies below `2 ^ 53`.
-/

namespace Scaffold.Binary64

variable {num den k : Nat} {e f : Int}

/-- A number whose significand, if it has one, is at most `2 ^ 53`. -/
inductive Fits : Binary64 → Prop
  | notANumber : Fits .notANumber
  | infinity (negative : Bool) : Fits (.infinity negative)
  | finite (negative : Bool) (m : Nat) (e : Int) (h : m ≤ 2 ^ 53) : Fits (.finite negative m e)

theorem scaleDown_eq (num den : Nat) (e : Int) :
    scaleDown num den e = (num * 2 ^ (-e).toNat, den * 2 ^ e.toNat) := by
  unfold scaleDown
  simp only [Nat.shiftLeft_eq]
  split
  · have : e.toNat = 0 := by omega
    simp [this]
  · have : (-e).toNat = 0 := by omega
    simp [this]

/-- The rational over `2 ^ e` is below `2 ^ 53`. -/
def Below (num den : Nat) (e : Int) : Prop :=
  num * 2 ^ (-e).toNat < den * 2 ^ e.toNat * 2 ^ 53

/-- A greater exponent makes the quotient smaller. -/
theorem Below.mono (h : Below num den e) (hef : e ≤ f) : Below num den f := by
  have hexp : (-e).toNat + f.toNat = (-f).toNat + e.toNat + (f - e).toNat := by omega
  unfold Below at h ⊢
  refine Nat.lt_of_mul_lt_mul_right (a := 2 ^ (-e).toNat) ?_
  calc num * 2 ^ (-f).toNat * 2 ^ (-e).toNat
      = num * 2 ^ (-e).toNat * 2 ^ (-f).toNat := by ring
    _ < den * 2 ^ e.toNat * 2 ^ 53 * 2 ^ (-f).toNat :=
        Nat.mul_lt_mul_of_pos_right h (by positivity)
    _ = den * 2 ^ 53 * 2 ^ ((-f).toNat + e.toNat) := by ring
    _ ≤ den * 2 ^ 53 * 2 ^ ((-f).toNat + e.toNat + (f - e).toNat) :=
        Nat.mul_le_mul_left _ (Nat.pow_le_pow_right (by decide) (by omega))
    _ = den * 2 ^ f.toNat * 2 ^ 53 * 2 ^ (-e).toNat := by
        rw [← hexp]
        ring

theorem below_guess (num : Nat) (hden : den ≠ 0) :
    Below num den ((Nat.log2 num : Int) - (Nat.log2 den : Int) - 52) := by
  have hup : num < 2 ^ (Nat.log2 num + 1) := Nat.lt_log2_self
  have hdown : 2 ^ Nat.log2 den ≤ den := Nat.log2_self_le hden
  unfold Below
  generalize hg : (Nat.log2 num : Int) - (Nat.log2 den : Int) - 52 = g
  have hexp : Nat.log2 num + 1 + (-g).toNat = Nat.log2 den + g.toNat + 53 := by omega
  calc num * 2 ^ (-g).toNat < 2 ^ (Nat.log2 num + 1) * 2 ^ (-g).toNat :=
        Nat.mul_lt_mul_of_pos_right hup (by positivity)
    _ = 2 ^ Nat.log2 den * 2 ^ g.toNat * 2 ^ 53 := by
        rw [← pow_add, hexp, pow_add, pow_add]
    _ ≤ den * 2 ^ g.toNat * 2 ^ 53 :=
        Nat.mul_le_mul_right _ (Nat.mul_le_mul_right _ hdown)

theorem below_exponentFor (num : Nat) (hden : den ≠ 0) :
    Below num den (exponentFor num den) := by
  have hguess := below_guess num hden
  unfold exponentFor
  simp only [scaleDown_eq, Nat.shiftLeft_eq]
  generalize (Nat.log2 num : Int) - (Nat.log2 den : Int) - 52 = g at hguess ⊢
  refine Below.mono (e := if num * 2 ^ (-g).toNat < den * 2 ^ g.toNat * 2 ^ 52 then g - 1 else g)
    ?_ (le_max_right _ _)
  split
  · rename_i hsmall
    -- one step down at most doubles the quotient
    have hexp : (-(g - 1)).toNat + g.toNat = (-g).toNat + (g - 1).toNat + 1 := by omega
    unfold Below
    refine Nat.lt_of_mul_lt_mul_right (a := 2 ^ g.toNat) ?_
    calc num * 2 ^ (-(g - 1)).toNat * 2 ^ g.toNat
        = num * 2 ^ (-g).toNat * (2 ^ (g - 1).toNat * 2) := by
          rw [mul_assoc, ← pow_add, hexp]
          ring
      _ < den * 2 ^ g.toNat * 2 ^ 52 * (2 ^ (g - 1).toNat * 2) :=
          Nat.mul_lt_mul_of_pos_right hsmall (by positivity)
      _ = den * 2 ^ (g - 1).toNat * 2 ^ 53 * 2 ^ g.toNat := by ring
  · exact hguess

theorem roundHalfEven_le (h : num < den * 2 ^ 53) : roundHalfEven num den ≤ 2 ^ 53 := by
  have hq : num / den < 2 ^ 53 := Nat.div_lt_of_lt_mul h
  unfold roundHalfEven
  simp only
  split <;> omega

theorem fits_zero {negative : Bool} : (zero negative).Fits := .finite _ _ _ (Nat.zero_le _)

theorem fits_ofRatio (negative : Bool) (num : Nat) (hden : den ≠ 0) :
    (ofRatio negative num den).Fits := by
  have hbelow := below_exponentFor num hden
  have hround : roundHalfEven (scaleDown num den (exponentFor num den)).1
      (scaleDown num den (exponentFor num den)).2 ≤ 2 ^ 53 := by
    rw [scaleDown_eq]
    exact roundHalfEven_le hbelow
  have hfits (m : Nat) (exponent : Int) (hm : m ≤ 2 ^ 53) :
      (if exponent > maxExponent then infinity negative else finite negative m exponent).Fits := by
    split
    · exact .infinity negative
    · exact .finite _ _ _ hm
  have hhalf : 1 <<< 52 ≤ 2 ^ 53 := by
    rw [Nat.one_shiftLeft]
    exact Nat.pow_le_pow_right (by decide) (by decide)
  unfold ofRatio
  simp only
  generalize roundHalfEven _ _ = m at hround
  by_cases hcarry : m = 1 <<< 53
  · rw [if_pos (beq_iff_eq.2 hcarry)]
    exact hfits _ _ hhalf
  · rw [if_neg (fun h => hcarry (beq_iff_eq.1 h))]
    exact hfits _ _ hround

/-- **A decimal is read as a number of the format.** -/
theorem fits_ofDecimal (negative : Bool) (digits : Nat) (e : Int) :
    (ofDecimal negative digits e).Fits := by
  have hpow (k : Nat) : Nat.pow 10 k ≠ 0 := (Nat.pow_pos (by decide)).ne'
  unfold ofDecimal
  split
  · exact fits_zero
  · extract_lets size
    split
    · exact .infinity _
    split
    · exact fits_zero
    split
    · exact fits_ofRatio negative _ (hpow _)
    · exact fits_ofRatio negative _ one_ne_zero

end Scaffold.Binary64
