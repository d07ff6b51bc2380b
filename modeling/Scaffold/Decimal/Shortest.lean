import Scaffold.Decimal.Binary64

/-!
# Shortest decimals

The decimal that stands for a binary64 number in a text: of all decimals that read back as the
number, one with the fewest digits, and of those the one nearest to the number.

* **The interval.** A decimal reads back as `m · 2 ^ e` exactly if it lies between the midpoints to
  the neighbouring numbers; the midpoints themselves belong to it when `m` is even.
* **The grids.** For one digit, two digits and so on up to seventeen, only the two points next to
  the number on the grid of decimals with so many digits can be the answer.
-/

namespace Scaffold.Decimal

/-- A positive decimal: `0.d₁d₂… · 10 ^ point`, where the first and the last digit are not zero. -/
structure Digits where
  /-- the digits from the first to the last -/
  digits : List Char
  /-- the power of ten that the fraction is multiplied by -/
  point : Int
  deriving DecidableEq, Repr

/-- The number of decimal digits. -/
def width (n : Nat) : Nat := (Nat.toDigits 10 n).length

/-- The power of ten just above the positive rational `num / den`: `10 ^ (p - 1) ≤ num / den` and
`num / den < 10 ^ p`. -/
def pointOf (num den : Nat) : Int :=
  if den ≤ num then width (num / den)
  else
    let w := width (den / num)
    if num * Nat.pow 10 (w - 1) == den then 2 - (w : Int) else 1 - (w : Int)

/-- `n · 10 ^ exponent` as digits without zeros at the end. -/
def ofScaled (n : Nat) (exponent : Int) : Digits :=
  let ds := Nat.toDigits 10 n
  ⟨(ds.reverse.dropWhile (· == '0')).reverse, ds.length + exponent⟩

/-- The interval of rationals that read back as one number, over a common denominator. -/
structure Interval where
  /-- numerator of the lower end -/
  low : Nat
  /-- numerator of the number itself -/
  mid : Nat
  /-- numerator of the upper end -/
  high : Nat
  /-- the common denominator -/
  den : Nat
  /-- whether the ends belong to the interval -/
  closed : Bool

/-- The interval around the finite positive number `m · 2 ^ e`. Just above a power of two the
neighbour below is only half as far away. -/
def Interval.around (m : Nat) (e : Int) : Interval :=
  let below := if m == 1 <<< 52 && e > Binary64.minExponent then 1 else 2
  let scale := 1 <<< (e - 2).toNat
  let den := 1 <<< (2 - e).toNat
  ⟨(4 * m - below) * scale, 4 * m * scale, (4 * m + 2) * scale, den, m % 2 == 0⟩

/-- Whether `num / den` lies in the interval. -/
def Interval.has (i : Interval) (num den : Nat) : Bool :=
  let x := num * i.den
  let low := i.low * den
  let high := i.high * den
  if i.closed then low ≤ x && x ≤ high else low < x && x < high

/-- `n · 10 ^ exponent` as a fraction. -/
def powerFraction (n : Nat) (exponent : Int) : Nat × Nat :=
  if exponent < 0 then (n, Nat.pow 10 (-exponent).toNat)
  else (n * Nat.pow 10 exponent.toNat, 1)

/-- The answer on the grid of multiples of `10 ^ exponent`, if one of the two points next to the
number lies in the interval: the nearer one, or of two equally near the even one. -/
def Interval.onGrid (i : Interval) (exponent : Int) : Option Nat :=
  let (unitNum, unitDen) := powerFraction 1 exponent
  let a := (i.mid * unitDen) / (i.den * unitNum)
  let rest := (i.mid * unitDen) % (i.den * unitNum)
  let hits (n : Nat) : Bool :=
    let (num, den) := powerFraction n exponent
    i.has num den
  match a != 0 && hits a, hits (a + 1) with
  | true, true =>
    let twice := 2 * rest
    let unit := i.den * unitNum
    some (if twice < unit || (twice == unit && a % 2 == 0) then a else a + 1)
  | true, false => some a
  | false, true => some (a + 1)
  | false, false => none

/-- Tries the grids for `digits`, `digits + 1` and so on, `fuel` of them. -/
def Interval.firstHit (i : Interval) (point : Int) (digits : Nat) : Nat → Option Digits
  | 0 => none
  | fuel + 1 =>
    let exponent := point - digits
    match i.onGrid exponent with
    | some n => some (ofScaled n exponent)
    | none => i.firstHit point (digits + 1) fuel

/-- The shortest decimal of the finite positive number `m · 2 ^ e`. Seventeen digits always suffice,
so the search does not run out. -/
def shortest (m : Nat) (e : Int) : Digits :=
  let i := Interval.around m e
  (i.firstHit (pointOf i.mid i.den) 1 17).getD ⟨[], 0⟩

end Scaffold.Decimal
