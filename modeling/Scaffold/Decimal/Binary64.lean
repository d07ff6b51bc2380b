/-!
# Binary64 numbers

The numbers with a fraction or an exponent that a JSON text may hold, as exact dyadic rationals
beside the infinities and the one value that is not a number.

* **Reading is exact.** `ofDecimal` rounds the written decimal to the nearest number of the format,
  a tie going to the even significand, and beyond the largest one to infinity.
* **Comparing is exact.** `eqv` and `eqvInt` compare values, never texts: both zeros are equal, and
  what is not a number equals nothing.
-/

namespace Scaffold

/-- A number of the binary64 format. A finite one is `significand · 2 ^ exponent`, with the
significand below `2 ^ 53` and either at least `2 ^ 52` or at the least exponent. -/
inductive Binary64 where
  /-- not a number -/
  | notANumber
  /-- an infinity -/
  | infinity (negative : Bool)
  /-- a finite number, either zero included -/
  | finite (negative : Bool) (significand : Nat) (exponent : Int)
  deriving DecidableEq, Repr, Inhabited

namespace Binary64

/-- The least exponent of a finite number. -/
def minExponent : Int := -1074

/-- The greatest exponent of a finite number. -/
def maxExponent : Int := 971

/-- A zero. -/
def zero (negative : Bool) : Binary64 := .finite negative 0 minExponent

/-- `num / den` divided by `2 ^ exponent`, as a fraction of natural numbers. -/
def scaleDown (num den : Nat) (exponent : Int) : Nat × Nat :=
  if exponent < 0 then (num <<< (-exponent).toNat, den) else (num, den <<< exponent.toNat)

/-- The integer nearest to `num / den`, a tie going to the even one. -/
def roundHalfEven (num den : Nat) : Nat :=
  let q := num / den
  let r := num % den
  if 2 * r < den || (2 * r == den && q % 2 == 0) then q else q + 1

/-- The exponent that puts the significand of `num / den` between `2 ^ 52` and `2 ^ 53`, or the
least exponent if that is greater. -/
def exponentFor (num den : Nat) : Int :=
  let guess : Int := (Nat.log2 num : Int) - (Nat.log2 den : Int) - 52
  let (n, d) := scaleDown num den guess
  max minExponent (if n < d <<< 52 then guess - 1 else guess)

/-- The number nearest to the positive rational `num / den`, with the given sign. -/
def ofRatio (negative : Bool) (num den : Nat) : Binary64 :=
  let exponent := exponentFor num den
  let (n, d) := scaleDown num den exponent
  let m := roundHalfEven n d
  let (m, exponent) := if m == 1 <<< 53 then (1 <<< 52, exponent + 1) else (m, exponent)
  if exponent > maxExponent then .infinity negative else .finite negative m exponent

/-- The number nearest to `digits · 10 ^ exponent`. Decimals beyond the range of the format are
recognised by their size, so that no power of ten grows past what the format needs. -/
def ofDecimal (negative : Bool) (digits : Nat) (exponent : Int) : Binary64 :=
  if digits == 0 then zero negative
  else
    let size : Int := (Nat.toDigits 10 digits).length + exponent
    if size > 310 then .infinity negative
    else if size < -330 then zero negative
    else if exponent < 0 then ofRatio negative digits (Nat.pow 10 (-exponent).toNat)
    else ofRatio negative (digits * Nat.pow 10 exponent.toNat) 1

/-- Twice the exponent's range is enough to write every finite number as an integer over one
common power of two: the integer. -/
def scaled (negative : Bool) (significand : Nat) (exponent : Int) : Int :=
  let magnitude : Nat := significand <<< (exponent - minExponent).toNat
  if negative then -(magnitude : Int) else magnitude

/-- Equality of values. -/
def eqv : Binary64 → Binary64 → Bool
  | .finite s m e, .finite t n f => scaled s m e == scaled t n f
  | .infinity s, .infinity t => s == t
  | _, _ => false

/-- Equality of a number with an integer. -/
def eqvInt (x : Binary64) (i : Int) : Bool :=
  match x with
  | .finite s m e => scaled s m e == i * ((1 <<< (-minExponent).toNat : Nat) : Int)
  | _ => false

/-- Whether a number is a zero of either sign. -/
def isZero : Binary64 → Bool
  | .finite _ m _ => m == 0
  | _ => false

/-- The integer that a number is, if it is one. -/
def toInt? : Binary64 → Option Int
  | .finite s m e =>
    if e < 0 then
      let unit := 1 <<< (-e).toNat
      if m % unit == 0 then some (if s then -((m / unit : Nat) : Int) else (m / unit : Nat)) else none
    else
      let magnitude := m <<< e.toNat
      some (if s then -(magnitude : Int) else magnitude)
  | _ => none

end Binary64

end Scaffold
