import Scaffold.Decimal.Shortest

/-!
# The text of a number

How a binary64 number is laid out as text: its shortest decimal, in positional notation for the
moderate exponents and with a power of ten for the others.

* **One layout, two vocabularies.** JSON texts and messages differ only in what they call the values
  that are not finite.
-/

namespace Scaffold.Decimal

/-- How a number is written. -/
structure Layout where
  /-- the least decimal exponent that is written positionally -/
  leastPositional : Int
  /-- the least decimal exponent above zero that is not -/
  leastScientific : Int
  /-- the word for what is not a number -/
  notANumber : String
  /-- the word for infinity -/
  infinity : String

/-- The layout of numbers in JSON texts. -/
def Layout.json : Layout := ⟨-4, 16, "NaN", "Infinity"⟩

/-- The layout of numbers in messages. -/
def Layout.message : Layout := ⟨-4, 16, "nan", "inf"⟩

/-- The decimal in positional notation, with at least one digit on either side of the mark. -/
def positional (d : Digits) : List Char :=
  let zeros (n : Int) := List.replicate n.toNat '0'
  if d.point ≤ 0 then '0' :: '.' :: zeros (-d.point) ++ d.digits
  else
    let whole := d.digits.take d.point.toNat ++ zeros (d.point - d.digits.length)
    let fraction := d.digits.drop d.point.toNat
    whole ++ '.' :: (if fraction.isEmpty then ['0'] else fraction)

/-- The decimal with a power of ten: one digit before the mark, which is left out when nothing
follows it, and at least two digits in the signed exponent. -/
def scientific (d : Digits) : List Char :=
  let exponent := d.point - 1
  let sign := if exponent < 0 then '-' else '+'
  let size := Nat.toDigits 10 exponent.natAbs
  let fraction := d.digits.drop 1
  d.digits.take 1 ++ (if fraction.isEmpty then [] else '.' :: fraction) ++
    'e' :: sign :: List.replicate (2 - size.length) '0' ++ size

/-- The text of a number. -/
def Layout.write (l : Layout) (x : Binary64) : List Char :=
  let signed (negative : Bool) (s : List Char) := if negative then '-' :: s else s
  match x with
  | .notANumber => l.notANumber.toList
  | .infinity s => signed s l.infinity.toList
  | .finite s m e =>
    if m == 0 then signed s ['0', '.', '0']
    else
      let d := shortest m e
      let exponent := d.point - 1
      signed s (if l.leastPositional ≤ exponent && exponent < l.leastScientific then positional d
        else scientific d)

end Scaffold.Decimal
