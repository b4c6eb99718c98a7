import Stencil.Number.Binary64

/-!
# Decimal digits of binary numbers

A positive magnitude has three decimal forms here, each computed exactly on whole numbers.

* `shortest`: the fewest significant digits that lie in the interval of reals rounding to the
number, and of those the nearest to it; of two equally near, the greater. * `significant`: a given
number of significant digits, rounded to nearest, a half to the even digit. * `fixed`: a given
number of decimal places, rounded in the same way.

The first two give a mantissa with one digit before its point (`Scientific`).
`Scientific.positional` and `Scientific.mantissa` write it out.
-/

set_option autoImplicit false
set_option relaxedAutoImplicit false

namespace Stencil.Number

/-- Decimal digits with a point after the first, times a power of ten. -/
structure Scientific where
  digits : List Char
  exponent : Int
deriving DecidableEq, Repr

namespace Scientific

/-- The digits with the point after the first, which is left out when no digit follows. -/
def mantissa (x : Scientific) : List Char :=
  match x.digits with
  | [] => []
  | [first] => [first]
  | first :: rest => first :: '.' :: rest

/-- The number written without an exponent. -/
def positional (x : Scientific) : List Char :=
  if x.exponent < 0 then
    '0' :: '.' :: (List.replicate (-x.exponent - 1).toNat '0' ++ x.digits)
  else
    let whole := x.exponent.toNat + 1
    let padded := x.digits ++ List.replicate (whole - x.digits.length) '0'
    let fraction := padded.drop whole
    padded.take whole ++ if fraction.isEmpty then [] else '.' :: fraction

end Scientific

namespace Binary64

/-- The exponent of the first decimal digit of a positive magnitude. -/
def decimalExponent (x : Binary64) : Int :=
  ((Nat.toDigits 10 (x.units * Nat.pow 10 330 / one)).length : Int) - 331

/-- The numerator and the denominator of a magnitude divided by a power of ten. -/
def ratioAt (x : Binary64) (power : Int) : Nat × Nat :=
  if 0 ≤ power then (x.units, one * Nat.pow 10 power.toNat)
  else (x.units * Nat.pow 10 (-power).toNat, one)

/-- The grid point of a power of ten that is nearest to a magnitude among those that lie in its
rounding interval, if one of the two neighbours does. -/
def nearestWithin (x : Binary64) (power : Int) : Option Nat :=
  let (numerator, denominator) := x.ratioAt power
  let lower := numerator / denominator
  let quantum := (if 0 ≤ power then 1 else Nat.pow 10 (-power).toNat) * Nat.pow 2 x.shift
  -- Twice the distance to the number below is half as long at a power of two.
  let below := if x.fraction = 0 && 1 < x.exponentField then quantum else 2 * quantum
  let above := 2 * quantum
  let closed := x.significand % 2 = 0
  let toLower := 4 * (numerator - lower * denominator)
  let toUpper := 4 * ((lower + 1) * denominator - numerator)
  let lowerFits := if closed then toLower ≤ below else toLower < below
  let upperFits := if closed then toUpper ≤ above else toUpper < above
  if lowerFits then
    if upperFits then some (if toLower < toUpper then lower else lower + 1)
    else some lower
  else if upperFits then some (lower + 1)
  else none

/-- The digits of a grid point, which may have carried into a further digit. -/
def ofGrid (point : Nat) (count : Nat) (exponent : Int) : Scientific :=
  let digits := Nat.toDigits 10 point
  if count < digits.length then ⟨digits.take count, exponent + 1⟩ else ⟨digits, exponent⟩

/-- The shortest form with at least `count` digits and at most `count + more`. -/
def shortestFrom (x : Binary64) (exponent : Int) (count : Nat) : Nat → Scientific
  | 0 => ofGrid (x.nearestWithin (exponent - count + 1) |>.getD 0) count exponent
  | more + 1 =>
    match x.nearestWithin (exponent - count + 1) with
    | some point => ofGrid point count exponent
    | none => shortestFrom x exponent (count + 1) more

/-- The fewest digits that read back as the magnitude of a finite number, the nearest of those. -/
def shortest (x : Binary64) : Scientific :=
  if x.isZero then ⟨['0'], 0⟩ else shortestFrom x x.decimalExponent 1 16

/-- The magnitude of a finite number to a given number of significant digits, at least one. -/
def significant (x : Binary64) (count : Nat) : Scientific :=
  if x.isZero then ⟨List.replicate count '0', 0⟩
  else
    let exponent := x.decimalExponent
    let (numerator, denominator) := x.ratioAt (exponent - count + 1)
    ofGrid (roundDiv numerator denominator) count exponent

/-- The magnitude of a finite number to a given number of decimal places. -/
def fixed (x : Binary64) (places : Nat) : List Char :=
  let point := roundDiv (x.units * Nat.pow 10 places) one
  let digits := (Nat.toDigits 10 point).leftpad (places + 1) '0'
  let whole := digits.length - places
  if places = 0 then digits else digits.take whole ++ '.' :: digits.drop whole

end Binary64

end Stencil.Number
