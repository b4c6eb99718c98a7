import Stencil.Number.Rounding
import Stencil.Number.Word

/-!
# Binary floating-point numbers

A number of the 64-bit binary interchange format is held by its bits: a sign, eleven bits of
exponent and fifty-two of fraction. Every finite one is a whole multiple of the least positive one,
and `units` is that multiple, so comparison and conversion are exact arithmetic on whole numbers.

`ofRatio` is the number nearest to a fraction, of two equally near the one with an even last bit.
Rounding to the least quantum at which fifty-three bits suffice, and adding the quantum's index to
the exponent field, gives the bits at once, also where rounding carries into the next exponent.
-/

set_option autoImplicit false
set_option relaxedAutoImplicit false

namespace Stencil.Number

/-- A number of the 64-bit binary interchange format, by its bits. -/
structure Binary64 where
  bits : UInt64
deriving DecidableEq, Repr, Inhabited

namespace Binary64

/-- The number of bits of the fraction. -/
def fractionWidth : Nat := 52

/-- The number of fractions. -/
def fractionLimit : Nat := Nat.pow 2 fractionWidth

/-- The bits of positive infinity. -/
def infinityBits : Nat := 0x7FF * fractionLimit

/-- The bit that holds the sign. -/
def signBit : Nat := Word.signedLimit

/-- The bits without the sign. -/
def magnitudeBits (x : Binary64) : Nat := x.bits.toNat % signBit

/-- Whether the sign bit is set. -/
def isNegative (x : Binary64) : Bool := signBit ≤ x.bits.toNat

/-- Whether the number is infinite. -/
def isInfinite (x : Binary64) : Bool := x.magnitudeBits = infinityBits

/-- Whether the bits hold no number. -/
def isNaN (x : Binary64) : Bool := infinityBits < x.magnitudeBits

/-- Whether the number is finite. -/
def isFinite (x : Binary64) : Bool := x.magnitudeBits < infinityBits

/-- Whether the number is zero, of either sign. -/
def isZero (x : Binary64) : Bool := x.magnitudeBits = 0

/-- The field of the exponent. -/
def exponentField (x : Binary64) : Nat := x.magnitudeBits / fractionLimit

/-- The field of the fraction. -/
def fraction (x : Binary64) : Nat := x.magnitudeBits % fractionLimit

/-- The whole number that the power of two `2 ^ shift` multiplies to give `units`. -/
def significand (x : Binary64) : Nat :=
  if x.exponentField = 0 then x.fraction else x.fraction + fractionLimit

/-- The power of two of the last place, counted from that of the least positive number. -/
def shift (x : Binary64) : Nat := x.exponentField - 1

/-- The magnitude of a finite number as a multiple of the least positive one. -/
def units (x : Binary64) : Nat := x.significand * Nat.pow 2 x.shift

/-- The number of least positive ones that make up one. -/
def one : Nat := Nat.pow 2 1074

/-- The number with the given magnitude and sign. -/
def ofBits (negative : Bool) (magnitude : Nat) : Binary64 :=
  ⟨UInt64.ofNat (if negative then magnitude + signBit else magnitude)⟩

/-- The number nearest to a fraction of the given sign; of two equally near, the one whose last bit
is zero. What lies beyond the greatest finite number by half a last place or more is infinite. -/
def ofRatio (negative : Bool) (numerator denominator : Nat) : Binary64 :=
  let quantum := Nat.log2 (numerator * one / denominator) - fractionWidth
  let rounded := roundDiv (numerator * one) (denominator * Nat.pow 2 quantum)
  ofBits negative (min (quantum * fractionLimit + rounded) infinityBits)

/-- The number nearest to a whole number. -/
def ofInt (n : Int) : Binary64 := ofRatio (n < 0) n.natAbs 1

/-- Where a number that is not a NaN stands in the order: its signed multiple of the least positive
one, an infinity beyond all. -/
def rank (x : Binary64) : Int :=
  let magnitude := if x.isInfinite then Nat.pow 2 2200 else x.units
  if x.isNegative then -(magnitude : Int) else magnitude

/-- The order of two numbers, which zero's sign does not affect and NaNs have no part in. -/
def compare? (x y : Binary64) : Option Ordering :=
  if x.isNaN || y.isNaN then none else some (compare x.rank y.rank)

/-- The whole number that a finite number is, if it is one. -/
def toInt? (x : Binary64) : Option Int :=
  if x.isFinite && x.units % one = 0 then
    let magnitude := x.units / one
    some (if x.isNegative then -(magnitude : Int) else magnitude)
  else none

/-- The product, rounded to nearest. Both factors are finite. -/
def mul (x y : Binary64) : Binary64 :=
  ofRatio (x.isNegative != y.isNegative) (x.units * y.units) (one * one)

/-- The quotient, rounded to nearest. Both are finite, and the divisor is not zero. -/
def div (x y : Binary64) : Binary64 :=
  ofRatio (x.isNegative != y.isNegative) x.units y.units

end Binary64

end Stencil.Number
