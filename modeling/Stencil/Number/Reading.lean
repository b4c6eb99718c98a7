import Stencil.Number.Binary64

/-!
# Reading decimal numbers

A decimal number is an optional sign, digits with at most one point among them and at least one
digit, and an optional exponent. `readDecimal` takes such a text apart, and `Binary64.ofDecimal` is
the binary number nearest to the value, so `Binary64.ofText?` reads a text to the last bit.
-/

set_option autoImplicit false
set_option relaxedAutoImplicit false

namespace Stencil.Number

/-- The value of decimal digits. -/
def digitsValue (digits : List Char) : Nat := Nat.ofDigitChars 10 digits 0

/-- A sign at the head of a text: whether it is a minus, and what follows. -/
def splitSign : List Char → Bool × List Char
  | '-' :: rest => (true, rest)
  | '+' :: rest => (false, rest)
  | text => (false, text)

/-- A decimal number: its sign, and its magnitude as a whole number times a power of ten. -/
structure Decimal where
  negative : Bool
  coefficient : Nat
  exponent : Int
deriving DecidableEq, Repr

/-- The exponent that a text spells, which may be absent. -/
def readExponent (text : List Char) : Option Int :=
  match text with
  | [] => some 0
  | c :: rest =>
    if c = 'e' || c = 'E' then
      let (negative, digits) := splitSign rest
      if !digits.isEmpty && digits.all Char.isDigit then
        some (if negative then -(digitsValue digits : Int) else digitsValue digits)
      else none
    else none

/-- The decimal number that a whole text spells. -/
def readDecimal (text : List Char) : Option Decimal :=
  let (negative, unsigned) := splitSign text
  let whole := unsigned.takeWhile Char.isDigit
  let afterWhole := unsigned.dropWhile Char.isDigit
  let (fraction, afterFraction) :=
    match afterWhole with
    | '.' :: rest => (rest.takeWhile Char.isDigit, rest.dropWhile Char.isDigit)
    | rest => ([], rest)
  if whole.isEmpty && fraction.isEmpty then none
  else
    (readExponent afterFraction).map fun exponent =>
      ⟨negative, digitsValue (whole ++ fraction), exponent - fraction.length⟩

namespace Binary64

/-- The exponents beyond which a number is infinite or zero whatever its digits. -/
def exponentLimit : Int := 400

/-- The number nearest to a decimal one. A magnitude far out of range is decided by the exponent of
its first digit alone. -/
def ofDecimal (x : Decimal) : Binary64 :=
  let first : Int := x.exponent + (Nat.toDigits 10 x.coefficient).length
  if x.coefficient = 0 || first < -exponentLimit then ofBits x.negative 0
  else if exponentLimit < first then ofBits x.negative infinityBits
  else if 0 ≤ x.exponent then
    ofRatio x.negative (x.coefficient * Nat.pow 10 x.exponent.toNat) 1
  else
    ofRatio x.negative x.coefficient (Nat.pow 10 (-x.exponent).toNat)

/-- The number that a text spells in decimal, to the nearest. -/
def ofText? (text : List Char) : Option Binary64 :=
  (readDecimal text).map ofDecimal

end Binary64

end Stencil.Number
