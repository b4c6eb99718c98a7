import Stencil.Data.Json.Fault
import Stencil.Data.Value
import Stencil.Number.Reading

/-!
# Numbers in JSON

A number is a sign, whole digits without a needless zero, decimals after a point and an exponent, of
which only the whole digits are always there. Whole digits alone are an integer if it has 64 bits,
where a minus sign before zero makes it the negative zero of floating point.

Every other number is a floating-point one. Its significand is formed of the leading digits that fit
into 64 bits: whole digits beyond them count as powers of ten, decimals beyond them as nothing. The
significand is rounded and then multiplied or divided by a power of ten (`scale`), each result
rounded to nearest, so the last bit may differ from that of the number nearest to the decimal. A
result that is not finite is a fault.
-/

set_option autoImplicit false
set_option relaxedAutoImplicit false

namespace Stencil.Json

open Number

/-! ### The parts of a number -/

/-- An exponent: whether it is negative, and its digits. -/
structure ExponentPart where
  negative : Bool
  digits : List Char
deriving Repr

/-- A number taken apart. -/
structure NumberParts where
  negative : Bool
  whole : List Char
  /-- The decimals, if there is a point. -/
  decimals : Option (List Char)
  exponent : Option ExponentPart
deriving Repr

/-- The digits at the head of a text. -/
def digitsOf (text : List Char) : List Char := text.takeWhile Char.isDigit

/-- The fault where a digit is missing. -/
def missingDigit (place : Place) (text : List Char) : ReadError :=
  ⟨if text.isEmpty then .endInValue else .badNumber, place.mark text⟩

/-- The whole digits, of which there is one and the first of several is not zero. -/
def wholeAt (place : Place) (text : List Char) : Except ReadError (List Char) :=
  match digitsOf text with
  | [] => .error (missingDigit place text)
  | '0' :: _ :: _ => .error ⟨.badNumber, place.forward 2⟩
  | digits => .ok digits

/-- The decimals, if a point is next. -/
def decimalsAt (place : Place) (text : List Char) : Except ReadError (Option (List Char)) :=
  match text with
  | '.' :: rest =>
    if (digitsOf rest).isEmpty then .error (missingDigit (place.forward 1) rest)
    else .ok (some (digitsOf rest))
  | _ => .ok none

/-- The exponent, if its letter is next, and the characters that it takes. -/
def exponentAt (place : Place) (text : List Char) :
    Except ReadError (Option ExponentPart × Nat) :=
  match text with
  | [] => .ok (none, 0)
  | letter :: rest =>
    if letter = 'e' || letter = 'E' then
      let unsigned := (splitSign rest).2
      let before := 1 + (rest.length - unsigned.length)
      let digits := digitsOf unsigned
      if digits.isEmpty then .error (missingDigit (place.forward before) unsigned)
      else .ok (some ⟨(splitSign rest).1, digits⟩, before + digits.length)
    else .ok (none, 0)

/-! ### The value of a number -/

/-- A number continued by digits as long as it has 64 bits, and the digits left over. -/
def absorb (value : Nat) : List Char → Nat × List Char
  | [] => (value, [])
  | c :: rest =>
    let longer := value * 10 + (c.toNat - '0'.toNat)
    if longer < Word.unsignedLimit then absorb longer rest else (value, c :: rest)

/-- The greatest power of ten that is finite. -/
def greatestPower : Nat := 308

/-- The number nearest to a power of ten. -/
def powerOfTen (power : Nat) : Binary64 := Binary64.ofRatio false (Nat.pow 10 power) 1

/-- A number times a power of ten, unless that is not finite. Small powers are divided by in steps.
-/
def scale (x : Binary64) (exponent : Int) : Option Binary64 :=
  if x.isZero then some x
  else if 0 ≤ exponent then
    if exponent ≤ greatestPower then
      let product := x.mul (powerOfTen exponent.toNat)
      if product.isFinite then some product else none
    else none
  else if exponent < -greatestPower then
    scale (x.div (powerOfTen greatestPower)) (exponent + greatestPower)
  else some (x.div (powerOfTen (-exponent).toNat))
termination_by (-exponent).toNat
decreasing_by
  simp only [greatestPower] at *
  omega

namespace ExponentPart

/-- The value of an exponent. -/
def value (part : ExponentPart) : Int :=
  if part.negative then -(digitsValue part.digits : Int) else digitsValue part.digits

/-- The bound beyond which an exponent is not read to its end. -/
def limit : Nat := 0x7FFFFFFF

/-- The number of digits read before the bound is passed, that digit included. -/
def digitsRead (value : Nat) : List Char → Nat
  | [] => 0
  | c :: rest =>
    let longer := value * 10 + (c.toNat - '0'.toNat)
    if limit < longer then 1 else 1 + digitsRead longer rest

end ExponentPart

namespace NumberParts

/-- The integer, if the number is one. -/
def integer? (parts : NumberParts) : Option Int :=
  match parts.decimals, parts.exponent, absorb 0 parts.whole with
  | none, none, (magnitude, []) =>
    if !parts.negative then some magnitude
    else if magnitude = 0 || Word.signedLimit < magnitude then none
    else some (-(magnitude : Int))
  | _, _, _ => none

/-- The floating-point number, if it is finite. -/
def float? (parts : NumberParts) : Option Binary64 :=
  let (whole, beyond) := absorb 0 parts.whole
  let decimals := parts.decimals.getD []
  let (significand, dropped) := absorb whole decimals
  let exponent := (parts.exponent.map ExponentPart.value).getD 0
  let magnitude := scale (Binary64.ofInt significand)
    (exponent + beyond.length - (decimals.length - dropped.length : Nat))
  magnitude.map fun x => if parts.negative then Binary64.ofBits true x.magnitudeBits else x

/-- The value of a number, if it has one. -/
def value? (parts : NumberParts) : Option Value :=
  match parts.integer? with
  | some n => some (.int n)
  | none => parts.float?.map .float

end NumberParts

/-! ### Reading a number -/

/-- The number at the head of a text, and the characters that it takes. -/
def numberAt (place : Place) (text : List Char) : Except ReadError (Value × Nat) := do
  let negative := text.head? = some '-'
  let sign := if negative then 1 else 0
  let whole ← wholeAt (place.forward sign) (text.drop sign)
  let afterWhole := sign + whole.length
  let decimals ← decimalsAt (place.forward afterWhole) (text.drop afterWhole)
  let afterDecimals := afterWhole + ((decimals.map (·.length + 1)).getD 0)
  let (exponent, length) ← exponentAt (place.forward afterDecimals) (text.drop afterDecimals)
  let finish := afterDecimals + length
  match (NumberParts.mk negative whole decimals exponent).value? with
  | some value => return (value, finish)
  | none =>
    let unread := (exponent.map fun part =>
      part.digits.length - ExponentPart.digitsRead 0 part.digits).getD 0
    throw ⟨.numberRange, place.forward (finish - unread)⟩

end Stencil.Json
