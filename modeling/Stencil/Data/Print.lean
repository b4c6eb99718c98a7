import Stencil.Data.Value
import Stencil.Number.Decimal

/-!
# Printing values

A value is printed the way an action writes it: integers in decimal, arrays between brackets and
objects as keys and values in the order of the keys (`Value.format`). A floating-point number has
its shortest digits, with an exponent where the first digit stands four places or more behind the
point, or six or more before it (`formatFloat`). Null on its own is written as a missing value
(`Value.output`).
-/

set_option autoImplicit false
set_option relaxedAutoImplicit false

namespace Stencil

open Number

/-! ### Floating-point numbers -/

/-- Whether a number whose first digit has this exponent is written without one. -/
def isPositional (exponent : Int) : Bool := -4 ≤ exponent && exponent < 6

/-- An exponent as it is written: a letter, a sign and at least two digits. -/
def exponentText (exponent : Int) : List Char :=
  'e' :: (if exponent < 0 then '-' else '+') ::
    (Nat.toDigits 10 exponent.natAbs).leftpad 2 '0'

/-- The magnitude of a finite number in its shortest digits. -/
def formatMagnitude (x : Binary64) : List Char :=
  let digits := x.shortest
  if isPositional digits.exponent then digits.positional
  else digits.mantissa ++ exponentText digits.exponent

/-- A floating-point number in its shortest digits. -/
def formatFloat (x : Binary64) : String :=
  if x.isNaN then "NaN"
  else if x.isInfinite then (if x.isNegative then "-Inf" else "+Inf")
  else (if x.isNegative then "-" else "") ++ String.ofList (formatMagnitude x)

/-! ### Values -/

mutual

/-- The printed form of a value. -/
def Value.format : Value → String
  | .null => "<nil>"
  | .bool value => if value then "true" else "false"
  | .int value => toString value
  | .float value => formatFloat value
  | .string text => text
  | .array items => "[" ++ " ".intercalate (Value.formats items) ++ "]"
  | .object members => "map[" ++ " ".intercalate (Value.formatMembers members) ++ "]"

/-- The printed forms of values. -/
def Value.formats : List Value → List String
  | [] => []
  | item :: rest => item.format :: Value.formats rest

/-- The printed forms of members. -/
def Value.formatMembers : List (String × Value) → List String
  | [] => []
  | (key, value) :: rest => (key ++ ":" ++ value.format) :: Value.formatMembers rest

end

/-- What an action writes for a value. -/
def Value.output : Value → String
  | .null => "<no value>"
  | value => value.format

end Stencil
