import Stencil.Data.Value

/-!
# Comparing values

Two values are equal if they are the same truth value, text or number, or both null; null equals
nothing else, and other pairs of types cannot be compared (`Value.equal`). Texts and numbers also
have an order (`Value.compare`). Two integers are compared exactly; where one number is a
floating-point number, the other is rounded to one first.
-/

set_option autoImplicit false
set_option relaxedAutoImplicit false

namespace Stencil

open Number

/-- Why two values cannot be compared. -/
inductive ComparisonFault
  /-- A value of a type that is never equal to another. -/
  | notComparable (type : String)
  /-- A value of a type without an order. -/
  | unordered (type : String)
  | incompatible
deriving DecidableEq, Repr

/-- The wording of a fault. -/
def ComparisonFault.message : ComparisonFault → String
  | notComparable type => "non-comparable type " ++ type
  | unordered type => "invalid type for comparison: " ++ type
  | incompatible => "incompatible types for comparison"

namespace Value

/-- The floating-point number that a number is compared as. -/
def float? : Value → Option Binary64
  | int value => some (Binary64.ofInt value)
  | float value => some value
  | _ => none

/-- Whether a value is a number. -/
def isNumber : Value → Bool
  | int _ | float _ => true
  | _ => false

/-- Whether a value is an array or an object. -/
def isCollection : Value → Bool
  | array _ | object _ => true
  | _ => false

/-- The order of two numbers. -/
def compareNumbers (first second : Value) : Option Ordering :=
  match first, second with
  | int m, int n => some (Ord.compare m n)
  | _, _ => do
    let x ← first.float?
    let y ← second.float?
    x.compare? y

/-- Whether two values are equal. -/
def equal (first second : Value) : Except ComparisonFault Bool :=
  match first, second with
  | null, null => .ok true
  | null, _ => .ok false
  | _, null => .ok false
  | bool x, bool y => .ok (x = y)
  | string x, string y => .ok (x = y)
  | _, _ =>
    if first.isNumber && second.isNumber then
      .ok (compareNumbers first second = some .eq)
    else if first.isCollection || second.isCollection then
      .error (.notComparable first.typeName)
    else .error .incompatible

/-- Whether a value is a number or a text. -/
def isOrdered : Value → Bool
  | int _ | float _ | string _ => true
  | _ => false

/-- The order of two values. -/
def compare (first second : Value) : Except ComparisonFault Ordering :=
  match first, second with
  | string x, string y => .ok (Ord.compare x y)
  | _, _ =>
    if first.isNumber && second.isNumber then
      match compareNumbers first second with
      | some order => .ok order
      | none => .error .incompatible
    else if !first.isOrdered then .error (.unordered first.typeName)
    else if !second.isOrdered then .error (.unordered second.typeName)
    else .error .incompatible

end Value

end Stencil
