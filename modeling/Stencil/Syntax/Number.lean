import Stencil.Number.Reading
import Stencil.Syntax.Position
import Stencil.Text.Literal

/-!
# Numbers in a source

A number keeps its text and every reading that fits its value: as a signed integer, as an unsigned
one and as a floating-point number. An integer may be written in four bases, with underscores
between its digits (`Integer.ofText?`). What is no integer is read in decimal as a floating-point
number, which has an integer reading as well if its value is whole and not too large. A character
constant is the number of its code point.
-/

set_option autoImplicit false
set_option relaxedAutoImplicit false

namespace Stencil.Syntax

open Number

/-- A number with its readings. -/
structure NumberLiteral where
  position : Position
  text : String
  signed : Option Int
  unsigned : Option Nat
  float : Option Binary64
deriving DecidableEq, Repr, Inhabited

/-- Why the text of a number has no reading. -/
inductive NumberFault
  /-- Digits alone that spell too large a number. -/
  | overflow
  /-- Neither an integer nor a decimal number. -/
  | malformed
deriving DecidableEq, Repr

/-! ### Integers -/

/-- An integer before its range is known: whether and which sign it has, and its magnitude. -/
structure Integer where
  sign : Option Bool
  magnitude : Nat
deriving DecidableEq, Repr

namespace Integer

/-- The value of a digit of any base up to sixteen. -/
def digitOf? (base : Nat) (c : Char) : Option Nat :=
  (Literal.hexDigit? c).filter (· < base)

/-- The value of digits in a base, if there is at least one and all belong to it. -/
def magnitude? (base : Nat) (digits : List Char) : Option Nat :=
  if digits.isEmpty then none
  else digits.foldlM (fun value c => (digitOf? base c).map (value * base + ·)) 0

/-- The base that an unsigned integer announces, and its digits. A leading zero announces octal. -/
def splitBase : List Char → Nat × List Char
  | '0' :: 'x' :: digits => (16, digits)
  | '0' :: 'o' :: digits => (8, digits)
  | '0' :: 'b' :: digits => (2, digits)
  | '0' :: c :: digits => (8, c :: digits)
  | digits => (10, digits)

/-- A text without underscores. -/
def withoutUnderscores (text : List Char) : List Char :=
  text.filter (· ≠ '_')

/-- The integer that a text spells, if it spells one. -/
def ofText? (text : List Char) : Option Integer :=
  let cleaned := (withoutUnderscores text).map Char.toLower
  let (sign, unsigned) :=
    match cleaned with
    | '-' :: rest => (some true, rest)
    | '+' :: rest => (some false, rest)
    | rest => (none, rest)
  let (base, digits) := splitBase unsigned
  (magnitude? base digits).map fun magnitude => ⟨sign, magnitude⟩

/-- The value of an integer. -/
def value (n : Integer) : Int :=
  if n.sign = some true then -(n.magnitude : Int) else n.magnitude

/-- The value as a signed integer of 64 bits, if it fits. -/
def signed? (n : Integer) : Option Int :=
  if Word.isSigned n.value then some n.value else none

/-- The value as an unsigned integer of 64 bits, if it fits and no sign is written, or if it is
zero. -/
def unsigned? (n : Integer) : Option Nat :=
  if n.magnitude = 0 then some 0
  else if n.sign = none && n.magnitude < Word.unsignedLimit then some n.magnitude
  else none

end Integer

/-! ### Literals -/

namespace NumberLiteral

/-- The bound below which a whole floating-point number has a signed reading. -/
def signedFloatLimit : Nat := 92 * Nat.pow 10 17

/-- The bound below which a whole floating-point number has an unsigned reading. -/
def unsignedFloatLimit : Nat := 18 * Nat.pow 10 18

/-- The signed reading of a floating-point number. -/
def signedOfFloat (x : Binary64) : Option Int :=
  x.toInt?.filter (·.natAbs < signedFloatLimit)

/-- The unsigned reading of a floating-point number. -/
def unsignedOfFloat (x : Binary64) : Option Nat :=
  (x.toInt?.filter fun n => 0 ≤ n && n.toNat < unsignedFloatLimit).map Int.toNat

/-- The characters of which a floating-point number has at least one. -/
def isFloatMark (c : Char) : Bool := ['.', 'e', 'E', 'p', 'P'].contains c

/-- The number of a code point. -/
def ofCodePoint (position : Position) (text : String) (c : Char) : NumberLiteral where
  position := position
  text := text
  signed := some c.toNat
  unsigned := some c.toNat
  float := some (Binary64.ofInt c.toNat)

/-- The number that a text spells. -/
def ofText (position : Position) (text : String) : Except NumberFault NumberLiteral :=
  let integer := Integer.ofText? text.toList
  match integer.bind Integer.signed?, integer.bind Integer.unsigned? with
  | some n, unsigned => .ok ⟨position, text, some n, unsigned, some (Binary64.ofInt n)⟩
  | none, some n => .ok ⟨position, text, none, some n, some (Binary64.ofInt n)⟩
  | none, none =>
    match Binary64.ofText? (Integer.withoutUnderscores text.toList) with
    | none => .error .malformed
    | some x =>
      if text.toList.any isFloatMark then
        .ok ⟨position, text, signedOfFloat x, unsignedOfFloat x, some x⟩
      else .error .overflow

end NumberLiteral

end Stencil.Syntax
