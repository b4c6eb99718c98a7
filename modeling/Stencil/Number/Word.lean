/-!
# Whole numbers of 64 bits

A whole number has an unsigned form of 64 bits if it lies from zero up to `unsignedLimit`, and a
signed form if it lies from `-signedLimit` up to `signedLimit`, the upper bound excluded in both.
-/

set_option autoImplicit false
set_option relaxedAutoImplicit false

namespace Stencil.Number.Word

/-- The number of unsigned whole numbers of 64 bits. -/
def unsignedLimit : Nat := 0x10000000000000000

/-- The number of signed whole numbers of 64 bits that are not negative. -/
def signedLimit : Nat := 0x8000000000000000

/-- Whether a whole number has an unsigned form. -/
def isUnsigned (n : Int) : Bool := 0 ≤ n && n < unsignedLimit

/-- Whether a whole number has a signed form. -/
def isSigned (n : Int) : Bool := -(signedLimit : Int) ≤ n && n < signedLimit

/-- Half of the unsigned numbers have a signed form. -/
theorem unsignedLimit_eq : unsignedLimit = 2 * signedLimit := rfl

end Stencil.Number.Word
