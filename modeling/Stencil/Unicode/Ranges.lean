/-!
# Sets of characters given by ranges

A property of characters is held as a list of closed ranges of code points. The membership test is
`inRanges`.
-/

set_option autoImplicit false
set_option relaxedAutoImplicit false

namespace Stencil.Unicode

/-- Whether the code point of `c` lies in one of the closed ranges. -/
def inRanges (ranges : List (Nat × Nat)) (c : Char) : Bool :=
  ranges.any fun range => range.1 ≤ c.toNat && c.toNat ≤ range.2

end Stencil.Unicode
