import Stencil.Unicode.Ranges

/-!
# Characters that are not drawn

The property Default_Ignorable_Code_Point of Unicode 17.0: fillers, joiners, selectors and other
characters that leave no mark of their own where they are not given a special form. Some of them are
letters by their general category, such as the fillers of Hangul syllables.
-/

set_option autoImplicit false
set_option relaxedAutoImplicit false

namespace Stencil.Unicode

/-- The characters of the property Default_Ignorable_Code_Point, in order. -/
def defaultIgnorableRanges : List (Nat × Nat) :=
  [(0xAD, 0xAD), (0x34F, 0x34F), (0x61C, 0x61C), (0x115F, 0x1160), (0x17B4, 0x17B5),
   (0x180B, 0x180F), (0x200B, 0x200F), (0x202A, 0x202E), (0x2060, 0x206F), (0x3164, 0x3164),
   (0xFE00, 0xFE0F), (0xFEFF, 0xFEFF), (0xFFA0, 0xFFA0), (0xFFF0, 0xFFF8), (0x1BCA0, 0x1BCA3),
   (0x1D173, 0x1D17A), (0xE0000, 0xE0FFF)]

/-- Whether `c` is not drawn unless it is given a special form. -/
def isDefaultIgnorable (c : Char) : Bool :=
  if c.toNat < 0x80 then false else inRanges defaultIgnorableRanges c

end Stencil.Unicode
