/-!
# Rounding a quotient to a whole number

`roundDiv numerator denominator` is the whole number nearest to a quotient, the even one of two that
are equally near. The distance is never more than half (`two_mul_roundDiv_le`,
`le_two_mul_roundDiv`), and a whole quotient is left as it is (`roundDiv_mul`).
-/

set_option autoImplicit false
set_option relaxedAutoImplicit false

namespace Stencil.Number

/-- The whole number nearest to a quotient; of two equally near, the even one. -/
def roundDiv (numerator denominator : Nat) : Nat :=
  let quotient := numerator / denominator
  let remainder := numerator % denominator
  if 2 * remainder < denominator then quotient
  else if denominator < 2 * remainder then quotient + 1
  else if quotient % 2 = 0 then quotient
  else quotient + 1

/-- The nearest whole number lies at most half above the quotient. -/
theorem two_mul_roundDiv_le (numerator denominator : Nat) :
    2 * (denominator * roundDiv numerator denominator) ≤ 2 * numerator + denominator := by
  have split := Nat.div_add_mod numerator denominator
  simp only [roundDiv]
  have expand : denominator * (numerator / denominator + 1)
      = denominator * (numerator / denominator) + denominator := Nat.mul_succ _ _
  split
  · omega
  · split
    · omega
    · split <;> omega

/-- The nearest whole number lies at most half below the quotient. -/
theorem le_two_mul_roundDiv (numerator : Nat) {denominator : Nat} (positive : 0 < denominator) :
    2 * numerator ≤ 2 * (denominator * roundDiv numerator denominator) + denominator := by
  have split := Nat.div_add_mod numerator denominator
  have bound := Nat.mod_lt numerator positive
  simp only [roundDiv]
  have expand : denominator * (numerator / denominator + 1)
      = denominator * (numerator / denominator) + denominator := Nat.mul_succ _ _
  split
  · omega
  · split
    · omega
    · split <;> omega

/-- A whole quotient is its own rounding. -/
theorem roundDiv_mul (quotient : Nat) {denominator : Nat} (positive : 0 < denominator) :
    roundDiv (quotient * denominator) denominator = quotient := by
  simp [roundDiv, Nat.mul_div_cancel _ positive, positive]

end Stencil.Number
