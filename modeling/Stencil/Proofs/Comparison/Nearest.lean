import Mathlib.Algebra.Order.Field.Basic
import Mathlib.Algebra.Order.Field.Power
import Mathlib.Data.Rat.Cast.Order
import Mathlib.Order.Compare
import Mathlib.Tactic.Positivity
import Mathlib.Tactic.Ring
import Stencil.Number.Binary64

/-!
# The floating-point number nearest to a whole number

The exact value of a finite number is a rational number, which its sign, exponent and fraction tell
(`toRat`). Everything else is counted in least positive numbers: the value is the rank divided by
the number of them that make up one (`toRat_eq`), so the order of finite numbers is the order of
their values (`compare?_compares`).

A whole number of at most 64 bits is rounded to a multiple of a power of two, the quantum. Every
finite number is a multiple of it too, or lies below the least normal one with this quantum, so
nothing finite is nearer to the whole number than what it is rounded to (`ofInt_nearest`).
-/

set_option autoImplicit false
set_option relaxedAutoImplicit false

namespace Stencil.Number

/-! ### Rounding on a grid -/

/-- A greater multiple is greater by the factor at least. -/
theorem mul_add_le (factor : Nat) {less greater : Nat} (hlt : less < greater) :
    factor * less + factor ≤ factor * greater := by
  rw [← Nat.mul_succ]
  exact Nat.mul_le_mul_left factor hlt

/-- No multiple of the denominator is nearer to the numerator than the rounded quotient. -/
theorem roundDiv_nearest (numerator : Nat) {denominator : Nat} (hpos : 0 < denominator)
    (multiple : Nat) :
    |((denominator * roundDiv numerator denominator : Nat) : Int) - numerator| ≤
      |((denominator * multiple : Nat) : Int) - numerator| := by
  have habove := two_mul_roundDiv_le numerator denominator
  have hbelow := le_two_mul_roundDiv numerator hpos
  generalize roundDiv numerator denominator = rounded at habove hbelow ⊢
  rcases lt_trichotomy multiple rounded with hlt | rfl | hlt
  · have hstep : denominator * multiple + denominator ≤ denominator * rounded :=
      mul_add_le _ hlt
    rw [abs_of_nonpos (by omega : ((denominator * multiple : Nat) : Int) - numerator ≤ 0), abs_le]
    omega
  · exact le_rfl
  · have hstep : denominator * rounded + denominator ≤ denominator * multiple :=
      mul_add_le _ hlt
    rw [abs_of_nonneg (by omega : 0 ≤ ((denominator * multiple : Nat) : Int) - numerator), abs_le]
    omega

/-- A quotient of at most `width + 1` bits is rounded to one, or to the power of two above. -/
theorem roundDiv_le {numerator width quantum : Nat}
    (hnumerator : numerator < 2 ^ (width + 1) * 2 ^ quantum) :
    roundDiv numerator (2 ^ quantum) ≤ 2 ^ (width + 1) := by
  have habove := two_mul_roundDiv_le numerator (2 ^ quantum)
  have hpos := Nat.two_pow_pos quantum
  rw [Nat.mul_comm (2 ^ (width + 1))] at hnumerator
  by_contra hlarge
  have hstep := mul_add_le (2 ^ quantum) (not_le.mp hlarge)
  omega

/-- A quotient is rounded to no less than the whole numbers below it. -/
theorem le_roundDiv {numerator denominator least : Nat} (hpos : 0 < denominator)
    (hnumerator : least * denominator ≤ numerator) : least ≤ roundDiv numerator denominator := by
  have hbelow := le_two_mul_roundDiv numerator hpos
  rw [Nat.mul_comm] at hnumerator
  by_contra hsmall
  have hstep := mul_add_le denominator (not_le.mp hsmall)
  omega

namespace Binary64

/-! ### Exact values -/

/-- The exact value of a finite number. An exponent field of zero is that of the numbers below the
normal ones, which have no leading one in front of the fraction. -/
def toRat (x : Binary64) : ℚ :=
  (if x.isNegative then -1 else 1) *
    if x.exponentField = 0 then (x.fraction : ℚ) * 2 ^ (-1074 : ℤ)
    else (2 ^ 52 + (x.fraction : ℚ)) * 2 ^ ((x.exponentField : ℤ) - 1075)

/-- The rank of a finite number is its signed multiple of the least positive one. -/
theorem rank_eq {x : Binary64} (hfinite : x.isFinite) :
    x.rank = if x.isNegative then -(x.units : Int) else x.units := by
  have hinfinite : x.isInfinite = false := by
    simp only [isFinite, isInfinite, decide_eq_true_eq, decide_eq_false_iff_not] at hfinite ⊢
    omega
  simp [rank, hinfinite]

/-- A finite number is a number. -/
theorem isNaN_eq_false {x : Binary64} (hfinite : x.isFinite) : x.isNaN = false := by
  simp only [isFinite, isNaN, decide_eq_true_eq, decide_eq_false_iff_not] at hfinite ⊢
  omega

/-- One is a power of two of the least positive numbers. -/
theorem one_cast : ((one : Nat) : ℚ) = 2 ^ 1074 := by
  unfold one
  -- The exponent is left open, so that the power is not evaluated.
  generalize 1074 = exponent
  rw [Nat.pow_eq, Nat.cast_pow, Nat.cast_ofNat]

theorem one_cast_pos : (0 : ℚ) < (one : Nat) := by
  rw [one_cast]
  positivity

/-- The value of a finite number is its rank, counted in least positive numbers. -/
theorem toRat_eq {x : Binary64} (hfinite : x.isFinite) : x.toRat = x.rank / (one : Nat) := by
  have hleast : (2 : ℚ) ^ (-1074 : ℤ) = ((one : Nat) : ℚ)⁻¹ := by
    rw [one_cast, ← zpow_natCast, ← zpow_neg, Nat.cast_ofNat]
  have hunits : (if x.exponentField = 0 then (x.fraction : ℚ) * 2 ^ (-1074 : ℤ)
      else (2 ^ 52 + (x.fraction : ℚ)) * 2 ^ ((x.exponentField : ℤ) - 1075)) =
        x.units * (2 : ℚ) ^ (-1074 : ℤ) := by
    rw [units, significand, shift, fractionLimit, fractionWidth, Nat.pow_eq, Nat.pow_eq]
    split
    next hzero => rw [hzero, Nat.zero_sub, Nat.pow_zero, Nat.mul_one]
    next hfield =>
      have hexponent : (x.exponentField : ℤ) - 1075 = (x.exponentField - 1 : ℕ) + -1074 := by
        omega
      rw [hexponent, zpow_add₀ two_ne_zero, zpow_natCast]
      generalize (2 : ℚ) ^ (-1074 : ℤ) = least
      push_cast
      ring
  rw [toRat, hunits, rank_eq hfinite, hleast]
  split <;> push_cast <;> ring

/-- The order of two finite numbers is the order of their values. -/
theorem compare?_compares {x y : Binary64} (hx : x.isFinite) (hy : y.isFinite) :
    ∃ order : Ordering, x.compare? y = some order ∧ order.Compares x.toRat y.toRat := by
  refine ⟨compare x.rank y.rank, by simp [compare?, isNaN_eq_false hx, isNaN_eq_false hy], ?_⟩
  have hmono : StrictMono fun rank : Int ↦ (rank : ℚ) / (one : Nat) := fun m n hlt ↦
    div_lt_div_of_pos_right (Int.cast_lt.mpr hlt) one_cast_pos
  rw [toRat_eq hx, toRat_eq hy]
  exact hmono.compares.mpr ((compare_iff x.rank y.rank).mp rfl)

/-! ### Numbers from their parts -/

section Parts

variable (negative : Bool)

/-- The bits of a number hold its magnitude and its sign. -/
theorem magnitudeBits_ofBits {magnitude : Nat} (hmagnitude : magnitude < infinityBits) :
    (ofBits negative magnitude).magnitudeBits = magnitude ∧
      (ofBits negative magnitude).isNegative = negative := by
  have hlimits : infinityBits ≤ signBit ∧ 2 * signBit = 2 ^ 64 := by decide
  have hbits : (ofBits negative magnitude).bits.toNat =
      if negative then magnitude + signBit else magnitude := by
    refine UInt64.toNat_ofNat_of_lt' ?_
    simp only [UInt64.size]
    split <;> omega
  rw [magnitudeBits, isNegative, hbits]
  cases negative
  · exact ⟨Nat.mod_eq_of_lt (by simp; omega), by simp; omega⟩
  · simp only [if_true, Nat.add_mod_right, decide_eq_true_eq]
    exact ⟨Nat.mod_eq_of_lt (by omega), by omega⟩

/-- A multiple of a quantum, as the index of the quantum on top of the multiplier, is a number of
that magnitude. Where the multiplier has a bit more than a significand, the number has the next
exponent. -/
theorem units_ofBits {quantum rounded : Nat} (hquantum : quantum = 0 ∨ fractionLimit ≤ rounded)
    (hrounded : rounded ≤ 2 * fractionLimit)
    (hmagnitude : quantum * fractionLimit + rounded < infinityBits) :
    (ofBits negative (quantum * fractionLimit + rounded)).units = rounded * 2 ^ quantum := by
  obtain ⟨hbits, -⟩ := magnitudeBits_ofBits negative hmagnitude
  have hpos : 0 < fractionLimit := by decide
  have hfields (field fraction : Nat) (hfraction : fraction < fractionLimit) :
      (field * fractionLimit + fraction) / fractionLimit = field ∧
        (field * fractionLimit + fraction) % fractionLimit = fraction := by
    rw [Nat.mul_comm, Nat.mul_add_div hpos, Nat.mul_add_mod, Nat.div_eq_of_lt hfraction,
      Nat.mod_eq_of_lt hfraction]
    exact ⟨rfl, rfl⟩
  simp only [units, significand, shift, exponentField, fraction, hbits, Nat.pow_eq]
  by_cases hsubnormal : rounded < fractionLimit
  · obtain rfl : quantum = 0 := by omega
    obtain ⟨hfield, hfraction⟩ := hfields 0 rounded hsubnormal
    rw [hfield, hfraction, if_pos rfl]
  obtain ⟨fraction, rfl⟩ := Nat.exists_eq_add_of_le (not_lt.mp hsubnormal)
  by_cases hcarry : fraction < fractionLimit
  · obtain ⟨hfield, hfraction⟩ := hfields (quantum + 1) fraction hcarry
    rw [← Nat.add_assoc, ← Nat.succ_mul, hfield, hfraction, if_neg (Nat.succ_ne_zero quantum),
      Nat.add_sub_cancel, Nat.add_comm]
  · obtain rfl : fraction = fractionLimit := by omega
    obtain ⟨hfield, hfraction⟩ := hfields (quantum + 2) 0 hpos
    rw [Nat.add_zero] at hfield hfraction
    rw [← Nat.add_assoc, ← Nat.succ_mul, ← Nat.succ_mul, hfield, hfraction,
      if_neg (Nat.succ_ne_zero _), Nat.zero_add, Nat.add_sub_assoc one_le_two, ← Nat.mul_two]
    ring

end Parts

/-! ### The nearest number -/

/-- The magnitude of a finite number is a multiple of a quantum, or is less than the least normal
number with this quantum. -/
theorem units_lt_or_dvd (x : Binary64) (quantum : Nat) :
    x.units < fractionLimit * 2 ^ quantum ∨ 2 ^ quantum ∣ x.units := by
  have hsignificand : x.significand < 2 * fractionLimit := by
    have hfraction : x.fraction < fractionLimit := Nat.mod_lt _ (by decide)
    rw [significand]
    split <;> omega
  rw [units, Nat.pow_eq]
  by_cases hshift : quantum ≤ x.shift
  · exact .inr (Dvd.dvd.mul_left (pow_dvd_pow 2 hshift) _)
  · left
    calc x.significand * 2 ^ x.shift
        < 2 * fractionLimit * 2 ^ x.shift :=
          Nat.mul_lt_mul_of_pos_right hsignificand (Nat.two_pow_pos _)
      _ = fractionLimit * 2 ^ (x.shift + 1) := by ring
      _ ≤ fractionLimit * 2 ^ quantum :=
          Nat.mul_le_mul_left _ (Nat.pow_le_pow_right two_pos (by omega))

/-- The quantum of a magnitude: the least one of which the magnitude is at most as many as a
significand tells. -/
theorem quantum_spec (magnitude : Nat) :
    let quantum := Nat.log2 magnitude - fractionWidth
    (quantum = 0 ∨ fractionLimit * 2 ^ quantum ≤ magnitude) ∧
      magnitude < 2 ^ (fractionWidth + 1) * 2 ^ quantum := by
  intro quantum
  have hquantum : quantum = 0 ∨ Nat.log2 magnitude = fractionWidth + quantum := by omega
  refine ⟨hquantum.imp_right fun hlog ↦ ?_, ?_⟩
  · have hne : magnitude ≠ 0 := by
      rintro rfl
      have hzero : Nat.log2 0 = 0 := by decide
      have hwidth : 0 < fractionWidth := by decide
      omega
    rw [fractionLimit, Nat.pow_eq, ← pow_add, ← hlog]
    exact Nat.log2_self_le hne
  · rw [← pow_add]
    exact Nat.lt_log2_self.trans_le (Nat.pow_le_pow_right two_pos (by omega))

/-- A whole number of a size that a word holds, counted in least positive numbers, is rounded to a
multiple of a quantum. Either the quantum is one of them, and nothing is lost, or the whole number
is no less than the least normal number with this quantum. -/
theorem ofInt_parts {n : Int} (hword : n.natAbs ≤ Word.unsignedLimit) :
    ∃ quantum, (ofInt n).isFinite ∧ (ofInt n).isNegative = decide (n < 0) ∧
      (ofInt n).units = 2 ^ quantum * roundDiv (n.natAbs * one) (2 ^ quantum) ∧
        (quantum = 0 ∨ fractionLimit * 2 ^ quantum ≤ n.natAbs * one) := by
  obtain ⟨hleast, hbound⟩ := quantum_spec (n.natAbs * one)
  have hsize : Nat.log2 (n.natAbs * one) - fractionWidth ≤ 1086 := by
    by_cases hzero : n.natAbs * one = 0
    · simp [hzero]
    have hlog : Nat.log2 (n.natAbs * one) < 65 + 1074 := by
      rw [Nat.log2_lt hzero]
      unfold one
      generalize 1074 = exponent
      rw [Nat.pow_eq, pow_add]
      exact Nat.mul_lt_mul_of_pos_right (hword.trans_lt (by decide)) (Nat.two_pow_pos _)
    rw [fractionWidth]
    omega
  have hofInt : ofInt n = ofBits (n < 0)
      (min ((Nat.log2 (n.natAbs * one) - fractionWidth) * fractionLimit +
        roundDiv (n.natAbs * one) (2 ^ (Nat.log2 (n.natAbs * one) - fractionWidth)))
          infinityBits) := by
    rw [ofInt, ofRatio, Nat.div_one, Nat.one_mul, Nat.pow_eq]
  generalize Nat.log2 (n.natAbs * one) - fractionWidth = quantum at *
  have hrounded := roundDiv_le hbound
  have hfinite : quantum * fractionLimit + roundDiv (n.natAbs * one) (2 ^ quantum) <
      infinityBits := by
    have hproduct := Nat.mul_le_mul_right fractionLimit hsize
    have hlimit : 2 ^ (fractionWidth + 1) = 2 * fractionLimit ∧ 0 < fractionLimit := by decide
    rw [infinityBits]
    omega
  obtain ⟨hbits, hnegative⟩ := magnitudeBits_ofBits (n < 0) hfinite
  rw [hofInt, min_eq_left hfinite.le]
  refine ⟨quantum, ?_, hnegative, ?_, hleast⟩
  · rw [isFinite, hbits]
    exact decide_eq_true hfinite
  · rw [Nat.mul_comm (2 ^ quantum)]
    exact units_ofBits _ (hleast.imp_right (le_roundDiv (Nat.two_pow_pos _))) hrounded hfinite

/-- No magnitude of a finite number is nearer to that of a whole number, counted in least positive
numbers, than the one it is rounded to. -/
theorem units_nearest {n : Int} (hword : n.natAbs ≤ Word.unsignedLimit) (x : Binary64) :
    |((ofInt n).units : Int) - (n.natAbs * one : Nat)| ≤
      |(x.units : Int) - (n.natAbs * one : Nat)| := by
  obtain ⟨quantum, -, -, hunits, hleast⟩ := ofInt_parts hword
  have hgrid := roundDiv_nearest (n.natAbs * one) (Nat.two_pow_pos quantum)
  rw [hunits]
  rcases units_lt_or_dvd x quantum with hlt | ⟨multiple, hmultiple⟩
  · rcases hleast with rfl | hleast
    · simpa only [pow_zero, one_mul] using hgrid x.units
    · -- Below the least normal number with this quantum, this number itself is nearer.
      refine (hgrid fractionLimit).trans ?_
      rw [Nat.mul_comm, abs_of_nonpos (by omega), abs_of_nonpos (by omega)]
      omega
  · rw [hmultiple]
    exact hgrid multiple

/-- A whole number, counted in least positive numbers. -/
theorem mul_one_cast (n : Int) :
    n * (one : Nat) =
      if n < 0 then -((n.natAbs * one : Nat) : Int) else (n.natAbs * one : Nat) := by
  rw [Nat.cast_mul]
  split
  next hn => rw [← neg_mul, Int.ofNat_natAbs_of_nonpos hn.le, neg_neg]
  next hn => rw [Int.natAbs_of_nonneg (not_lt.mp hn)]

/-- The number that a whole number is rounded to is finite, and no finite number is nearer to the
whole number. -/
theorem ofInt_nearest {n : Int} (hword : n.natAbs ≤ Word.unsignedLimit) :
    (ofInt n).isFinite ∧
      ∀ x : Binary64, x.isFinite → |(ofInt n).toRat - n| ≤ |x.toRat - n| := by
  obtain ⟨-, hfinite, hnegative, -, -⟩ := ofInt_parts hword
  refine ⟨hfinite, fun x hx ↦ ?_⟩
  have hvalue (rank : Int) : (rank : ℚ) / (one : Nat) - n =
      ((rank - n * (one : Nat) : Int) : ℚ) / (one : Nat) := by
    rw [Int.cast_sub, Int.cast_mul, Int.cast_natCast, sub_div,
      mul_div_cancel_right₀ _ one_cast_pos.ne']
  have hdistance : |(ofInt n).rank - n * (one : Nat)| ≤ |x.rank - n * (one : Nat)| := by
    have hunits := units_nearest hword x
    rw [rank_eq hfinite, rank_eq hx, hnegative, mul_one_cast]
    generalize n.natAbs * one = magnitude at *
    simp only [Int.abs_eq_natAbs] at *
    simp only [decide_eq_true_eq]
    split <;> split <;> omega
  rw [toRat_eq hfinite, toRat_eq hx, hvalue, hvalue, abs_div, abs_div, ← Int.cast_abs,
    ← Int.cast_abs]
  exact div_le_div_of_nonneg_right (Int.cast_le.mpr hdistance) (abs_nonneg _)

/-- A whole number of no more bits than a significand, or the power of two above them, is a multiple
of its quantum. -/
theorem two_pow_dvd {magnitude exponent quantum : Nat} (hmagnitude : magnitude ≤ 2 ^ 53)
    (hleast : 2 ^ 52 * 2 ^ quantum ≤ magnitude * 2 ^ exponent) :
    2 ^ quantum ∣ magnitude * 2 ^ exponent := by
  by_cases hquantum : quantum ≤ exponent
  · exact Dvd.dvd.mul_left (pow_dvd_pow 2 hquantum) magnitude
  · have hpos := Nat.two_pow_pos exponent
    have hpower := Nat.pow_le_pow_right two_pos (not_le.mp hquantum)
    rw [Nat.pow_succ] at hpower
    obtain rfl : magnitude = 2 ^ 53 := by
      by_contra hne
      have hless := Nat.mul_lt_mul_of_pos_right (lt_of_le_of_ne hmagnitude hne) hpos
      omega
    obtain rfl : quantum = exponent + 1 := by
      refine le_antisymm ?_ (not_le.mp hquantum)
      rw [← Nat.pow_le_pow_iff_right one_lt_two, Nat.pow_succ]
      omega
    exact ⟨2 ^ 52, by ring⟩

/-- A whole number of up to fifty-three bits, or the next power of two, loses nothing. -/
theorem toRat_ofInt {n : Int} (hsmall : n.natAbs ≤ 2 ^ 53) : (ofInt n).toRat = n := by
  obtain ⟨quantum, hfinite, hnegative, hunits, hleast⟩ :=
    ofInt_parts (hsmall.trans (by decide : 2 ^ 53 ≤ Word.unsignedLimit))
  obtain ⟨multiple, hmultiple⟩ : 2 ^ quantum ∣ n.natAbs * one := by
    rcases hleast with rfl | hleast
    · exact one_dvd _
    · unfold one at hleast ⊢
      generalize 1074 = exponent at hleast ⊢
      exact two_pow_dvd hsmall hleast
  rw [hmultiple, Nat.mul_comm (2 ^ quantum) multiple,
    roundDiv_mul multiple (Nat.two_pow_pos quantum), ← hmultiple] at hunits
  have hrank : (ofInt n).rank = n * (one : Nat) := by
    rw [rank_eq hfinite, hnegative, hunits, mul_one_cast]
    simp only [decide_eq_true_eq]
  rw [toRat_eq hfinite, hrank, Int.cast_mul, Int.cast_natCast,
    mul_div_cancel_right₀ _ one_cast_pos.ne']

end Binary64

end Stencil.Number
