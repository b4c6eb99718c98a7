import Mathlib.Data.String.Basic
import Mathlib.Order.Compare
import Stencil.Text.Bytes

/-!
# The order of texts

Texts are ordered character by character. Since the lead byte of a character tells how many bytes
follow it, and lead and following bytes hold the digits of its code, the greatest first, this is the
order of their bytes (`compare_compares_bytesOf`).
-/

set_option autoImplicit false
set_option relaxedAutoImplicit false

namespace Stencil

namespace Utf8

/-! ### The bytes of a code -/

/-- The number of bytes that follow the lead byte of a code. -/
def trailing (code : Nat) : Nat :=
  if code ≤ 0x7F then 0 else if code ≤ 0x7FF then 1 else if code ≤ 0xFFFF then 2 else 3

/-- The lead byte of a code. -/
def lead (code : Nat) : Nat :=
  if code ≤ 0x7F then code else if code ≤ 0x7FF then code / 64 + 0xC0
    else if code ≤ 0xFFFF then code / 64 ^ 2 + 0xE0 else code / 64 ^ 3 + 0xF0

/-- The bytes that follow a lead byte: the last digits of the code to base sixty-four. -/
def continuation (code : Nat) : Nat → List UInt8
  | 0 => []
  | count + 1 => UInt8.ofNat (code / 64 ^ count % 64 + 0x80) :: continuation code count

/-- The codes of characters end below 0x110000. -/
theorem toNat_lt (c : Char) : c.toNat < 0x110000 := by
  have hvalid : c.toNat.isValidChar := c.valid
  unfold Nat.isValidChar at hvalid
  omega

/-- The lead byte of a character is a byte. -/
theorem lead_lt (c : Char) : lead c.toNat < 0x100 := by
  have hcode := toNat_lt c
  unfold lead
  split_ifs <;> omega

/-- The bytes of a character are its lead byte and those that follow it. -/
theorem encode_eq (c : Char) :
    String.utf8EncodeChar c =
      UInt8.ofNat (lead c.toNat) :: continuation c.toNat (trailing c.toNat) := by
  have hcode := toNat_lt c
  rw [String.utf8EncodeChar, Char.toNat_val, lead, trailing]
  generalize c.toNat = code at *
  split_ifs
  · rfl
  · rw [Nat.mod_eq_of_lt (by omega : code / 64 < 32)]
    simp [continuation]
  · rw [Nat.mod_eq_of_lt (by omega : code / 4096 < 16)]
    simp [continuation]
  · rw [Nat.mod_eq_of_lt (by omega : code / 262144 < 8)]
    simp [continuation]

/-- The greater of two codes has the greater lead byte, or the greater digits behind the same. -/
theorem lead_lt_or {m n : Nat} (hlt : m < n) :
    lead m < lead n ∨
      lead m = lead n ∧ trailing m = trailing n ∧
        m % 64 ^ trailing n < n % 64 ^ trailing n := by
  unfold lead trailing
  split_ifs <;> simp <;> omega

/-- Following bytes are in the order of the digits that they hold. -/
theorem continuation_append_lt {m n count : Nat} (hlt : m % 64 ^ count < n % 64 ^ count)
    (xs ys : List UInt8) : continuation m count ++ xs < continuation n count ++ ys := by
  induction count with
  | zero => simp [Nat.mod_one] at hlt
  | succ count ih =>
    rw [pow_succ, Nat.mod_mul, Nat.mod_mul] at hlt
    simp only [continuation, List.cons_append, List.cons_lt_cons_iff]
    by_cases hdigit : m / 64 ^ count % 64 = n / 64 ^ count % 64
    · rw [hdigit] at hlt ⊢
      exact .inr ⟨rfl, ih (by omega)⟩
    · have hgreater : m / 64 ^ count % 64 < n / 64 ^ count % 64 := by
        by_contra hless
        have hstep := Nat.mul_le_mul_left (64 ^ count)
          (show n / 64 ^ count % 64 + 1 ≤ m / 64 ^ count % 64 by omega)
        have hrest := Nat.mod_lt n (Nat.pow_pos (show 0 < 64 by decide) : 0 < 64 ^ count)
        rw [Nat.mul_succ] at hstep
        omega
      left
      rw [UInt8.lt_iff_toNat_lt, UInt8.toNat_ofNat', UInt8.toNat_ofNat']
      omega

/-- The order of two characters is that of their bytes, whatever follows. -/
theorem encode_append_lt {c d : Char} (hlt : c < d) (xs ys : List UInt8) :
    String.utf8EncodeChar c ++ xs < String.utf8EncodeChar d ++ ys := by
  rw [encode_eq, encode_eq, List.cons_append, List.cons_append,
    List.cons_lt_cons_iff]
  rcases lead_lt_or (show c.toNat < d.toNat from hlt) with hlead | ⟨hlead, htrailing, hrest⟩
  · left
    have hc := lead_lt c
    have hd := lead_lt d
    rw [UInt8.lt_iff_toNat_lt, UInt8.toNat_ofNat', UInt8.toNat_ofNat']
    omega
  · rw [hlead, htrailing]
    exact .inr ⟨rfl, continuation_append_lt hrest xs ys⟩

end Utf8

/-! ### Texts -/

/-- The lesser of two texts has the lesser bytes. -/
theorem bytesOf_lt {s t : List Char} (hlt : s < t) : bytesOf s < bytesOf t := by
  induction hlt with
  | @nil c t =>
    rw [bytesOf, bytesOf, List.flatMap_cons, Utf8.encode_eq]
    exact List.nil_lt_cons _ _
  | @rel c s d t hchar => exact Utf8.encode_append_lt hchar _ _
  | @cons c s t _ ih => exact List.append_left_lt ih

/-- The order of two texts is that of their bytes. -/
theorem compare_compares_bytesOf (s t : String) :
    (compare s t).Compares (bytesOf s.toList) (bytesOf t.toList) := by
  have hcompares : (compare s t).Compares s t := (compare_iff s t).mp rfl
  generalize compare s t = order at hcompares ⊢
  cases order with
  | lt => exact bytesOf_lt (String.lt_iff.mp hcompares)
  | eq => exact congrArg (bytesOf ·.toList) hcompares
  | gt => exact bytesOf_lt (String.lt_iff.mp hcompares)

end Stencil
