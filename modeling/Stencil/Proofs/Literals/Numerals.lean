import Mathlib.Data.List.Forall2
import Mathlib.Data.Nat.Digits.Defs
import Mathlib.Tactic.Ring
import Stencil.Syntax.Number

/-!
# Numerals

A numeral in a base is a sequence of digits of the base, and its value is the positional one
(`Numeral`), whatever reads it. Two readers are held to it. One takes so many digits from the head
of a text, as an escape does (`readDigits_eq_some_iff`); the other takes a text that holds digits
alone, as an integer does (`magnitude?_eq_some_iff`). A numeral of so many digits is smaller than
the power of the base that the digits can count up to (`Numeral.lt`).
-/

set_option autoImplicit false
set_option relaxedAutoImplicit false

namespace Stencil

open Literal Syntax

/-! ### Digits -/

/-- The digits of the bases up to sixteen, in the order of their values. -/
def lowerDigits : List Char := "0123456789abcdef".toList

/-- The same digits, with the letters in upper case. -/
def upperDigits : List Char := "0123456789ABCDEF".toList

/-- That a character is the digit of a value in a base up to sixteen. -/
def IsDigit (base : Nat) (c : Char) (value : Nat) : Prop :=
  value < base ∧ (lowerDigits[value]? = some c ∨ upperDigits[value]? = some c)

instance (base : Nat) (c : Char) (value : Nat) : Decidable (IsDigit base c value) :=
  inferInstanceAs (Decidable (_ ∧ _))

/-- A digit is a character of ASCII. -/
theorem IsDigit.lt_ascii {base value : Nat} {c : Char} (hdigit : IsDigit base c value) :
    c.toNat < 0x80 := by
  have hall : (lowerDigits ++ upperDigits).all (·.toNat < 0x80) = true := by decide
  have hmem : c ∈ lowerDigits ++ upperDigits :=
    List.mem_append.mpr (hdigit.2.imp List.mem_of_getElem? List.mem_of_getElem?)
  exact of_decide_eq_true (List.all_eq_true.mp hall c hmem)

/-- A hexadecimal digit is a character of ASCII with a value below sixteen. -/
theorem lt_ascii_of_hexDigit? {c : Char} {value : Nat} (hvalue : hexDigit? c = some value) :
    c.toNat < 0x80 ∧ value < 16 := by
  have hzero : '0'.toNat = 48 ∧ '9'.toNat = 57 := by decide
  have hlower : 'a'.toNat = 97 ∧ 'f'.toNat = 102 := by decide
  have hupper : 'A'.toNat = 65 ∧ 'F'.toNat = 70 := by decide
  simp only [hexDigit?, Char.isDigit, Bool.and_eq_true, decide_eq_true_eq, ge_iff_le, Char.le_def,
    UInt32.le_iff_toNat_le, Char.toNat_val] at hvalue
  split at hvalue
  next hrange =>
    cases hvalue
    omega
  next =>
    split at hvalue
    next hrange =>
      cases hvalue
      omega
    next =>
      split at hvalue
      next hrange =>
        cases hvalue
        omega
      next => cases hvalue

/-- The lexer's hexadecimal digits are those of base sixteen. -/
theorem hexDigit?_eq_some_iff {c : Char} {value : Nat} :
    hexDigit? c = some value ↔ IsDigit 16 c value := by
  have hascii : ∀ code < 0x80, ∀ value < 16,
      hexDigit? (Char.ofNat code) = some value ↔ IsDigit 16 (Char.ofNat code) value := by
    decide +kernel
  have hboth (hc : c.toNat < 0x80) (hvalue : value < 16) := hascii c.toNat hc value hvalue
  rw [Char.ofNat_toNat] at hboth
  constructor
  · intro hdigit
    obtain ⟨hc, hvalue⟩ := lt_ascii_of_hexDigit? hdigit
    exact (hboth hc hvalue).mp hdigit
  · intro hdigit
    exact (hboth hdigit.lt_ascii hdigit.1).mpr hdigit

/-- A digit of a base is one of any greater base. -/
theorem isDigit_iff_of_le {base : Nat} (hbase : base ≤ 16) {c : Char} {value : Nat} :
    IsDigit base c value ↔ value < base ∧ IsDigit 16 c value :=
  ⟨fun hdigit ↦ ⟨hdigit.1, hdigit.1.trans_le hbase, hdigit.2⟩, fun hdigit ↦ ⟨hdigit.1, hdigit.2.2⟩⟩

/-- The digits of an integer are those of its base. -/
theorem digitOf?_eq_some_iff {base : Nat} (hbase : base ≤ 16) {c : Char} {value : Nat} :
    Integer.digitOf? base c = some value ↔ IsDigit base c value := by
  rw [Integer.digitOf?, Option.filter_eq_some_iff, hexDigit?_eq_some_iff, decide_eq_true_eq,
    isDigit_iff_of_le hbase, and_comm]

/-- The octal digits of an escape are those of base eight. -/
theorem octalDigit?_eq_some_iff {c : Char} {value : Nat} :
    octalDigit? c = some value ↔ IsDigit 8 c value := by
  have hascii : ∀ code < 0x80, octalDigit? (Char.ofNat code) =
      Integer.digitOf? 8 (Char.ofNat code) := by
    decide +kernel
  rw [← digitOf?_eq_some_iff (by decide)]
  by_cases hc : c.toNat < 0x80
  · have hsame := hascii c.toNat hc
    rw [Char.ofNat_toNat] at hsame
    rw [hsame]
  · have hnone : octalDigit? c = none := by
      have hseven : '7'.toNat = 55 := by decide
      simp only [octalDigit?, Bool.and_eq_true, decide_eq_true_eq, Char.le_def,
        UInt32.le_iff_toNat_le, Char.toNat_val]
      exact if_neg (by omega)
    rw [hnone, digitOf?_eq_some_iff (by decide)]
    exact iff_of_false nofun fun hdigit ↦ hc hdigit.lt_ascii

/-! ### Values -/

/-- That characters are the digits of a number in a base. -/
def Numeral (base : Nat) (digits : List Char) (value : Nat) : Prop :=
  ∃ values, List.Forall₂ (IsDigit base) digits values ∧ value = Nat.ofDigits base values.reverse

namespace Numeral

variable {base value : Nat} {c : Char} {digits : List Char}

theorem nil_iff : Numeral base [] value ↔ value = 0 := by
  constructor
  · rintro ⟨values, hdigits, rfl⟩
    cases hdigits
    rfl
  · rintro rfl
    exact ⟨[], .nil, rfl⟩

/-- A first digit counts for as many places as there are digits behind it. -/
theorem cons_iff : Numeral base (c :: digits) value ↔
    ∃ digit rest, IsDigit base c digit ∧ Numeral base digits rest ∧
      value = digit * base ^ digits.length + rest := by
  constructor
  · rintro ⟨values, hdigits, rfl⟩
    cases hdigits with
    | @cons _ digit _ others hdigit hothers =>
      refine ⟨digit, _, hdigit, ⟨others, hothers, rfl⟩, ?_⟩
      rw [List.reverse_cons, Nat.ofDigits_append, Nat.ofDigits_singleton, List.length_reverse,
        hothers.length_eq, Nat.mul_comm, Nat.add_comm]
  · rintro ⟨digit, _, hdigit, ⟨others, hothers, rfl⟩, rfl⟩
    refine ⟨digit :: others, .cons hdigit hothers, ?_⟩
    rw [List.reverse_cons, Nat.ofDigits_append, Nat.ofDigits_singleton, List.length_reverse,
      hothers.length_eq, Nat.mul_comm, Nat.add_comm]

/-- One more digit behind a numeral multiplies what stands before it by the base. -/
theorem concat {digit : Nat} (hvalue : Numeral base digits value) (hdigit : IsDigit base c digit) :
    Numeral base (digits ++ [c]) (base * value + digit) := by
  obtain ⟨values, hdigits, rfl⟩ := hvalue
  refine ⟨values ++ [digit], List.rel_append hdigits (.cons hdigit .nil), ?_⟩
  rw [List.reverse_append, List.reverse_singleton, List.singleton_append, Nat.ofDigits_cons,
    Nat.add_comm]

/-- Zeros before a numeral do not count. -/
theorem replicate_zero_append (hvalue : Numeral base digits value) (hbase : 0 < base)
    (count : Nat) : Numeral base (List.replicate count '0' ++ digits) value := by
  induction count with
  | zero => exact hvalue
  | succ count ih =>
    have hzero : IsDigit base '0' 0 := ⟨hbase, .inl rfl⟩
    exact cons_iff.mpr ⟨0, value, hzero, ih, by rw [Nat.zero_mul, Nat.zero_add]⟩

/-- The digits that a number is written with are its numeral. -/
theorem toDigits (hbase : 1 < base) (hle : base ≤ 16) (value : Nat) :
    Numeral base (Nat.toDigits base value) value := by
  have hlower : ∀ digit < 16, lowerDigits[digit]? = some digit.digitChar := by decide
  have hdigit (digit : Nat) (hlt : digit < base) : IsDigit base digit.digitChar digit :=
    ⟨hlt, .inl (hlower digit (hlt.trans_le hle))⟩
  induction value using Nat.strongRecOn with
  | ind value ih =>
    rw [Nat.toDigits_eq_if hbase]
    split
    next hlt => exact cons_iff.mpr ⟨value, 0, hdigit value hlt, nil_iff.mpr rfl, by simp⟩
    next hge =>
      have hsmaller : value / base < value := Nat.div_lt_self (by omega) hbase
      have hlast := (ih _ hsmaller).concat (hdigit _ (Nat.mod_lt value (by omega)))
      rwa [Nat.div_add_mod] at hlast

/-- The value of a numeral is below the power of its base with as many factors as it has digits. -/
theorem lt (hvalue : Numeral base digits value) : value < base ^ digits.length := by
  induction digits generalizing value with
  | nil =>
    rw [nil_iff.mp hvalue]
    exact Nat.one_pos
  | cons c digits ih =>
    obtain ⟨digit, rest, hdigit, hrest, rfl⟩ := cons_iff.mp hvalue
    have hlower := ih hrest
    have hfirst : (digit + 1) * base ^ digits.length ≤ base * base ^ digits.length :=
      Nat.mul_le_mul_right _ hdigit.1
    rw [List.length_cons, Nat.pow_succ']
    rw [Nat.add_mul, Nat.one_mul] at hfirst
    omega

end Numeral

/-! ### Readers -/

/-- Digits read on from a value are a numeral behind it. -/
theorem readDigits_eq_some_iff {base : Nat} {digit? : Char → Option Nat}
    (hdigit : ∀ {c value}, digit? c = some value ↔ IsDigit base c value) {count start : Nat}
    {text : List Char} {value : Nat} :
    readDigits digit? base count start text = some value ↔
      ∃ digits rest number, text = digits ++ rest ∧ digits.length = count ∧
        Numeral base digits number ∧ value = start * base ^ count + number := by
  induction count generalizing start text with
  | zero =>
    rw [readDigits]
    constructor
    · rintro ⟨⟩
      exact ⟨[], text, 0, rfl, rfl, Numeral.nil_iff.mpr rfl, by simp⟩
    · rintro ⟨digits, rest, number, rfl, hlength, hnumber, rfl⟩
      obtain rfl := List.length_eq_zero_iff.mp hlength
      simp [Numeral.nil_iff.mp hnumber]
  | succ count ih =>
    cases text with
    | nil =>
      rw [readDigits]
      constructor
      · exact nofun
      · rintro ⟨digits, rest, number, htext, hlength, -⟩
        have hshort := congrArg List.length htext
        simp only [List.length_nil, List.length_append] at hshort
        omega
    | cons c text =>
      rw [readDigits]
      constructor
      · intro hread
        split at hread
        next first hfirst =>
          obtain ⟨digits, rest, number, rfl, hlength, hnumber, rfl⟩ := ih.mp hread
          refine ⟨c :: digits, rest, first * base ^ digits.length + number, rfl,
            congrArg (· + 1) hlength, Numeral.cons_iff.mpr ⟨first, number, hdigit.mp hfirst,
              hnumber, rfl⟩, ?_⟩
          rw [hlength]
          ring
        next => cases hread
      · rintro ⟨digits, rest, number, htext, hlength, hnumber, rfl⟩
        cases digits with
        | nil => cases hlength
        | cons first digits =>
          obtain ⟨rfl, rfl⟩ := List.cons.inj htext
          obtain ⟨value, others, hfirst, hothers, rfl⟩ := Numeral.cons_iff.mp hnumber
          have hlength := Nat.succ.inj hlength
          rw [hdigit.mpr hfirst]
          refine ih.mpr ⟨digits, rest, others, rfl, hlength, hothers, ?_⟩
          rw [hlength]
          ring

/-- What an integer's digits spell is a numeral of at least one digit. -/
theorem magnitude?_eq_some_iff {base : Nat} (hbase : base ≤ 16) {digits : List Char}
    {value : Nat} :
    Integer.magnitude? base digits = some value ↔ digits ≠ [] ∧ Numeral base digits value := by
  have hfold (start : Nat) : digits.foldlM
      (fun value c ↦ (Integer.digitOf? base c).map (value * base + ·)) start = some value ↔
        ∃ number, Numeral base digits number ∧ value = start * base ^ digits.length + number := by
    induction digits generalizing start with
    | nil => simp [Numeral.nil_iff, eq_comm]
    | cons c digits ih =>
      rw [List.foldlM_cons, Option.bind_eq_bind, Option.bind_eq_some_iff]
      simp only [Option.map_eq_some_iff, digitOf?_eq_some_iff hbase, ih]
      constructor
      · rintro ⟨_, ⟨first, hfirst, rfl⟩, number, hnumber, rfl⟩
        refine ⟨_, Numeral.cons_iff.mpr ⟨first, number, hfirst, hnumber, rfl⟩, ?_⟩
        rw [List.length_cons]
        ring
      · rintro ⟨_, hall, rfl⟩
        obtain ⟨first, number, hfirst, hnumber, rfl⟩ := Numeral.cons_iff.mp hall
        refine ⟨_, ⟨first, hfirst, rfl⟩, number, hnumber, ?_⟩
        rw [List.length_cons]
        ring
  rw [Integer.magnitude?]
  by_cases hempty : digits = []
  · simp [hempty]
  · rw [if_neg (by simpa using hempty), hfold]
    simp [hempty]

end Stencil
