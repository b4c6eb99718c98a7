import Stencil.Proofs.Literals.Numerals
import Stencil.Syntax.Lexing

/-!
# Integer literals

An integer is a sign, or none, and the digits of a base, which their start announces
(`SpellsInteger`). Whatever number has neither a point nor an exponent is read exactly if it spells
an integer of a size that a word holds, as a signed word or, without a sign, as an unsigned one
(`ofText_eq_ok_iff`).
-/

set_option autoImplicit false
set_option relaxedAutoImplicit false

namespace Stencil.Syntax

open Number

/-! ### Spellings -/

/-- That an unsigned text announces a base in front of digits. -/
inductive Announces : List Char → Nat → List Char → Prop
  | hexadecimal {mark : Char} {digits : List Char} (hmark : mark = 'x' ∨ mark = 'X') :
    Announces ('0' :: mark :: digits) 16 digits
  | octal {mark : Char} {digits : List Char} (hmark : mark = 'o' ∨ mark = 'O') :
    Announces ('0' :: mark :: digits) 8 digits
  | binary {mark : Char} {digits : List Char} (hmark : mark = 'b' ∨ mark = 'B') :
    Announces ('0' :: mark :: digits) 2 digits
  /-- A zero in front of anything else announces octal digits. -/
  | leadingZero {next : Char} {digits : List Char}
    (hnext : next ∉ ['x', 'X', 'o', 'O', 'b', 'B']) :
    Announces ('0' :: next :: digits) 8 (next :: digits)
  | decimal {digits : List Char} (hzero : digits.head? ≠ some '0' ∨ digits = ['0']) :
    Announces digits 10 digits

/-- The text of a sign. -/
def signChars : Option Bool → List Char
  | none => []
  | some true => ['-']
  | some false => ['+']

/-- That a text spells an integer, its underscores aside. -/
def SpellsInteger (text : List Char) (n : Integer) : Prop :=
  ∃ unsigned base digits, text.filter (· ≠ '_') = signChars n.sign ++ unsigned ∧
    Announces unsigned base digits ∧ digits ≠ [] ∧ Numeral base digits n.magnitude

/-! ### Lower case -/

/-- A character above ASCII has no lower case of its own. -/
theorem toLower_of_le {c : Char} (hc : 0x80 ≤ c.toNat) : c.toLower = c := by
  have hlast : 'Z'.toNat = 90 := by decide
  refine dif_neg ?_
  simp only [UInt32.le_iff_toNat_le, Char.toNat_val, ge_iff_le]
  omega

/-- What holds of the characters of ASCII and of those without a lower case holds of all. -/
theorem forall_of_ascii {P : Char → Prop} (hascii : ∀ code < 0x80, P (Char.ofNat code))
    (hother : ∀ c, c.toLower = c → 0x80 ≤ c.toNat → P c) (c : Char) : P c := by
  by_cases hc : c.toNat < 0x80
  · have hsame := hascii c.toNat hc
    rwa [Char.ofNat_toNat] at hsame
  · exact hother c (toLower_of_le (by omega)) (by omega)

/-- The letter of a base in lower case is that letter in either case, and a zero or a sign in lower
case is itself. -/
theorem toLower_eq_iff (c : Char) :
    (c.toLower = 'x' ↔ c = 'x' ∨ c = 'X') ∧ (c.toLower = 'o' ↔ c = 'o' ∨ c = 'O') ∧
      (c.toLower = 'b' ↔ c = 'b' ∨ c = 'B') ∧ (c.toLower = '0' ↔ c = '0') ∧
      (c.toLower = '-' ↔ c = '-') ∧ (c.toLower = '+' ↔ c = '+') := by
  induction c using forall_of_ascii with
  | hascii code hcode =>
    revert code
    decide +kernel
  | hother c hlower hc =>
    have hne {other : Char} (hother : other.toNat < 0x80) : c ≠ other := by
      rintro rfl
      omega
    rw [hlower]
    refine ⟨?_, ?_, ?_, Iff.rfl, Iff.rfl, Iff.rfl⟩ <;>
      simp [hne (show 'X'.toNat < 0x80 by decide), hne (show 'O'.toNat < 0x80 by decide),
        hne (show 'B'.toNat < 0x80 by decide)]

/-- A digit is one in lower case. -/
theorem isDigit_toLower {base : Nat} (hbase : base ≤ 16) (c : Char) (value : Nat) :
    IsDigit base c.toLower value ↔ IsDigit base c value := by
  rw [isDigit_iff_of_le hbase, isDigit_iff_of_le hbase, and_congr_right_iff]
  intro hvalue
  replace hvalue : value < 16 := hvalue.trans_le hbase
  clear hbase
  induction c using forall_of_ascii with
  | hascii code hcode =>
    revert value code
    decide +kernel
  | hother c hlower hc => rw [hlower]

/-- A numeral is one in lower case. -/
theorem numeral_map_toLower {base : Nat} (hbase : base ≤ 16) {digits : List Char} {value : Nat} :
    Numeral base (digits.map Char.toLower) value ↔ Numeral base digits value := by
  simp only [Numeral, List.forall₂_map_left_iff, isDigit_toLower hbase]

/-! ### Bases -/

/-- Every unsigned text announces a base. -/
theorem exists_announces (text : List Char) : ∃ base digits, Announces text base digits := by
  match text with
  | [] => exact ⟨10, [], .decimal (.inl nofun)⟩
  | [c] =>
    by_cases hc : c = '0'
    · exact ⟨10, [c], .decimal (.inr (by rw [hc]))⟩
    · exact ⟨10, [c], .decimal (.inl (by simpa using hc))⟩
  | c :: mark :: digits =>
    by_cases hc : c = '0'
    · subst hc
      by_cases hx : mark = 'x' ∨ mark = 'X'
      · exact ⟨16, digits, .hexadecimal hx⟩
      by_cases ho : mark = 'o' ∨ mark = 'O'
      · exact ⟨8, digits, .octal ho⟩
      by_cases hb : mark = 'b' ∨ mark = 'B'
      · exact ⟨2, digits, .binary hb⟩
      exact ⟨8, mark :: digits, .leadingZero (by simp_all)⟩
    · exact ⟨10, c :: mark :: digits, .decimal (.inl (by simpa using hc))⟩

/-- The base of an unsigned text in lower case is the one that the text announces. -/
theorem Announces.splitBase_eq {text digits : List Char} {base : Nat}
    (hannounces : Announces text base digits) :
    Integer.splitBase (text.map Char.toLower) = (base, digits.map Char.toLower) ∧ base ≤ 16 := by
  cases hannounces with
  | hexadecimal hmark | octal hmark | binary hmark =>
    rcases hmark with rfl | rfl <;> exact ⟨rfl, by decide⟩
  | @leadingZero next digits hnext =>
    obtain ⟨hx, ho, hb, -⟩ := toLower_eq_iff next
    simp only [List.mem_cons, List.not_mem_nil, or_false, not_or] at hnext
    have hzero : '0'.toLower = '0' := by decide
    rw [List.map_cons, List.map_cons, hzero]
    refine ⟨?_, by decide⟩
    unfold Integer.splitBase
    split <;> simp_all
  | decimal hfirst =>
    refine ⟨?_, by decide⟩
    rcases hfirst with hfirst | rfl
    · unfold Integer.splitBase
      cases text with
      | nil => rfl
      | cons c text =>
        have hc : c.toLower ≠ '0' := by simpa [toLower_eq_iff] using hfirst
        split <;> simp_all
    · rfl

/-- What announces a base in front of a numeral starts with no sign. -/
theorem Announces.head_ne {text digits : List Char} {base value : Nat}
    (hannounces : Announces text base digits) (hdigits : digits ≠ [])
    (hvalue : Numeral base digits value) : ∃ c rest, text = c :: rest ∧ c ≠ '-' ∧ c ≠ '+' := by
  cases hannounces with
  | decimal =>
    obtain ⟨c, rest, rfl⟩ := List.exists_cons_of_ne_nil hdigits
    obtain ⟨digit, _, hdigit, -⟩ := Numeral.cons_iff.mp hvalue
    have hsign : ∀ digit < 10, ¬ IsDigit 10 '-' digit ∧ ¬ IsDigit 10 '+' digit := by decide
    refine ⟨c, rest, rfl, ?_, ?_⟩ <;> rintro rfl
    · exact (hsign digit hdigit.1).1 hdigit
    · exact (hsign digit hdigit.1).2 hdigit
  | _ => exact ⟨_, _, rfl, by decide, by decide⟩

/-! ### Integers -/

/-- The magnitude of an unsigned text is the value of its numeral in the base that it announces. -/
theorem magnitude?_splitBase_eq_some_iff {text : List Char} {magnitude : Nat} :
    Integer.magnitude? (Integer.splitBase (text.map Char.toLower)).1
        (Integer.splitBase (text.map Char.toLower)).2 = some magnitude ↔
      ∃ base digits, Announces text base digits ∧ digits ≠ [] ∧ Numeral base digits magnitude := by
  constructor
  · intro hmagnitude
    obtain ⟨base, digits, hannounces⟩ := exists_announces text
    obtain ⟨hsplit, hbase⟩ := hannounces.splitBase_eq
    rw [hsplit, magnitude?_eq_some_iff hbase, numeral_map_toLower hbase] at hmagnitude
    exact ⟨base, digits, hannounces, by simpa using hmagnitude.1, hmagnitude.2⟩
  · rintro ⟨base, digits, hannounces, hdigits, hvalue⟩
    obtain ⟨hsplit, hbase⟩ := hannounces.splitBase_eq
    rw [hsplit, magnitude?_eq_some_iff hbase, numeral_map_toLower hbase]
    exact ⟨by simpa using hdigits, hvalue⟩

/-- What a text is read as is the magnitude of what follows its sign. -/
theorem exists_sign (text : List Char) :
    ∃ sign unsigned, text.filter (· ≠ '_') = signChars sign ++ unsigned ∧
      (sign = none → ∀ c ∈ unsigned.head?, c ≠ '-' ∧ c ≠ '+') ∧
      Integer.ofText? text = (Integer.magnitude? (Integer.splitBase (unsigned.map Char.toLower)).1
        (Integer.splitBase (unsigned.map Char.toLower)).2).map (⟨sign, ·⟩) := by
  rw [Integer.ofText?, Integer.withoutUnderscores]
  cases text.filter (· ≠ '_') with
  | nil => exact ⟨none, [], rfl, nofun, rfl⟩
  | cons c text =>
    obtain ⟨-, -, -, -, hminus, hplus⟩ := toLower_eq_iff c
    by_cases hcminus : c = '-'
    · subst hcminus
      exact ⟨some true, text, rfl, nofun, rfl⟩
    by_cases hcplus : c = '+'
    · subst hcplus
      exact ⟨some false, text, rfl, nofun, rfl⟩
    refine ⟨none, c :: text, rfl, fun _ ↦ by simp [hcminus, hcplus], ?_⟩
    rw [List.map_cons]
    split
    next sign unsigned hsplit =>
      split at hsplit
      next hcons => exact absurd (hminus.mp (List.cons.inj hcons).1) hcminus
      next hcons => exact absurd (hplus.mp (List.cons.inj hcons).1) hcplus
      next =>
        cases hsplit
        rfl

/-- A sign is told from what follows it, which has none of its own if none is told. -/
theorem signChars_append_inj {sign other : Option Bool} {first second : List Char}
    (hfirst : sign = none → ∀ c ∈ first.head?, c ≠ '-' ∧ c ≠ '+')
    (hsecond : other = none → ∀ c ∈ second.head?, c ≠ '-' ∧ c ≠ '+')
    (hsame : signChars sign ++ first = signChars other ++ second) :
    sign = other ∧ first = second := by
  have hnone {c : Char} {text rest : List Char} (hc : c = '-' ∨ c = '+')
      (htext : text = c :: rest) (hhead : ∀ c ∈ text.head?, c ≠ '-' ∧ c ≠ '+') : False := by
    subst htext
    rcases hc with rfl | rfl
    · exact (hhead '-' rfl).1 rfl
    · exact (hhead '+' rfl).2 rfl
  match sign, other with
  | none, none => exact ⟨rfl, hsame⟩
  | none, some true => exact (hnone (.inl rfl) hsame (hfirst rfl)).elim
  | none, some false => exact (hnone (.inr rfl) hsame (hfirst rfl)).elim
  | some true, none => exact (hnone (.inl rfl) hsame.symm (hsecond rfl)).elim
  | some false, none => exact (hnone (.inr rfl) hsame.symm (hsecond rfl)).elim
  | some true, some true => exact ⟨rfl, (List.cons.inj hsame).2⟩
  | some false, some false => exact ⟨rfl, (List.cons.inj hsame).2⟩
  | some true, some false => exact absurd (List.cons.inj hsame).1 (by decide)
  | some false, some true => exact absurd (List.cons.inj hsame).1 (by decide)

/-- The integer of a text is the one that the text spells. -/
theorem ofText?_eq_some_iff {text : List Char} {n : Integer} :
    Integer.ofText? text = some n ↔ SpellsInteger text n := by
  obtain ⟨sign, unsigned, htext, hhead, hread⟩ := exists_sign text
  rw [hread, Option.map_eq_some_iff]
  simp only [magnitude?_splitBase_eq_some_iff]
  constructor
  · rintro ⟨magnitude, ⟨base, digits, hannounces, hdigits, hvalue⟩, rfl⟩
    exact ⟨unsigned, base, digits, htext, hannounces, hdigits, hvalue⟩
  · rintro ⟨others, base, digits, hothers, hannounces, hdigits, hvalue⟩
    obtain ⟨c, rest, rfl, hminus, hplus⟩ := hannounces.head_ne hdigits hvalue
    obtain ⟨rfl, rfl⟩ := signChars_append_inj hhead (fun _ ↦ by simp [hminus, hplus])
      (htext.symm.trans hothers)
    exact ⟨n.magnitude, ⟨base, digits, hannounces, hdigits, hvalue⟩, rfl⟩

/-- A zero in front of other digits makes them octal. -/
example : Integer.ofText? "-01_7".toList = some ⟨some true, 15⟩ := by decide

/-! ### Readings -/

/-- That a number has neither a point nor an exponent. A hexadecimal number has its exponent behind
a p, since an e is one of its digits. -/
def IsIntegral (text : List Char) : Prop :=
  '.' ∉ text ∧ 'p' ∉ text ∧ 'P' ∉ text ∧
    ((numberBase (dropOne ['+', '-'] text)).1 = .hexadecimal ∨ 'e' ∉ text ∧ 'E' ∉ text)

/-- That an integer has a reading: as a signed word, or, without a sign, as an unsigned one. -/
def Integer.Fits (n : Integer) : Prop :=
  Word.isSigned n.value = true ∨ n.sign = none ∧ Word.isUnsigned n.value = true

/-- The number of an integer that has a reading. -/
def Integer.literal (n : Integer) (position : Position) (text : String) : NumberLiteral where
  position := position
  text := text
  signed := if Word.isSigned n.value then some n.value else none
  unsigned :=
    if (n.sign = none ∨ n.value = 0) ∧ Word.isUnsigned n.value then some n.value.toNat else none
  float := some (Binary64.ofInt n.value)

/-- The unsigned reading of an integer. -/
theorem unsigned?_eq (n : Integer) :
    n.unsigned? = if (n.sign = none ∨ n.value = 0) ∧ Word.isUnsigned n.value then
      some n.value.toNat else none := by
  obtain ⟨sign, magnitude⟩ := n
  have hlimit : 0 < Word.unsignedLimit := by decide
  by_cases hzero : magnitude = 0
  · subst hzero
    simp [Integer.unsigned?, Integer.value, Word.isUnsigned, hlimit]
  · cases sign with
    | none => simp [Integer.unsigned?, Integer.value, Word.isUnsigned, hzero]
    | some negative => cases negative <;> simp [Integer.unsigned?, Integer.value, hzero]

/-- A hexadecimal number is a sign, or none, and a zero with an x behind it. -/
theorem exists_of_hexadecimal {text : List Char}
    (hbase : (numberBase (dropOne ['+', '-'] text)).1 = .hexadecimal) :
    ∃ sign mark digits, (sign = [] ∨ sign = ['+'] ∨ sign = ['-']) ∧ (mark = 'x' ∨ mark = 'X') ∧
      text = sign ++ '0' :: mark :: digits := by
  obtain ⟨sign, unsigned, hsign, htext, hrest⟩ : ∃ sign unsigned,
      (sign = [] ∨ sign = ['+'] ∨ sign = ['-']) ∧ text = sign ++ unsigned ∧
        dropOne ['+', '-'] text = unsigned := by
    cases text with
    | nil => exact ⟨[], [], .inl rfl, rfl, rfl⟩
    | cons c text =>
      by_cases hc : c = '+' ∨ c = '-'
      · exact ⟨[c], text, .inr (by simpa using hc), rfl, if_pos (by simpa using hc)⟩
      · exact ⟨[], c :: text, .inl rfl, rfl, if_neg (by simpa using hc)⟩
  rw [hrest] at hbase
  unfold numberBase at hbase
  split at hbase
  case h_1 digits => exact ⟨sign, 'x', digits, hsign, .inl rfl, htext⟩
  case h_2 digits => exact ⟨sign, 'X', digits, hsign, .inr rfl, htext⟩
  all_goals cases hbase

/-- A hexadecimal number is no decimal one. -/
theorem ofText?_hexadecimal {text : List Char}
    (hbase : (numberBase (dropOne ['+', '-'] text)).1 = .hexadecimal) :
    Binary64.ofText? (Integer.withoutUnderscores text) = none := by
  obtain ⟨sign, mark, digits, hsign, hmark, rfl⟩ := exists_of_hexadecimal hbase
  rw [Binary64.ofText?, Option.map_eq_none_iff]
  rcases hsign with rfl | rfl | rfl <;> rcases hmark with rfl | rfl <;>
    simp [Integer.withoutUnderscores, readDecimal, splitSign, readExponent]

/-- A number without a point or an exponent is not read as a floating-point number. -/
theorem exists_fault {position : Position} {text : String} (hintegral : IsIntegral text.toList)
    (hsigned : (Integer.ofText? text.toList).bind Integer.signed? = none)
    (hunsigned : (Integer.ofText? text.toList).bind Integer.unsigned? = none) :
    ∃ fault, NumberLiteral.ofText position text = .error fault := by
  obtain ⟨hpoint, hp, hP, hexponent⟩ := hintegral
  simp only [NumberLiteral.ofText, hsigned, hunsigned]
  split
  next => exact ⟨.malformed, rfl⟩
  next x hfloat =>
    rcases hexponent with hbase | ⟨he, hE⟩
    · rw [ofText?_hexadecimal hbase] at hfloat
      cases hfloat
    · have hmark : text.toList.any NumberLiteral.isFloatMark = false := by
        rw [List.any_eq_false]
        intro c hc hmark
        simp only [NumberLiteral.isFloatMark, List.contains_eq_mem, List.mem_cons,
          List.not_mem_nil, or_false, decide_eq_true_eq] at hmark
        rcases hmark with rfl | rfl | rfl | rfl | rfl <;> contradiction
      rw [hmark]
      exact ⟨.overflow, rfl⟩

/-- An integer fits if it has one of the two readings. -/
theorem Integer.fits_iff (n : Integer) : n.Fits ↔ n.signed? ≠ none ∨ n.unsigned? ≠ none := by
  have hzero (hvalue : n.value = 0) : Word.isSigned n.value = true := by
    rw [hvalue]
    decide
  rw [Integer.Fits, Integer.signed?, unsigned?_eq]
  cases hsigned : Word.isSigned n.value with
  | true => simp
  | false =>
    have hne : n.value ≠ 0 := fun hvalue ↦ by simp [hzero hvalue] at hsigned
    simp [hne]

/-- An integer that fits and is no signed word has no sign and is an unsigned word. -/
theorem Integer.Fits.of_isSigned_eq_false {n : Integer} (hfits : n.Fits)
    (hsigned : Word.isSigned n.value = false) :
    n.sign = none ∧ Word.isUnsigned n.value = true ∧ (n.value.toNat : Int) = n.value := by
  obtain ⟨hsign, hunsigned⟩ := hfits.resolve_left (by simp [hsigned])
  have hnonneg : 0 ≤ n.value := by
    simp only [Word.isUnsigned, Bool.and_eq_true, decide_eq_true_eq] at hunsigned
    exact hunsigned.1
  exact ⟨hsign, hunsigned, Int.toNat_of_nonneg hnonneg⟩

/-- An integer that fits is read. -/
theorem ofText_of_fits {position : Position} {text : String} {n : Integer}
    (hread : Integer.ofText? text.toList = some n) (hfits : n.Fits) :
    NumberLiteral.ofText position text = .ok (n.literal position text) := by
  simp only [NumberLiteral.ofText, hread, Option.bind_some, unsigned?_eq, Integer.signed?,
    Integer.literal]
  cases hsigned : Word.isSigned n.value with
  | true => rfl
  | false =>
    obtain ⟨hsign, hunsigned, hnonneg⟩ := hfits.of_isSigned_eq_false hsigned
    simp [hsign, hunsigned, hnonneg]

/-- A number without a point or an exponent is read exactly if it spells an integer that fits, and
as this integer. -/
theorem ofText_eq_ok_iff {position : Position} {text : String} {literal : NumberLiteral}
    (hintegral : IsIntegral text.toList) :
    NumberLiteral.ofText position text = .ok literal ↔
      ∃ n, SpellsInteger text.toList n ∧ n.Fits ∧ literal = n.literal position text := by
  simp only [← ofText?_eq_some_iff]
  constructor
  · intro hliteral
    by_cases hfits : ∃ n, Integer.ofText? text.toList = some n ∧ n.Fits
    · obtain ⟨n, hread, hfits⟩ := hfits
      rw [ofText_of_fits hread hfits] at hliteral
      exact ⟨n, hread, hfits, (Except.ok.inj hliteral).symm⟩
    · have hnone : (Integer.ofText? text.toList).bind Integer.signed? = none ∧
          (Integer.ofText? text.toList).bind Integer.unsigned? = none := by
        cases hread : Integer.ofText? text.toList with
        | none => exact ⟨rfl, rfl⟩
        | some n =>
          have hneither := (not_congr n.fits_iff).mp fun hn ↦ hfits ⟨n, hread, hn⟩
          simpa using hneither
      obtain ⟨fault, hfault⟩ := exists_fault hintegral hnone.1 hnone.2
      rw [hfault] at hliteral
      cases hliteral
  · rintro ⟨n, hread, hfits, rfl⟩
    exact ofText_of_fits hread hfits

end Stencil.Syntax
