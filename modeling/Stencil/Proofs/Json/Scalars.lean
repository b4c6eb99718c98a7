import Mathlib.Tactic.IntervalCases
import Stencil.Data.Json.Read
import Stencil.Data.Json.Write

/-!
# Reading the numbers and texts that are written

A text that is written as JSON is read back with every character as it was, escaped or not
(`tokenAt_quote`). An integer of 64 bits is written by its digits, of which the first is not a
needless zero, and read back as itself in front of anything that cannot continue a number
(`tokenAt_int`).

Places are only told in faults. What is read without one does not depend on them, so they are left
open throughout.
-/

set_option autoImplicit false
set_option relaxedAutoImplicit false

namespace Stencil.Json

open Number

/-! ### Texts -/

/-- The four digits of a control character. -/
theorem hexUnit?_leftpad {n : Nat} (hn : n < 32) (rest : List Char) :
    hexUnit? ((Nat.toDigits 16 n).leftpad 4 '0' ++ rest) = some n := by
  interval_cases n <;> rfl

/-- An escape that spells a control character by its digits. -/
theorem escapeAt_control {c : Char} (hc : c.toNat < 32) (place : Place) (rest : List Char) :
    escapeAt place ('u' :: ((Nat.toDigits 16 c.toNat).leftpad 4 '0' ++ rest)) = .ok (c, 5) := by
  have hunit : unitAt (place.forward 1) ((Nat.toDigits 16 c.toNat).leftpad 4 '0' ++ rest) =
      .ok c.toNat := by
    rw [unitAt, hexUnit?_leftpad hc]
  have htrailing : isTrailing c.toNat = false := by
    simp [isTrailing]
    omega
  have hleading : isLeading c.toNat = false := by
    simp [isLeading]
    omega
  rw [escapeAt, codeAt, hunit]
  simp [htrailing, hleading, Char.ofNat_toNat, Except.map, bind, Except.bind, pure, Except.pure]

theorem length_leftpad_control {n : Nat} (hn : n < 32) :
    ((Nat.toDigits 16 n).leftpad 4 '0').length = 4 := by
  interval_cases n <;> rfl

/-- A character is read back from what is written for it. -/
theorem textAt_escape (c : Char) (before : List Char) (count : Nat) (rest : List Char)
    (place : Place) :
    ∃ place', textAt place before count (escape c ++ rest) =
      textAt place' (c :: before) (count + (escape c).length) rest := by
  have hletter (letter : Char) (hletter : ∀ place, escapeAt place (letter :: rest) = .ok (c, 1)) :
      ∃ place', textAt place before count ('\\' :: letter :: rest) =
        textAt place' (c :: before) (count + 2) rest := by
    refine ⟨place.forward 2, ?_⟩
    rw [textAt, if_neg (by decide), if_pos rfl, hletter]
    rfl
  unfold escape
  split_ifs with hquote hslash hback hfeed hline hreturn htab hcontrol
  · exact hletter '"' fun _ ↦ by rw [hquote]; rfl
  · exact hletter '\\' fun _ ↦ by rw [hslash]; rfl
  · exact hletter 'b' fun _ ↦ by rw [hback]; rfl
  · exact hletter 'f' fun _ ↦ by rw [hfeed]; rfl
  · exact hletter 'n' fun _ ↦ by rw [hline]; rfl
  · exact hletter 'r' fun _ ↦ by rw [hreturn]; rfl
  · exact hletter 't' fun _ ↦ by rw [htab]; rfl
  · refine ⟨place.forward 6, ?_⟩
    rw [List.cons_append, List.cons_append, textAt, if_neg (by decide), if_pos rfl,
      escapeAt_control hcontrol]
    dsimp only
    rw [List.drop_succ_cons, List.drop_left' (length_leftpad_control hcontrol), List.length_cons,
      List.length_cons, length_leftpad_control hcontrol]
  · refine ⟨place.next c, ?_⟩
    rw [List.singleton_append, textAt, if_neg hquote, if_neg hslash, if_neg hcontrol]
    rfl

/-- A text is read back up to the quote that closes it. -/
theorem textAt_escapes (chars before : List Char) (count : Nat) (rest : List Char)
    (place : Place) :
    textAt place before count (chars.flatMap escape ++ '"' :: rest) =
      .ok (String.ofList (before.reverse ++ chars),
        count + (chars.flatMap escape).length + 1) := by
  induction chars generalizing before count place with
  | nil =>
    rw [List.flatMap_nil, List.nil_append, textAt, if_pos rfl, List.append_nil]
    rfl
  | cons c chars ih =>
    rw [List.flatMap_cons, List.append_assoc]
    obtain ⟨place', hchar⟩ :=
      textAt_escape c before count (chars.flatMap escape ++ '"' :: rest) place
    rw [hchar, ih]
    simp [Nat.add_assoc]

/-- The token of a text that is written. -/
theorem tokenAt_quote (text : String) (rest : List Char) (place : Place) :
    tokenAt place ((quote text).toList ++ rest) = (.text text, (quote text).toList.length) := by
  have hquote : (quote text).toList = '"' :: (text.toList.flatMap escape ++ ['"']) := by
    rw [quote, String.toList_ofList]
  rw [hquote, List.cons_append, List.append_assoc, List.singleton_append, tokenAt, textAt_escapes]
  simp

/-! ### Integers -/

/-- What cannot continue a number. -/
def EndsNumber (rest : List Char) : Prop :=
  ∀ c ∈ rest.head?, c.isDigit = false ∧ c ≠ '.' ∧ c ≠ 'e' ∧ c ≠ 'E'

theorem digitsOf_append {digits rest : List Char} (hdigits : ∀ c ∈ digits, c.isDigit = true)
    (hrest : EndsNumber rest) : digitsOf (digits ++ rest) = digits := by
  rw [digitsOf, List.takeWhile_append_of_pos hdigits]
  cases rest with
  | nil => simp
  | cons c rest =>
    have hc := (hrest c rfl).1
    simp [hc]

/-- Only zero starts with the digit zero. -/
theorem head_toDigits_ne_zero (n : Nat) (hn : 0 < n) : (Nat.toDigits 10 n).head? ≠ some '0' := by
  induction n using Nat.strongRecOn with
  | ind n ih =>
    by_cases hsmall : n < 10
    · interval_cases n <;> decide
    · rw [Nat.toDigits_of_base_le (by decide) (by omega)]
      obtain ⟨first, others, hcons⟩ := List.exists_cons_of_ne_nil
        (Nat.toDigits_ne_nil : Nat.toDigits 10 (n / 10) ≠ [])
      have hhead := ih (n / 10) (by omega) (by omega)
      rw [hcons] at hhead ⊢
      exact hhead

/-- A number that is written has no needless zero. -/
theorem wholeAt_toDigits (n : Nat) {rest : List Char} (hrest : EndsNumber rest) (place : Place) :
    wholeAt place (Nat.toDigits 10 n ++ rest) = .ok (Nat.toDigits 10 n) := by
  have hdigits : digitsOf (Nat.toDigits 10 n ++ rest) = Nat.toDigits 10 n :=
    digitsOf_append (fun c hc ↦ Nat.isDigit_of_mem_toDigits (by decide) (by decide) hc) hrest
  rw [wholeAt, hdigits]
  by_cases hzero : n = 0
  · subst hzero
    rfl
  · have hhead := head_toDigits_ne_zero n (Nat.pos_of_ne_zero hzero)
    have hne : Nat.toDigits 10 n ≠ [] := Nat.toDigits_ne_nil
    split
    · next hnil => exact absurd hnil hne
    · next hcons => exact absurd (by rw [hcons]; rfl) hhead
    · rfl

theorem decimalsAt_of_ends {rest : List Char} (hrest : EndsNumber rest) (place : Place) :
    decimalsAt place rest = .ok none := by
  cases rest with
  | nil => rfl
  | cons c rest =>
    have hpoint := (hrest c rfl).2.1
    unfold decimalsAt
    split
    · next hcons => exact absurd (List.cons.inj hcons).1 hpoint
    · rfl

theorem exponentAt_of_ends {rest : List Char} (hrest : EndsNumber rest) (place : Place) :
    exponentAt place rest = .ok (none, 0) := by
  cases rest with
  | nil => rfl
  | cons c rest =>
    obtain ⟨-, -, hsmall, hlarge⟩ := hrest c rfl
    rw [exponentAt, if_neg (by simp [hsmall, hlarge])]

/-- Digits only make a number greater. -/
theorem le_ofDigitChars (digits : List Char) (value : Nat) :
    value ≤ Nat.ofDigitChars 10 digits value := by
  induction digits generalizing value with
  | nil => simp
  | cons c digits ih =>
    rw [Nat.ofDigitChars_cons]
    exact le_trans (by omega) (ih _)

/-- Digits of a number of 64 bits are absorbed whole. -/
theorem absorb_eq {digits : List Char} {value : Nat}
    (hsize : Nat.ofDigitChars 10 digits value < Word.unsignedLimit) :
    absorb value digits = (Nat.ofDigitChars 10 digits value, []) := by
  induction digits generalizing value with
  | nil => simp [absorb]
  | cons c digits ih =>
    rw [Nat.ofDigitChars_cons, Nat.mul_comm] at hsize
    have hlonger := lt_of_le_of_lt (le_ofDigitChars digits _) hsize
    rw [absorb, if_pos hlonger, ih hsize, Nat.ofDigitChars_cons, Nat.mul_comm]

/-- An integer that has a form of 64 bits, unsigned or signed. -/
def IsWord (n : Int) : Prop := -(Word.signedLimit : Int) ≤ n ∧ n < Word.unsignedLimit

/-- The digits of a number start with one. -/
theorem exists_toDigits_eq (n : Nat) :
    ∃ c rest, Nat.toDigits 10 n = c :: rest ∧ c.isDigit = true := by
  obtain ⟨first, others, hcons⟩ := List.exists_cons_of_ne_nil
    (Nat.toDigits_ne_nil : Nat.toDigits 10 n ≠ [])
  exact ⟨first, others, hcons,
    Nat.isDigit_of_mem_toDigits (by decide) (by decide) (hcons ▸ List.mem_cons_self)⟩

theorem integer?_whole {negative : Bool} {n : Nat} (hsize : n < Word.unsignedLimit) :
    (NumberParts.mk negative (Nat.toDigits 10 n) none none).integer? =
      if !negative then some (n : Int)
      else if n = 0 || Word.signedLimit < n then none
      else some (-(n : Int)) := by
  have habsorb : absorb 0 (Nat.toDigits 10 n) = (n, []) := by
    rw [absorb_eq] <;> rw [Nat.ofDigitChars_ten_toDigits]
    exact hsize
  simp only [NumberParts.integer?, habsorb]

/-- Digits behind a sign or without one are read as a number up to their end. -/
theorem numberAt_digits {negative : Bool} {n : Nat} {value : Value}
    (hvalue : (NumberParts.mk negative (Nat.toDigits 10 n) none none).value? = some value)
    {rest : List Char} (hrest : EndsNumber rest) (place : Place) :
    numberAt place ((if negative then ['-'] else []) ++ (Nat.toDigits 10 n ++ rest)) =
      .ok (value, ((if negative then ['-'] else []) ++ Nat.toDigits 10 n).length) := by
  have hhead : (((if negative then ['-'] else []) ++
      (Nat.toDigits 10 n ++ rest)).head? = some '-') = (negative = true) := by
    cases negative with
    | true => simp
    | false =>
      obtain ⟨first, others, hcons, hdigit⟩ := exists_toDigits_eq n
      have hminus : first ≠ '-' := by
        rintro rfl
        exact absurd hdigit (by decide)
      rw [hcons]
      simp [hminus]
  have hdrop : ((if negative then ['-'] else []) ++ (Nat.toDigits 10 n ++ rest)).drop
      (if negative then 1 else 0) = Nat.toDigits 10 n ++ rest := by
    cases negative <;> rfl
  have hbehind : ((if negative then ['-'] else []) ++ (Nat.toDigits 10 n ++ rest)).drop
      ((if negative then 1 else 0) + (Nat.toDigits 10 n).length) = rest := by
    rw [← List.drop_drop, hdrop, List.drop_left]
  unfold numberAt
  simp only [hhead, hdrop, wholeAt_toDigits n hrest, hbehind, decimalsAt_of_ends hrest,
    exponentAt_of_ends hrest, bind, Except.bind, pure, Except.pure, Option.map_none,
    Option.getD_none, Nat.add_zero]
  cases negative <;> simp [hvalue, Nat.add_comm]

/-- What starts with a sign or a digit is read as a number. -/
theorem tokenAt_number {c : Char} (hc : c = '-' ∨ c.isDigit = true) {rest : List Char}
    {place : Place} {value : Value} {length : Nat}
    (hnumber : numberAt place (c :: rest) = .ok (value, length)) :
    tokenAt place (c :: rest) = (.scalar value, length) := by
  unfold tokenAt
  split
  case h_11 =>
    next head tail hcons =>
      obtain ⟨rfl, rfl⟩ := List.cons.inj hcons
      rw [if_pos (by simpa using hc), hnumber]
  case h_12 => next hnil => exact absurd hnil (by simp)
  all_goals
    next hcons =>
      obtain rfl := (List.cons.inj hcons).1
      exact absurd hc (by decide)

theorem toList_toString_ofNat (n : Nat) :
    (toString (Int.ofNat n)).toList = Nat.toDigits 10 n := Nat.toList_repr

theorem toList_toString_negSucc (n : Nat) :
    (toString (Int.negSucc n)).toList = '-' :: Nat.toDigits 10 (n + 1) := by
  change ("-" ++ Nat.repr (n + 1)).toList = _
  rw [String.toList_append, Nat.toList_repr]
  rfl

/-- An integer starts with a sign or a digit. -/
theorem exists_toString_eq (n : Int) :
    ∃ c rest, (toString n).toList = c :: rest ∧ (c = '-' ∨ c.isDigit = true) := by
  cases n with
  | ofNat n =>
    obtain ⟨c, rest, hcons, hdigit⟩ := exists_toDigits_eq n
    exact ⟨c, rest, (toList_toString_ofNat n).trans hcons, .inr hdigit⟩
  | negSucc n => exact ⟨'-', _, toList_toString_negSucc n, .inl rfl⟩

/-- An integer that is written is read as a number. -/
theorem numberAt_int {n : Int} (hn : IsWord n) {rest : List Char} (hrest : EndsNumber rest)
    (place : Place) :
    numberAt place ((toString n).toList ++ rest) =
      .ok (.int n, (toString n).toList.length) := by
  obtain ⟨hlower, hupper⟩ := hn
  cases n with
  | ofNat n =>
    have hsize : n < Word.unsignedLimit := Int.ofNat_lt.mp hupper
    have hvalue : (NumberParts.mk false (Nat.toDigits 10 n) none none).value? =
        some (.int (Int.ofNat n)) := by
      rw [NumberParts.value?, integer?_whole hsize]
      rfl
    rw [toList_toString_ofNat]
    exact numberAt_digits hvalue hrest place
  | negSucc n =>
    rw [Int.negSucc_eq] at hlower
    have hpos : 0 < Word.signedLimit := by decide
    have hsize : n + 1 < Word.unsignedLimit := by
      rw [Word.unsignedLimit_eq]
      omega
    have hvalue : (NumberParts.mk true (Nat.toDigits 10 (n + 1)) none none).value? =
        some (.int (Int.negSucc n)) := by
      have hmagnitude : ¬Word.signedLimit < n + 1 := by omega
      rw [NumberParts.value?, integer?_whole hsize]
      simp [hmagnitude, Int.negSucc_eq]
    rw [toList_toString_negSucc]
    exact numberAt_digits hvalue hrest place

/-- The token of an integer that is written. -/
theorem tokenAt_int {n : Int} (hn : IsWord n) {rest : List Char} (hrest : EndsNumber rest)
    (place : Place) :
    tokenAt place ((toString n).toList ++ rest) =
      (.scalar (.int n), (toString n).toList.length) := by
  have hnumber := numberAt_int hn hrest place
  obtain ⟨c, others, hcons, hc⟩ := exists_toString_eq n
  rw [hcons] at hnumber ⊢
  exact tokenAt_number hc hnumber

end Stencil.Json
