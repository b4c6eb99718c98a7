import Mathlib.Tactic.Linarith
import Stencil.Function.Builtin
import Stencil.Proofs.Comparison.Nearest
import Stencil.Proofs.Comparison.Texts

/-!
# What comparisons decide

An integer that a word holds and a finite floating-point number have an exact value
(`Value.AmountsTo`). All comparisons of two of them answer by one order (`AnsweredBy`), and this is
the order of the values, but for one case: an integer of more than fifty-three bits and a
floating-point number next to it, to which it would be rounded, are taken for the same
(`Confuses`).

Texts are compared as their bytes, null equals only null, and equality does not depend on the order
of its operands.
-/

set_option autoImplicit false
set_option relaxedAutoImplicit false

namespace Stencil

open Number

/-! ### Values of numbers -/

/-- That a value is a number, with its exact value: an integer that a signed or an unsigned word
holds, or a finite floating-point number. -/
inductive Value.AmountsTo : Value → ℚ → Prop
  | int {n : Int} (hword : Word.isSigned n ∨ Word.isUnsigned n) : AmountsTo (.int n) n
  | float {x : Binary64} (hfinite : x.isFinite) : AmountsTo (.float x) x.toRat

/-- What has an exact value is a number. -/
theorem Value.AmountsTo.isNumber {value : Value} {q : ℚ} (hvalue : value.AmountsTo q) :
    value.isNumber := by
  cases hvalue <;> rfl

/-- That an integer is rounded to a floating-point number from which it differs. -/
def RoundsOff (n : Int) (x : Binary64) : Prop :=
  x.toRat = (Binary64.ofInt n).toRat ∧ x.toRat ≠ n

/-- That of two values one is an integer that is rounded to the other, from which it differs. -/
def Confuses : Value → Value → Prop
  | .int n, .float x | .float x, .int n => RoundsOff n x
  | _, _ => False

/-- Confused values differ. -/
theorem Confuses.ne {a b : Value} {q r : ℚ} (hconfuses : Confuses a b) (ha : a.AmountsTo q)
    (hb : b.AmountsTo r) : q ≠ r := by
  cases ha with
  | int =>
    cases hb with
    | int => exact hconfuses.elim
    | float => exact hconfuses.2.symm
  | float =>
    cases hb with
    | int => exact hconfuses.2
    | float => exact hconfuses.elim

/-- The integer next to the power of two above the significands is rounded to this power. -/
theorem roundsOff_next : RoundsOff 9007199254740993 ⟨0x4340000000000000⟩ := by
  have hpower : (⟨0x4340000000000000⟩ : Binary64) = Binary64.ofInt 9007199254740992 := by
    decide +kernel
  have hround : Binary64.ofInt 9007199254740993 = ⟨0x4340000000000000⟩ := by decide +kernel
  refine ⟨by rw [hround], ?_⟩
  rw [hpower, Binary64.toRat_ofInt (by decide), Ne, Int.cast_inj]
  decide

/-- A word holds no integer of a greater magnitude. -/
theorem natAbs_le_of_word {n : Int} (hword : Word.isSigned n ∨ Word.isUnsigned n) :
    n.natAbs ≤ Word.unsignedLimit := by
  rw [Word.isSigned, Word.isUnsigned, Bool.and_eq_true, Bool.and_eq_true, decide_eq_true_eq,
    decide_eq_true_eq, decide_eq_true_eq, decide_eq_true_eq] at hword
  have hlimits := Word.unsignedLimit_eq
  omega

/-- The number to which an integer is rounded off is nearest to it among the finite numbers, none of
which has its value. -/
theorem RoundsOff.nearest {n : Int} {x : Binary64} (hrounds : RoundsOff n x)
    (hword : Word.isSigned n ∨ Word.isUnsigned n) :
    2 ^ 53 < n.natAbs ∧
      ∀ y : Binary64, y.isFinite → y.toRat ≠ n ∧ |x.toRat - n| ≤ |y.toRat - n| := by
  obtain ⟨hround, hne⟩ := hrounds
  obtain ⟨-, hnearest⟩ := Binary64.ofInt_nearest (natAbs_le_of_word hword)
  rw [← hround] at hnearest
  refine ⟨?_, fun y hy ↦ ⟨fun hvalue ↦ ?_, hnearest y hy⟩⟩
  · by_contra hsmall
    exact hne (hround.trans (Binary64.toRat_ofInt (not_lt.mp hsmall)))
  · have hzero := hnearest y hy
    rw [hvalue, sub_self, abs_zero, abs_nonpos_iff, sub_eq_zero] at hzero
    exact hne hzero

/-! ### The order of numbers -/

/-- The order of a nearest number and another one is that of what it is nearest to, unless they
are the same. -/
theorem compares_of_nearest {exact rounded other : ℚ} {order : Ordering}
    (hnearest : |rounded - exact| ≤ |other - exact|) (horder : order.Compares rounded other)
    (hequal : order = .eq → other = exact) : order.Compares exact other := by
  cases order with
  | eq => exact (hequal rfl).symm
  | lt =>
    change rounded < other at horder
    change exact < other
    by_contra hle
    rw [abs_of_nonpos (by linarith), abs_of_nonpos (by linarith)] at hnearest
    linarith
  | gt =>
    change other < rounded at horder
    change other < exact
    by_contra hle
    rw [abs_of_nonneg (by linarith), abs_of_nonneg (by linarith)] at hnearest
    linarith

/-- An integer and a finite floating-point number are compared in the order of their values, unless
the one is rounded off to the other, and they are then the same. -/
theorem compare?_ofInt {n : Int} {x : Binary64} (hword : Word.isSigned n ∨ Word.isUnsigned n)
    (hx : x.isFinite) :
    ∃ order : Ordering, (Binary64.ofInt n).compare? x = some order ∧
      (¬ RoundsOff n x → order.Compares (n : ℚ) x.toRat) ∧ (RoundsOff n x → order = .eq) := by
  obtain ⟨hfinite, hnearest⟩ := Binary64.ofInt_nearest (natAbs_le_of_word hword)
  obtain ⟨order, hcompare, horder⟩ := Binary64.compare?_compares hfinite hx
  refine ⟨order, hcompare, fun hexact ↦ ?_, fun hrounds ↦ ?_⟩
  · refine compares_of_nearest (hnearest x hx) horder fun heq ↦ ?_
    by_contra hne
    exact hexact ⟨(horder.eq_eq.mp heq).symm, hne⟩
  · exact horder.eq_eq.mpr hrounds.1.symm

/-- Two floating-point numbers are in the opposite order the other way round. -/
theorem compare?_swap (x y : Binary64) : y.compare? x = (x.compare? y).map Ordering.swap := by
  rw [Binary64.compare?, Binary64.compare?, Bool.or_comm]
  split
  · rfl
  · rw [Option.map_some, ← Std.OrientedOrd.eq_swap]

/-- Two numbers are in the opposite order the other way round. -/
theorem compareNumbers_swap {a b : Value} (ha : a.isNumber) (hb : b.isNumber) :
    b.compareNumbers a = (a.compareNumbers b).map Ordering.swap := by
  match a, b with
  | .int m, .int n => exact congrArg some Std.OrientedOrd.eq_swap
  | .int _, .float _ | .float _, .int _ | .float _, .float _ => exact compare?_swap _ _

/-- Two numbers are compared in the order of their values, unless they are confused, and are then
the same. -/
theorem compareNumbers_spec {a b : Value} {q r : ℚ} (ha : a.AmountsTo q) (hb : b.AmountsTo r) :
    ∃ order, a.compareNumbers b = some order ∧ (¬ Confuses a b → order.Compares q r) ∧
      (Confuses a b → order = .eq) := by
  cases ha with
  | @int m hm =>
    cases hb with
    | @int n hn =>
      refine ⟨compare m n, rfl, fun _ ↦ ?_, False.elim⟩
      exact Int.cast_strictMono.compares.mpr ((compare_iff m n).mp rfl)
    | @float y hy => exact compare?_ofInt hm hy
  | @float x hx =>
    cases hb with
    | @int n hn =>
      obtain ⟨order, hcompare, hexact, hconfused⟩ := compare?_ofInt hn hx
      refine ⟨order.swap, ?_, fun hconfuses ↦ (hexact hconfuses).swap, fun hconfuses ↦ ?_⟩
      · exact (compare?_swap _ _).trans (congrArg (Option.map Ordering.swap) hcompare)
      · rw [hconfused hconfuses, Ordering.swap_eq]
    | @float y hy =>
      obtain ⟨order, hcompare, horder⟩ := Binary64.compare?_compares hx hy
      exact ⟨order, hcompare, fun _ ↦ horder, False.elim⟩

/-! ### Answers -/

/-- That all comparisons of two values answer by one order of them. -/
structure AnsweredBy (a b : Value) (order : Ordering) : Prop where
  compare : a.compare b = .ok order
  equal : a.equal b = .ok (order = .eq)
  eq : Builtin.eq.call [a, b] = .ok (.bool (order = .eq))
  ne : Builtin.ne.call [a, b] = .ok (.bool (order ≠ .eq))
  lt : Builtin.lt.call [a, b] = .ok (.bool (order = .lt))
  le : Builtin.le.call [a, b] = .ok (.bool (order ≠ .gt))
  gt : Builtin.gt.call [a, b] = .ok (.bool (order = .gt))
  ge : Builtin.ge.call [a, b] = .ok (.bool (order ≠ .lt))

/-- Equality of two values is the answer to the call. -/
theorem call_eq (a b : Value) :
    Builtin.eq.call [a, b] = match a.equal b with
      | .ok same => .ok (.bool same)
      | .error fault => .error (.comparison fault) := by
  change (Builtin.equalsSome a [b]).map Value.bool = _
  rw [Builtin.equalsSome]
  cases a.equal b with
  | error fault => rfl
  | ok same => cases same <;> rfl

/-- Two numbers are equal if their order says so. -/
theorem equal_numbers {a b : Value} (ha : a.isNumber) (hb : b.isNumber) :
    a.equal b = .ok (a.compareNumbers b = some .eq) := by
  match a, b with
  | .int _, .int _ | .int _, .float _ | .float _, .int _ | .float _, .float _ => rfl

/-- Whether an order is accepted is the answer of each function that asks for one. -/
theorem ordered_eq {a b : Value} {order : Ordering} (hcompare : a.compare b = .ok order)
    (accept : Ordering → Bool) : Builtin.ordered accept a b = .ok (.bool (accept order)) := by
  rw [Builtin.ordered, hcompare]

/-- The functions answer as the two comparisons of values do. -/
theorem answeredBy_of {a b : Value} {order : Ordering} (hcompare : a.compare b = .ok order)
    (hequal : a.equal b = .ok (order = .eq)) : AnsweredBy a b order where
  compare := hcompare
  equal := hequal
  eq := by rw [call_eq, hequal]
  ne := by
    change (Builtin.equalsSome a [b]).map _ = _
    rw [Builtin.equalsSome, hequal]
    cases order <;> rfl
  lt := (ordered_eq hcompare _).trans (by cases order <;> rfl)
  le := (ordered_eq hcompare _).trans (by cases order <;> rfl)
  gt := (ordered_eq hcompare _).trans (by cases order <;> rfl)
  ge := (ordered_eq hcompare _).trans (by cases order <;> rfl)

/-- All comparisons of two numbers answer by the order of the numbers. -/
theorem answeredBy_numbers {a b : Value} {order : Ordering} (ha : a.isNumber) (hb : b.isNumber)
    (horder : a.compareNumbers b = some order) : AnsweredBy a b order := by
  refine answeredBy_of ?_ ?_
  · match a, b with
    | .int _, .int _ | .int _, .float _ | .float _, .int _ | .float _, .float _ =>
      simp only [Value.compare, horder, ha, hb, Bool.and_self, if_true]
  · rw [equal_numbers ha hb, horder]
    simp only [Option.some.injEq]

/-- All comparisons of two numbers answer by one order, that of their values unless they are
confused, and are then taken for the same. -/
theorem exists_answeredBy {a b : Value} {q r : ℚ} (ha : a.AmountsTo q) (hb : b.AmountsTo r) :
    ∃ order : Ordering, AnsweredBy a b order ∧ (¬ Confuses a b → order.Compares q r) ∧
      (Confuses a b → order = .eq) := by
  obtain ⟨order, horder, hexact, hconfused⟩ := compareNumbers_spec ha hb
  exact ⟨order, answeredBy_numbers ha.isNumber hb.isNumber horder, hexact, hconfused⟩

/-- All comparisons of two texts answer by the order of their bytes. -/
theorem answeredBy_texts (s t : String) :
    ∃ order : Ordering, AnsweredBy (.string s) (.string t) order ∧
      order.Compares (bytesOf s.toList) (bytesOf t.toList) := by
  refine ⟨compare s t, answeredBy_of rfl ?_, compare_compares_bytesOf s t⟩
  rw [Value.equal, Bool.decide_congr (compare_eq_iff_eq).symm]

/-! ### Equality -/

/-- Two numbers that are not confused are equal if they have the same value. -/
theorem equal_iff {a b : Value} {q r : ℚ} (ha : a.AmountsTo q) (hb : b.AmountsTo r)
    (hexact : ¬ Confuses a b) : a.equal b = .ok true ↔ q = r := by
  obtain ⟨order, hanswers, horder, -⟩ := exists_answeredBy ha hb
  rw [hanswers.equal, Except.ok.injEq, decide_eq_true_eq]
  exact (horder hexact).eq_eq

/-- Numbers equal to the same one are equal, unless they are confused with it. -/
theorem equal_trans {a b c : Value} {q r s : ℚ} (ha : a.AmountsTo q) (hb : b.AmountsTo r)
    (hc : c.AmountsTo s) (hab : ¬ Confuses a b) (hbc : ¬ Confuses b c)
    (hfirst : a.equal b = .ok true) (hsecond : b.equal c = .ok true) : a.equal c = .ok true := by
  have hvalues : q = s :=
    ((equal_iff ha hb hab).mp hfirst).trans ((equal_iff hb hc hbc).mp hsecond)
  exact (equal_iff ha hc fun hac ↦ hac.ne ha hc hvalues).mpr hvalues

/-- Null is equal to null alone. -/
theorem call_eq_null {a b : Value} (hnull : a = .null ∨ b = .null) :
    ∃ same, Builtin.eq.call [a, b] = .ok (.bool same) ∧
      (same = true ↔ a = .null ∧ b = .null) := by
  rw [call_eq]
  rcases hnull with rfl | rfl
  · cases b with
    | null => exact ⟨true, rfl, by simp⟩
    | _ => exact ⟨false, rfl, by simp⟩
  · cases a with
    | null => exact ⟨true, rfl, by simp⟩
    | _ => exact ⟨false, rfl, by simp⟩

/-- Two values are equal either way round, or cannot be compared either way round. -/
theorem equal_comm (a b : Value) :
    (∃ same, a.equal b = .ok same ∧ b.equal a = .ok same) ∨
      ∃ fault other, a.equal b = .error fault ∧ b.equal a = .error other := by
  by_cases hnumbers : a.isNumber ∧ b.isNumber
  · obtain ⟨ha, hb⟩ := hnumbers
    refine .inl ⟨_, equal_numbers ha hb, ?_⟩
    rw [equal_numbers hb ha, compareNumbers_swap ha hb]
    cases a.compareNumbers b with
    | none => rfl
    | some order => cases order <;> rfl
  · -- Of other pairs only two truth values or two texts have an equality to turn round.
    cases a <;> cases b <;>
      simp_all [Value.equal, Value.isNumber, Value.isCollection, Bool.decide_congr eq_comm]

/-- The call of equality answers the same either way round, or fails either way round. -/
theorem call_eq_comm (a b : Value) :
    (∃ same, Builtin.eq.call [a, b] = .ok (.bool same) ∧
      Builtin.eq.call [b, a] = .ok (.bool same)) ∨
    ∃ fault other, Builtin.eq.call [a, b] = .error fault ∧
      Builtin.eq.call [b, a] = .error other := by
  rw [call_eq, call_eq]
  rcases equal_comm a b with ⟨same, hab, hba⟩ | ⟨fault, other, hab, hba⟩
  · exact .inl ⟨same, by rw [hab], by rw [hba]⟩
  · exact .inr ⟨.comparison fault, .comparison other, by rw [hab], by rw [hba]⟩

/-! ### Decisions -/

/-- What comparisons decide. All comparisons of two numbers answer by one order. It is the order of
their exact values unless the numbers are confused, and they are then taken for the same; this
happens only between an integer of more than fifty-three bits that no floating-point number is equal
to and one that is nearest to it. Without confusion equality is transitive. Texts are in the order
of their bytes, null equals null alone, and equality answers the same either way round, or fails
either way round. -/
theorem compared_by_value (a b : Value) :
    (∀ q r : ℚ, a.AmountsTo q → b.AmountsTo r →
      ∃ order : Ordering, AnsweredBy a b order ∧ (¬ Confuses a b → order.Compares q r) ∧
        (Confuses a b → order = .eq)) ∧
    (∀ (c : Value) (q r s : ℚ), a.AmountsTo q → b.AmountsTo r → c.AmountsTo s →
      ¬ Confuses a b → ¬ Confuses b c → a.equal b = .ok true → b.equal c = .ok true →
        a.equal c = .ok true) ∧
    (∀ (n : Int) (x : Binary64), Word.isSigned n ∨ Word.isUnsigned n → RoundsOff n x →
      2 ^ 53 < n.natAbs ∧
        ∀ y : Binary64, y.isFinite → y.toRat ≠ n ∧ |x.toRat - n| ≤ |y.toRat - n|) ∧
    (∀ s t : String, a = .string s → b = .string t →
      ∃ order : Ordering, AnsweredBy a b order ∧
        order.Compares (bytesOf s.toList) (bytesOf t.toList)) ∧
    (a = .null ∨ b = .null → ∃ same, Builtin.eq.call [a, b] = .ok (.bool same) ∧
      (same = true ↔ a = .null ∧ b = .null)) ∧
    ((∃ same, Builtin.eq.call [a, b] = .ok (.bool same) ∧
        Builtin.eq.call [b, a] = .ok (.bool same)) ∨
      ∃ fault other, Builtin.eq.call [a, b] = .error fault ∧
        Builtin.eq.call [b, a] = .error other) := by
  refine ⟨fun q r ha hb ↦ exists_answeredBy ha hb,
    fun c q r s ha hb hc hab hbc ↦ equal_trans ha hb hc hab hbc,
    fun n x hword hrounds ↦ hrounds.nearest hword, ?_, call_eq_null, call_eq_comm a b⟩
  rintro s t rfl rfl
  exact answeredBy_texts s t

/-- Three is compared with two and a half by value, and the integer next to the power of two above
the significands is confused with this power. -/
theorem compared_by_value_three :
    (∃ order : Ordering, AnsweredBy (.int 3) (.float ⟨0x4004000000000000⟩) order ∧
      order.Compares ((3 : Int) : ℚ) (Binary64.toRat ⟨0x4004000000000000⟩)) ∧
    AnsweredBy (.int 9007199254740993) (.float ⟨0x4340000000000000⟩) .eq := by
  constructor
  · obtain ⟨hnumbers, -, hnearest, -⟩ :=
      compared_by_value (.int 3) (.float ⟨0x4004000000000000⟩)
    have hword : Word.isSigned 3 ∨ Word.isUnsigned 3 := .inl (by decide)
    obtain ⟨order, hanswers, hexact, -⟩ := hnumbers _ _ (.int hword) (.float (by decide +kernel))
    refine ⟨order, hanswers, hexact fun hconfuses ↦ ?_⟩
    exact absurd (hnearest _ _ hword hconfuses).1 (by decide)
  · obtain ⟨hnumbers, -⟩ :=
      compared_by_value (.int 9007199254740993) (.float ⟨0x4340000000000000⟩)
    obtain ⟨order, hanswers, -, hconfused⟩ :=
      hnumbers _ _ (.int (.inl (by decide))) (.float (by decide +kernel))
    obtain rfl := hconfused roundsOff_next
    exact hanswers

/-- Equality is neither that of the values nor transitive: the power of two above the significands,
as a floating-point number, is equal to itself and to the next integer. -/
theorem equal_next :
    Builtin.eq.call [.int 9007199254740993, .float ⟨0x4340000000000000⟩] = .ok (.bool true) ∧
      Binary64.toRat ⟨0x4340000000000000⟩ ≠ (9007199254740993 : Int) ∧
      Builtin.eq.call [.float ⟨0x4340000000000000⟩, .int 9007199254740992] = .ok (.bool true) ∧
      Builtin.eq.call [.int 9007199254740993, .int 9007199254740992] = .ok (.bool false) :=
  ⟨(answeredBy_numbers rfl rfl (by decide +kernel : _ = some .eq)).eq, roundsOff_next.2,
    (answeredBy_numbers rfl rfl (by decide +kernel : _ = some .eq)).eq,
    (answeredBy_numbers rfl rfl (by decide +kernel : _ = some .gt)).eq⟩

end Stencil
