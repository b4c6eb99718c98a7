import Mathlib.Data.Bool.AllAny
import Mathlib.Data.List.TakeWhile
import Stencil.Function.Formatting

/-!
# Reading a directive

A directive without a precision is a percent sign, marks, a width and a verb (`directiveText`). The
width is given by digits or by an argument (`Width`). The zeros that digits start with are marks,
and what is left of them is the same number, so a width means what its digits say in either reading
(`Width.getD_settled`). A format of one directive for one argument writes what the verb makes of the
argument, padded to the width (`fill_directiveText`).
-/

set_option autoImplicit false
set_option relaxedAutoImplicit false

namespace Stencil.Formatting

/-! ### Widths -/

/-- How a width is given: by digits, of which there may be none, or by an argument. -/
inductive Width
  | digits (text : List Char)
  | star (count : Int)

namespace Width

/-- What stands for a width in a directive. -/
def text : Width → List Char
  | digits text => text
  | star _ => ['*']

/-- The arguments that a width takes. -/
def arguments : Width → List Value
  | digits _ => []
  | star count => [.int count]

/-- The number of characters that a width asks for. -/
def value : Width → Nat
  | digits text => Nat.ofDigitChars 10 text 0
  | star count => count.natAbs

/-- That a width is one, and within the limit. -/
def IsGiven : Width → Prop
  | digits text => (∀ c ∈ text, c.isDigit = true) ∧ Nat.ofDigitChars 10 text 0 ≤ countLimit
  | star count => count.natAbs ≤ countLimit

/-- Whether a width puts the padding on the right, as a negative one does. -/
def toLeft : Width → Bool
  | digits _ => false
  | star count => count < 0

/-- The zeros at the head of a width, which are read as marks. -/
def zeros : Width → List Char
  | digits text => text.takeWhile (· = '0')
  | star _ => []

/-- How a width is read, behind its zeros. -/
def count : Width → Count
  | digits text => .digits (boundedValue (text.dropWhile (· = '0')))
  | star _ => .star

/-- What a width settles. -/
def settled : Width → Option Nat
  | digits text => boundedValue (text.dropWhile (· = '0'))
  | star count => some count.natAbs

end Width

/-! ### Directives -/

/-- A format of one directive. -/
def directiveText (marks : List Char) (width : Width) (verb : Char) : String :=
  String.ofList ('%' :: (marks ++ (width.text ++ [verb])))

/-- The layout that marks and a width settle. -/
def layoutOf (marks : List Char) (width : Width) : Layout where
  flags :=
    { Flags.ofMarks (marks ++ width.zeros) with
      minus := (Flags.ofMarks (marks ++ width.zeros)).minus || width.toLeft }
  width := width.settled
  precision := none

/-- That a character is none that a width or a precision may start with, nor a mark. -/
def IsVerb (c : Char) : Prop :=
  isFlag c = false ∧ c.isDigit = false ∧ c ≠ '*' ∧ c ≠ '.' ∧ c ≠ '%'

instance (c : Char) : Decidable (IsVerb c) := inferInstanceAs (Decidable (_ ∧ _))

section Reading

variable {marks : List Char} {width : Width} {verb : Char} {digits : List Char}

/-- Where all characters of one text have a property and the one behind them has not, the text is
what a reader of such characters takes. -/
theorem span_append {p : Char → Bool} {body rest : List Char} (hbody : ∀ c ∈ body, p c = true)
    (hrest : ∀ c ∈ rest.head?, p c = false) :
    (body ++ rest).takeWhile p = body ∧ (body ++ rest).dropWhile p = rest := by
  rw [List.takeWhile_append_of_pos hbody, List.dropWhile_append_of_pos hbody]
  cases rest with
  | nil => simp
  | cons c rest => simp [hrest c rfl]

/-- A digit that is a mark is zero. -/
theorem eq_zero_of_isFlag {c : Char} (hdigit : c.isDigit = true) (hflag : isFlag c = true) :
    c = '0' := by
  have hmarks : ∀ mark ∈ ['-', '+', '0', ' ', '#'], mark.isDigit = true → mark = '0' :=
    List.all_iff_forall_prop.mp (by decide)
  exact hmarks c (List.contains_iff_mem.mp hflag) hdigit

/-- The value of digits is that of those behind their zeros. -/
theorem ofDigitChars_dropWhile (digits : List Char) :
    Nat.ofDigitChars 10 (digits.dropWhile (· = '0')) 0 = Nat.ofDigitChars 10 digits 0 := by
  induction digits with
  | nil => rfl
  | cons c rest ih =>
    by_cases hzero : c = '0'
    · subst hzero
      simpa [Nat.ofDigitChars_cons] using ih
    · simp [hzero]

/-- The value of digits that is within the limit is read. -/
theorem getD_boundedValue (hlimit : Nat.ofDigitChars 10 digits 0 ≤ countLimit) :
    (boundedValue digits).getD 0 = Nat.ofDigitChars 10 digits 0 := by
  unfold boundedValue
  cases digits with
  | nil => rfl
  | cons c rest => simp [Option.filter, hlimit]

/-- A width settles the number that it stands for. -/
theorem Width.getD_settled (hwidth : width.IsGiven) : width.settled.getD 0 = width.value := by
  cases width with
  | star count => rfl
  | digits text =>
    have hlimit : Nat.ofDigitChars 10 (text.dropWhile (· = '0')) 0 ≤ countLimit := by
      rw [ofDigitChars_dropWhile]
      exact hwidth.2
    rw [settled, getD_boundedValue hlimit, ofDigitChars_dropWhile, value]

/-- Behind its zeros a width starts with no mark, and neither does the verb. -/
theorem Width.split_zeros (hwidth : width.IsGiven) (hverb : IsVerb verb) :
    ∃ rest, width.text ++ [verb] = width.zeros ++ rest ∧
      (∀ c ∈ width.zeros, isFlag c = true) ∧ (∀ c ∈ rest.head?, isFlag c = false) ∧
      readCount rest = (width.count, [verb]) := by
  obtain ⟨hflag, hdigit, hstar, -, -⟩ := hverb
  cases width with
  | star count => exact ⟨['*', verb], rfl, nofun, by simp [isFlag], rfl⟩
  | digits text =>
    obtain ⟨hdigits, -⟩ := hwidth
    obtain ⟨more, hmore⟩ : ∃ more, more = text.dropWhile (· = '0') := ⟨_, rfl⟩
    have hmoreDigits : ∀ c ∈ more, c.isDigit = true := fun c hc ↦
      hdigits c ((List.dropWhile_sublist _).subset (hmore ▸ hc))
    refine ⟨more ++ [verb], ?_, ?_, ?_, ?_⟩
    · rw [← List.append_assoc, hmore, Width.zeros, List.takeWhile_append_dropWhile, Width.text]
    · intro c hc
      have hzero := (List.mem_takeWhile_imp (show c ∈ text.takeWhile (· = '0') from hc))
      rw [of_decide_eq_true hzero]
      rfl
    · intro c hc
      cases hhead : more with
      | nil =>
        rw [hhead] at hc
        cases hc
        exact hflag
      | cons next rest =>
        rw [hhead] at hc
        obtain rfl : next = c := Option.some.inj hc
        have hnext : next.isDigit = true := hmoreDigits next (hhead ▸ List.mem_cons_self)
        have hne : ¬ next = '0' := by
          have hfirst := List.head?_dropWhile_not (fun c ↦ decide (c = '0')) text
          rw [← hmore, hhead] at hfirst
          simpa using hfirst
        exact Bool.eq_false_iff.mpr fun hmark ↦ hne (eq_zero_of_isFlag hnext hmark)
    · obtain ⟨htake, hdrop⟩ := @span_append _ _ [verb] hmoreDigits (by simpa using hdigit)
      unfold readCount
      split
      next rest hstars =>
        -- A star is no digit, so it would have to be the verb.
        cases hhead : more with
        | nil =>
          rw [hhead] at hstars
          exact absurd (List.cons.inj hstars).1 hstar
        | cons next others =>
          rw [hhead] at hstars
          have hnext := hmoreDigits next (hhead ▸ List.mem_cons_self)
          rw [(List.cons.inj hstars).1] at hnext
          cases hnext
      next => rw [htake, hdrop, Width.count, hmore]

/-- Marks, a width and a verb are read as they are. -/
theorem readDirective_eq (hmarks : ∀ c ∈ marks, isFlag c = true) (hwidth : width.IsGiven)
    (hverb : IsVerb verb) :
    readDirective (marks ++ (width.text ++ [verb])) =
      (⟨Flags.ofMarks (marks ++ width.zeros), width.count, .absent, some verb⟩, []) := by
  obtain ⟨rest, hsplit, hzeros, hhead, hcount⟩ := width.split_zeros hwidth hverb
  have hflags : ∀ c ∈ marks ++ width.zeros, isFlag c = true :=
    List.forall_mem_append.mpr ⟨hmarks, hzeros⟩
  obtain ⟨htake, hdrop⟩ := span_append hflags hhead
  rw [List.append_assoc, ← hsplit] at htake hdrop
  have hprecision : readPrecision [verb] = (.absent, [verb]) := by
    unfold readPrecision
    split
    next hpoint => exact absurd (List.cons.inj hpoint).1 hverb.2.2.2.1
    next => rfl
  simp [readDirective, htake, hdrop, hcount, hprecision]

/-- A directive takes its width from the arguments if it has to, and leaves the others. -/
theorem settleWidth_eq (hwidth : width.IsGiven) (arguments : List Value) :
    settleWidth ⟨Flags.ofMarks (marks ++ width.zeros), width.count, .absent, some verb⟩
        (width.arguments ++ arguments) =
      ((layoutOf marks width).flags, width.settled, [], arguments) := by
  cases width with
  | digits text => simp [settleWidth, Width.count, Width.arguments, Width.settled, layoutOf,
      Width.toLeft]
  | star count =>
    have hcount : count.natAbs ≤ 1000000 := hwidth
    have hsigned : (Value.int count).signed? = some count := by
      have hlimit : (Number.Word.signedLimit : Int) = 9223372036854775808 := rfl
      rw [Value.signed?, if_pos (by omega)]
    have hstar : starCount (.int count :: arguments) = (some count, arguments) := by
      simp [starCount, hsigned, Option.filter, countLimit, hcount]
    simp [settleWidth, Width.count, Width.arguments, hstar, Width.settled, layoutOf, Width.toLeft]

/-- A format of one directive writes an argument that its verb applies to, padded to its width. -/
theorem fill_directiveText (hmarks : ∀ c ∈ marks, isFlag c = true) (hwidth : width.IsGiven)
    (hverb : IsVerb verb) {argument : Value} {body : List Char}
    (hbody : formatArgument verb (layoutOf marks width) argument = some body) :
    fill (directiveText marks width verb) (width.arguments ++ [argument]) =
      String.ofList (pad (layoutOf marks width) (isNumeric verb argument) body) := by
  have happlied : applyVerb (some verb) (layoutOf marks width) [argument] =
      (pad (layoutOf marks width) (isNumeric verb argument) body, []) := by
    unfold applyVerb
    split
    next hnone => cases hnone
    next hpercent => exact absurd (Option.some.inj hpercent) hverb.2.2.2.2
    next hsome =>
      cases hsome
      simp only [hbody]
  have hdirective : Directive.apply
      ⟨Flags.ofMarks (marks ++ width.zeros), width.count, .absent, some verb⟩
      (width.arguments ++ [argument]) =
      (pad (layoutOf marks width) (isNumeric verb argument) body, []) := by
    simp only [Directive.apply, settleWidth_eq hwidth, settlePrecision, List.nil_append]
    rw [show (⟨(layoutOf marks width).flags, width.settled, none⟩ : Layout) = layoutOf marks width
      from rfl, happlied]
  have hfrom : formatFrom ('%' :: (marks ++ (width.text ++ [verb])))
      (width.arguments ++ [argument]) =
      (pad (layoutOf marks width) (isNumeric verb argument) body, []) := by
    rw [formatFrom, if_pos rfl, readDirective_eq hmarks hwidth hverb]
    simp only [hdirective]
    rw [formatFrom, List.append_nil]
  rw [fill, directiveText, String.toList_ofList, hfrom]
  simp [extraReport]

end Reading

end Stencil.Formatting
