import Mathlib.Data.List.DropRight
import Stencil.Function.Builtin
import Stencil.Proofs.Formatting.Directives
import Stencil.Proofs.Literals.Numerals

/-!
# Formatted integers

The verbs for integers differ in a base, its alphabet and the mark that the sharp flag asks for
(`Style`). What such a verb writes is a sign, the mark and the digits of the number, brought to the
width (`formatInteger_eq`). Blanks stand around that, and zeros behind the sign, so apart from the
blanks the number can be read from it, as long as no zeros stand in front of the mark `0x` or `0X`
(`printf_integer`). They do there if the flags for zeros and for the mark meet and the number is
shorter than the width: padding looks for a sign, but not for a mark.
-/

set_option autoImplicit false
set_option relaxedAutoImplicit false

namespace Stencil.Formatting

/-! ### Numerals -/

/-- How a verb writes integers. -/
structure Style where
  base : Nat
  /-- The digits, in the order of their values. -/
  alphabet : List Char
  /-- What the sharp flag puts in front of the digits. -/
  mark : List Char

/-- How a verb writes integers, if it is one that does. -/
def Style.ofVerb? : Char → Option Style
  | 'd' => some ⟨10, lowerDigits, []⟩
  | 'x' => some ⟨16, lowerDigits, ['0', 'x']⟩
  | 'X' => some ⟨16, upperDigits, ['0', 'X']⟩
  | 'o' => some ⟨8, lowerDigits, ['0']⟩
  | 'b' => some ⟨2, lowerDigits, []⟩
  | _ => none

/-- That a text is the sign of a number: a minus exactly if it is negative. -/
def IsSign (n : Int) (sign : List Char) : Prop :=
  (sign = [] ∨ sign = ['+'] ∨ sign = ['-']) ∧ (sign = ['-'] ↔ n < 0)

namespace Style

/-- The mark, if it is asked for. -/
def markIf (style : Style) (sharp : Bool) : List Char := if sharp then style.mark else []

/-- That characters of the alphabet are the digits of a magnitude. -/
def Writes (style : Style) (digits : List Char) (magnitude : Nat) : Prop :=
  digits ≠ [] ∧ (∀ c ∈ digits, c ∈ style.alphabet) ∧ Numeral style.base digits magnitude

/-- That a text is a sign, the mark if it is asked for, and the digits of a number. -/
def Spells (style : Style) (sharp : Bool) (n : Int) (text : List Char) : Prop :=
  ∃ sign digits, text = sign ++ style.markIf sharp ++ digits ∧ IsSign n sign ∧
    style.Writes digits n.natAbs

end Style

/-- A text without the blanks around it. -/
def trimBlanks (text : List Char) : List Char := (text.dropWhile (· = ' ')).rdropWhile (· = ' ')

section Numerals

variable {style : Style} {verb : Char} {digits : List Char} {magnitude : Nat}

/-- The digits that a number is written with are those of the alphabet. -/
theorem mem_lowerDigits_of_mem_toDigits {base : Nat} (hbase : 1 < base) (hle : base ≤ 16)
    (value : Nat) : ∀ c ∈ Nat.toDigits base value, c ∈ lowerDigits := by
  have hlower : ∀ digit < 16, digit.digitChar ∈ lowerDigits := by decide
  induction value using Nat.strongRecOn with
  | ind value ih =>
    rw [Nat.toDigits_eq_if hbase]
    split
    next hlt => simpa using hlower value (hlt.trans_le hle)
    next hge =>
      have hsmaller : value / base < value := Nat.div_lt_self (by omega) hbase
      have hlast : value % base < 16 := (Nat.mod_lt value (by omega)).trans_le hle
      exact List.forall_mem_append.mpr ⟨ih _ hsmaller, by simpa using hlower _ hlast⟩

/-- A digit in upper case is one of the same value. -/
theorem upperDigits_of_isDigit {c : Char} {value : Nat} (hdigit : IsDigit 16 c value) :
    upperDigits[value]? = some c.toUpper := by
  have hlower : ∀ digit < 16, lowerDigits[digit]?.map Char.toUpper = upperDigits[digit]? := by
    decide
  have hupper : ∀ digit < 16, upperDigits[digit]?.map Char.toUpper = upperDigits[digit]? := by
    decide
  obtain ⟨hlt, hc | hc⟩ := hdigit
  · rw [← hlower value hlt, hc, Option.map_some]
  · rw [← hupper value hlt, hc, Option.map_some]

/-- Hexadecimal digits in upper case are a numeral of the same value, from the alphabet. -/
theorem writes_map_toUpper (hdigits : Numeral 16 digits magnitude) :
    (∀ c ∈ digits.map Char.toUpper, c ∈ upperDigits) ∧
      Numeral 16 (digits.map Char.toUpper) magnitude := by
  obtain ⟨values, hvalues, rfl⟩ := hdigits
  constructor
  · intro c hc
    obtain ⟨original, horiginal, rfl⟩ := List.mem_map.mp hc
    obtain ⟨value, hvalue⟩ : ∃ value, IsDigit 16 original value := by
      obtain ⟨i, hi, rfl⟩ := List.getElem_of_mem horiginal
      have hi' : i < values.length := hvalues.length_eq ▸ hi
      exact ⟨values[i], hvalues.get hi hi'⟩
    exact List.mem_of_getElem? (upperDigits_of_isDigit hvalue)
  · refine ⟨values, List.forall₂_map_left_iff.mpr (hvalues.imp fun c value hdigit ↦ ?_), rfl⟩
    exact ⟨hdigit.1, .inr (upperDigits_of_isDigit hdigit)⟩

/-- A verb for integers writes the digits of its style. -/
theorem exists_integerDigits (hstyle : Style.ofVerb? verb = some style) (magnitude : Nat) :
    ∃ digits, integerDigits verb magnitude = some digits ∧ style.Writes digits magnitude := by
  have hwrites {base : Nat} (hbase : 1 < base) (hle : base ≤ 16) (mark : List Char) :
      (⟨base, lowerDigits, mark⟩ : Style).Writes (Nat.toDigits base magnitude) magnitude :=
    ⟨Nat.toDigits_ne_nil, mem_lowerDigits_of_mem_toDigits hbase hle magnitude,
      Numeral.toDigits hbase hle magnitude⟩
  unfold Style.ofVerb? at hstyle
  split at hstyle <;> cases hstyle
  · exact ⟨_, rfl, hwrites (by decide) (by decide) []⟩
  · exact ⟨_, rfl, hwrites (by decide) (by decide) ['0', 'x']⟩
  · obtain ⟨hletters, hvalue⟩ :=
      writes_map_toUpper (Numeral.toDigits (by decide) (by decide) magnitude)
    exact ⟨_, rfl, by simp [Nat.toDigits_ne_nil], hletters, hvalue⟩
  · exact ⟨_, rfl, hwrites (by decide) (by decide) ['0']⟩
  · exact ⟨_, rfl, hwrites (by decide) (by decide) []⟩

/-- The sharp flag puts the mark of its style in front of the digits. -/
theorem integerPrefix_eq (hstyle : Style.ofVerb? verb = some style) (flags : Flags) :
    integerPrefix flags verb = style.markIf flags.sharp := by
  unfold Style.ofVerb? at hstyle
  unfold integerPrefix Style.markIf
  split at hstyle <;> cases hstyle <;> rfl

/-- A verb for integers starts no width, and is no mark. -/
theorem isVerb_of_style (hstyle : Style.ofVerb? verb = some style) : IsVerb verb := by
  unfold Style.ofVerb? at hstyle
  split at hstyle <;> cases hstyle <;> decide

/-- Zeros may pad an integer under a verb for integers. -/
theorem isNumeric_of_style (hstyle : Style.ofVerb? verb = some style) (n : Int) :
    isNumeric verb (.int n) = true := by
  unfold Style.ofVerb? at hstyle
  split at hstyle <;> cases hstyle <;> rfl

/-- Neither the digits of a style nor its mark have a sign or a blank among them. -/
theorem ne_of_mem_style (hstyle : Style.ofVerb? verb = some style) :
    ∀ c ∈ style.alphabet ++ style.mark, c ∉ ['-', '+', ' '] := by
  unfold Style.ofVerb? at hstyle
  split at hstyle <;> cases hstyle <;> exact List.all_iff_forall_prop.mp (by decide)

end Numerals

/-! ### Padding -/

/-- What the flags put in front of a magnitude: its sign, or a blank where a plus might be. -/
def lead (flags : Flags) (n : Int) : List Char :=
  if n < 0 then ['-'] else if flags.plus then ['+'] else if flags.space then [' '] else []

/-- The zeros that pad a body of some length. -/
def zeroCount (layout : Layout) (length : Nat) : Nat :=
  if !layout.flags.minus && layout.flags.zero then layout.width.getD 0 - length else 0

section Padding

variable {layout : Layout} {core : List Char}

/-- A magnitude stands behind its lead. -/
theorem signed_eq (flags : Flags) (n : Int) (magnitude : List Char) :
    signed flags (n < 0) magnitude = lead flags n ++ magnitude := by
  simp only [signed, lead, decide_eq_true_eq]
  split_ifs <;> rfl

/-- A lead is a sign, or a blank without one. -/
theorem exists_sign (flags : Flags) (n : Int) :
    ∃ blanks sign, lead flags n = List.replicate blanks ' ' ++ sign ∧ IsSign n sign := by
  unfold lead
  split_ifs with hnegative hplus hspace
  · exact ⟨0, ['-'], rfl, .inr (.inr rfl), by simp [hnegative]⟩
  · exact ⟨0, ['+'], rfl, .inr (.inl rfl), by simp [hnegative]⟩
  · exact ⟨1, [], rfl, .inl rfl, by simp [hnegative]⟩
  · exact ⟨0, [], rfl, .inl rfl, by simp [hnegative]⟩

/-- A body is brought to the width, and not cut. -/
theorem length_pad (layout : Layout) (numeric : Bool) (body : List Char) :
    (pad layout numeric body).length = max (layout.width.getD 0) body.length := by
  unfold pad
  split_ifs
  · simp only [List.length_append, List.length_replicate]
    omega
  · split
    · split_ifs
      · simp only [List.length_cons, List.length_append, List.length_replicate]
        omega
      · simp only [List.length_append, List.length_replicate, List.length_cons]
        omega
    · simp
  · simp only [List.length_append, List.length_replicate]
    omega

/-- Zeros pad a number behind its lead. -/
theorem pad_zeros (hminus : layout.flags.minus = false) (hzero : layout.flags.zero = true)
    (n : Int) (hcore : ∀ c ∈ core.head?, c ∉ ['-', '+', ' ']) :
    pad layout true (lead layout.flags n ++ core) =
      lead layout.flags n ++
        (List.replicate (layout.width.getD 0 - (lead layout.flags n ++ core).length) '0' ++
          core) := by
  have hstep (first : Char) (hfirst : first ∈ ['-', '+', ' ']) :
      pad layout true (first :: core) =
        first :: (List.replicate (layout.width.getD 0 - (first :: core).length) '0' ++ core) := by
    have hsign : (decide (first = '-') || decide (first = '+') || decide (first = ' ')) = true := by
      simpa [or_assoc] using hfirst
    rw [pad, if_neg (by simp [hminus]), if_pos (by simp [hzero])]
    exact if_pos hsign
  have hbare : pad layout true core =
      List.replicate (layout.width.getD 0 - core.length) '0' ++ core := by
    unfold pad
    rw [if_neg (by simp [hminus]), if_pos (by simp [hzero])]
    cases core with
    | nil => simp
    | cons first rest =>
      have hother := hcore first rfl
      simp only [List.mem_cons, List.not_mem_nil, or_false, not_or] at hother
      exact if_neg (by simp [hother])
  unfold lead
  split_ifs
  · exact hstep '-' (by decide)
  · exact hstep '+' (by decide)
  · exact hstep ' ' (by decide)
  · exact hbare

/-- A number is padded by blanks around it and by zeros behind its lead. -/
theorem exists_pad_eq (layout : Layout) (n : Int) (hcore : ∀ c ∈ core.head?, c ∉ ['-', '+', ' ']) :
    ∃ left right, pad layout true (lead layout.flags n ++ core) =
      List.replicate left ' ' ++ (lead layout.flags n ++
        (List.replicate (zeroCount layout (lead layout.flags n ++ core).length) '0' ++ core)) ++
          List.replicate right ' ' := by
  by_cases hminus : layout.flags.minus = true
  · refine ⟨0, layout.width.getD 0 - (lead layout.flags n ++ core).length, ?_⟩
    simp [pad, zeroCount, hminus]
  · replace hminus := Bool.eq_false_iff.mpr hminus
    by_cases hzero : layout.flags.zero = true
    · refine ⟨0, 0, ?_⟩
      rw [pad_zeros hminus hzero n hcore]
      simp [zeroCount, hminus, hzero]
    · refine ⟨layout.width.getD 0 - (lead layout.flags n ++ core).length, 0, ?_⟩
      simp [pad, zeroCount, hminus, hzero]

/-- A text without blanks is what is left of it between blanks. -/
theorem trimBlanks_between (left right : Nat) (hcore : ∀ c ∈ core, c ≠ ' ') (hne : core ≠ []) :
    trimBlanks (List.replicate left ' ' ++ core ++ List.replicate right ' ') = core := by
  have hblanks (count : Nat) : ∀ c ∈ List.replicate count ' ', decide (c = ' ') = true := by
    intro c hc
    exact decide_eq_true (List.eq_of_mem_replicate hc)
  obtain ⟨first, rest, hfirst⟩ := List.exists_cons_of_ne_nil hne
  obtain ⟨before, final, hfinal⟩ := (List.eq_nil_or_concat' core).resolve_left hne
  have hstart : ∀ c ∈ (core ++ List.replicate right ' ').head?, decide (c = ' ') = false := by
    intro c hc
    rw [hfirst] at hc
    obtain rfl : first = c := Option.some.inj hc
    exact decide_eq_false (hcore first (hfirst ▸ List.mem_cons_self))
  have hend : ∀ c ∈ core.reverse.head?, decide (c = ' ') = false := by
    intro c hc
    rw [hfinal, List.reverse_concat] at hc
    obtain rfl : final = c := Option.some.inj hc
    exact decide_eq_false (hcore final (by simp [hfinal]))
  rw [trimBlanks, List.append_assoc, (span_append (hblanks left) hstart).2, List.rdropWhile,
    List.reverse_append, List.reverse_replicate, (span_append (hblanks right) hend).2,
    List.reverse_reverse]

end Padding

/-! ### Whole formats -/

section Formats

variable {style : Style} {verb : Char} {marks : List Char} {width : Width}

/-- An integer under a verb for integers is a lead, the mark and the digits of its style. -/
theorem formatInteger_eq (hstyle : Style.ofVerb? verb = some style) (n : Int) :
    ∃ digits, style.Writes digits n.natAbs ∧ ∀ layout, formatArgument verb layout (.int n) =
      some (lead layout.flags n ++ (style.markIf layout.flags.sharp ++ digits)) := by
  obtain ⟨digits, hdigits, hwrites⟩ := exists_integerDigits hstyle n.natAbs
  refine ⟨digits, hwrites, fun layout ↦ ?_⟩
  simp only [formatArgument, formatInteger, hdigits]
  rw [integerPrefix_eq hstyle, signed_eq]

/-- The flags of a directive are its marks. The zeros of its width are marks as well, and a negative
width counts for a minus. -/
theorem layoutOf_flags (marks : List Char) (width : Width) :
    (layoutOf marks width).flags =
      { minus := decide ('-' ∈ marks) || width.toLeft
        plus := decide ('+' ∈ marks)
        zero := decide ('0' ∈ marks ++ width.zeros)
        space := decide (' ' ∈ marks)
        sharp := decide ('#' ∈ marks) } := by
  have hzeros {c : Char} (hc : c ≠ '0') : c ∉ width.zeros := by
    intro hmem
    cases width with
    | digits text =>
      have htake : c ∈ text.takeWhile (· = '0') := hmem
      have hzero := List.mem_takeWhile_imp htake
      exact hc (of_decide_eq_true hzero)
    | star count => cases hmem
  have hcontains (c : Char) (text : List Char) : text.contains c = decide (c ∈ text) := by
    rw [Bool.eq_iff_iff, List.contains_iff_mem, decide_eq_true_eq]
  simp only [layoutOf, Flags.ofMarks, hcontains, List.mem_append]
  simp [hzeros (show '-' ≠ '0' by decide), hzeros (show '+' ≠ '0' by decide),
    hzeros (show ' ' ≠ '0' by decide), hzeros (show '#' ≠ '0' by decide)]

/-- Zeros pad a number if its directive asks for them and for nothing on the right, and the number
is shorter than the width. -/
theorem zeroCount_layoutOf (marks : List Char) (hwidth : width.IsGiven) (length : Nat) :
    zeroCount (layoutOf marks width) length =
      if '0' ∈ marks ++ width.zeros ∧ '-' ∉ marks ∧ width.toLeft = false then width.value - length
      else 0 := by
  have hvalue : (layoutOf marks width).width.getD 0 = width.value := Width.getD_settled hwidth
  rw [zeroCount, hvalue, layoutOf_flags]
  refine if_congr ?_ rfl rfl
  simp only [Bool.and_eq_true, Bool.not_eq_true', Bool.or_eq_false_iff, decide_eq_false_iff_not,
    decide_eq_true_eq]
  exact and_comm

/-- The mark of hexadecimal digits ends with a letter, and any other mark is of zeros, or of none.
-/
theorem mark_of_style (hstyle : Style.ofVerb? verb = some style) :
    (style.base = 16 ∧ ∃ letter, letter ≠ '0' ∧ style.mark = ['0', letter]) ∨
      style.base ≠ 16 ∧ ∃ zeros, style.mark = List.replicate zeros '0' := by
  unfold Style.ofVerb? at hstyle
  split at hstyle <;> cases hstyle
  · exact .inr ⟨by decide, 0, rfl⟩
  · exact .inl ⟨rfl, 'x', by decide, rfl⟩
  · exact .inl ⟨rfl, 'X', by decide, rfl⟩
  · exact .inr ⟨by decide, 1, rfl⟩
  · exact .inr ⟨by decide, 0, rfl⟩

/-- Zero is a digit of every style. -/
theorem zero_mem_of_style (hstyle : Style.ofVerb? verb = some style) :
    '0' ∈ style.alphabet ∧ 0 < style.base := by
  unfold Style.ofVerb? at hstyle
  split at hstyle <;> cases hstyle <;> decide

/-- Zeros in front of a mark of zeros, or of no mark, may as well stand behind it. -/
theorem replicate_append_markIf (hstyle : Style.ofVerb? verb = some style) {sharp : Bool}
    {count : Nat} (hplace : ¬ (sharp = true ∧ style.base = 16 ∧ 0 < count)) (digits : List Char) :
    List.replicate count '0' ++ (style.markIf sharp ++ digits) =
      style.markIf sharp ++ (List.replicate count '0' ++ digits) := by
  by_cases hcount : count = 0
  · simp [hcount]
  by_cases hsharp : sharp = true
  · rcases mark_of_style hstyle with ⟨hbase, -⟩ | ⟨-, zeros, hmark⟩
    · exact absurd ⟨hsharp, hbase, Nat.pos_of_ne_zero hcount⟩ hplace
    · rw [Style.markIf, if_pos hsharp, hmark, ← List.append_assoc, ← List.append_assoc,
        List.replicate_append_replicate, List.replicate_append_replicate, Nat.add_comm]
  · simp [Style.markIf, hsharp]

/-- Zeros between a sign and what stands behind it are digits of the number, unless the mark of
hexadecimal digits stands behind them. -/
theorem spells_zeros_iff (hstyle : Style.ofVerb? verb = some style) {n : Int}
    {sign digits : List Char} (hsign : IsSign n sign) (hdigits : style.Writes digits n.natAbs)
    (sharp : Bool) (count : Nat) :
    style.Spells sharp n (sign ++ (List.replicate count '0' ++ (style.markIf sharp ++ digits))) ↔
      ¬ (sharp = true ∧ style.base = 16 ∧ 0 < count) := by
  obtain ⟨hne, hletters, hvalue⟩ := hdigits
  constructor
  · rintro ⟨other, others, htext, ⟨hother, -⟩, -⟩ ⟨rfl, hbase, hcount⟩
    obtain ⟨-, letter, hletter, hmark⟩ :=
      (mark_of_style hstyle).resolve_right fun hzeros ↦ hzeros.1 hbase
    -- Behind the sign, two zeros would have to be the mark.
    obtain ⟨more, hmore⟩ : ∃ more, List.replicate count '0' ++ ('0' :: letter :: digits) =
        '0' :: '0' :: more := by
      obtain ⟨count, rfl⟩ := Nat.exists_eq_succ_of_ne_zero hcount.ne'
      cases count with
      | zero => exact ⟨_, rfl⟩
      | succ count => exact ⟨_, rfl⟩
    simp only [Style.markIf, if_true, hmark, List.append_assoc, List.cons_append, List.nil_append]
      at htext
    rw [hmore] at htext
    rcases hsign.1 with rfl | rfl | rfl <;> rcases hother with rfl | rfl | rfl <;>
      simp [hletter.symm] at htext
  · intro hplace
    obtain ⟨hzero, hbase⟩ := zero_mem_of_style hstyle
    refine ⟨sign, List.replicate count '0' ++ digits, ?_, hsign, ?_, ?_, ?_⟩
    · rw [replicate_append_markIf hstyle hplace, List.append_assoc]
    · simp [hne]
    · refine List.forall_mem_append.mpr ⟨fun c hc ↦ ?_, hletters⟩
      rw [List.eq_of_mem_replicate hc]
      exact hzero
    · exact hvalue.replicate_zero_append hbase count

/-- Apart from the blanks around it, a padded number is its sign, the zeros that pad it, the mark
and the digits. -/
theorem exists_trimBlanks_pad (hstyle : Style.ofVerb? verb = some style) (layout : Layout) (n : Int)
    {core : List Char} (hne : core ≠ []) (hcore : ∀ c ∈ core, c ∈ style.alphabet ++ style.mark) :
    ∃ sign, IsSign n sign ∧ trimBlanks (pad layout true (lead layout.flags n ++ core)) =
      sign ++ (List.replicate (zeroCount layout (lead layout.flags n ++ core).length) '0' ++
        core) := by
  have hplain : ∀ c ∈ core, c ∉ ['-', '+', ' '] := fun c hc ↦
    ne_of_mem_style hstyle c (hcore c hc)
  obtain ⟨left, right, hpad⟩ :=
    exists_pad_eq layout n fun c hc ↦ hplain c (List.mem_of_mem_head? hc)
  obtain ⟨blanks, sign, hlead, hsign⟩ := exists_sign layout.flags n
  refine ⟨sign, hsign, ?_⟩
  rw [hpad]
  generalize zeroCount layout (lead layout.flags n ++ core).length = zeros
  have hblanks : List.replicate left ' ' ++ (lead layout.flags n ++
      (List.replicate zeros '0' ++ core)) ++ List.replicate right ' ' =
        List.replicate (left + blanks) ' ' ++ (sign ++ (List.replicate zeros '0' ++ core)) ++
          List.replicate right ' ' := by
    rw [hlead, ← List.replicate_append_replicate]
    simp only [List.append_assoc]
  rw [hblanks]
  refine trimBlanks_between _ _ ?_ (by simp [hne])
  refine List.forall_mem_append.mpr ⟨?_, List.forall_mem_append.mpr ⟨?_, ?_⟩⟩
  · rcases hsign.1 with rfl | rfl | rfl <;> exact List.all_iff_forall_prop.mp (by decide)
  · intro c hc
    rw [List.eq_of_mem_replicate hc]
    decide
  · rintro c hc rfl
    exact hplain ' ' hc (by decide)

/-- The mark and the digits of a number are among the characters of its style. -/
theorem Style.Writes.mem_append {digits : List Char} {magnitude : Nat}
    (hdigits : style.Writes digits magnitude) (sharp : Bool) :
    ∀ c ∈ style.markIf sharp ++ digits, c ∈ style.alphabet ++ style.mark := by
  refine List.forall_mem_append.mpr ⟨fun c hc ↦ ?_, fun c hc ↦ ?_⟩
  · refine List.mem_append_right _ ?_
    unfold Style.markIf at hc
    split_ifs at hc
    · exact hc
    · cases hc
  · exact List.mem_append_left _ (hdigits.2.1 c hc)

/-- That the zeros of a directive stand in front of a mark, for a number of some length: the flags
for zeros and for the mark meet under a verb for hexadecimal digits, the number is shorter than the
width, and it is not padded on the right. -/
def Misplaces (style : Style) (marks : List Char) (width : Width) (length : Nat) : Prop :=
  ('#' ∈ marks ∧ style.base = 16) ∧
    ('0' ∈ marks ++ width.zeros ∧ '-' ∉ marks ∧ width.toLeft = false) ∧ length < width.value

/-- An integer under a verb for integers is brought to the width, which may be given by digits or by
an argument. Apart from the blanks around it, it is a sign, which is a minus exactly if the number
is negative, the mark if the sharp flag asks for it, and digits that denote the number, unless zeros
are padded in front of a mark of hexadecimal digits. Then it is the sign, the zeros, the mark and
the digits, which is no such numeral. -/
theorem printf_integer (n : Int) (hstyle : Style.ofVerb? verb = some style)
    (hmarks : ∀ c ∈ marks, isFlag c = true) (hwidth : width.IsGiven) :
    ∃ bare written : List Char,
      Builtin.printf.call [.string (directiveText marks (.digits []) verb), .int n] =
        .ok (.string (String.ofList bare)) ∧
      Builtin.printf.call (.string (directiveText marks width verb) ::
        (width.arguments ++ [.int n])) = .ok (.string (String.ofList written)) ∧
      written.length = max width.value bare.length ∧
      (style.Spells ('#' ∈ marks) n (trimBlanks written) ↔
        ¬ Misplaces style marks width bare.length) ∧
      (Misplaces style marks width bare.length →
        ∃ sign digits, IsSign n sign ∧ style.Writes digits n.natAbs ∧ trimBlanks written =
          sign ++ (List.replicate (width.value - bare.length) '0' ++ (style.mark ++ digits))) := by
  obtain ⟨digits, hdigits, hbody⟩ := formatInteger_eq hstyle n
  have hverb := isVerb_of_style hstyle
  have hempty : (Width.digits []).IsGiven := ⟨nofun, by decide⟩
  have hbare := fill_directiveText hmarks hempty hverb (hbody (layoutOf marks (.digits [])))
  have hwritten := fill_directiveText hmarks hwidth hverb (hbody (layoutOf marks width))
  rw [isNumeric_of_style hstyle] at hbare hwritten
  -- The flags for signs and marks are the same with and without the width.
  have hlead :
      lead (layoutOf marks (.digits [])).flags n = lead (layoutOf marks width).flags n := by
    simp only [layoutOf_flags, lead]
  have hsharp (width : Width) : (layoutOf marks width).flags.sharp = decide ('#' ∈ marks) := by
    rw [layoutOf_flags]
  rw [hsharp] at hbare hwritten
  rw [hlead] at hbare
  obtain ⟨core, hcore⟩ : ∃ core, core = style.markIf ('#' ∈ marks) ++ digits := ⟨_, rfl⟩
  rw [← hcore] at hbare hwritten
  have hne : core ≠ [] := by simp [hcore, hdigits.1]
  have hletters : ∀ c ∈ core, c ∈ style.alphabet ++ style.mark := hcore ▸ hdigits.mem_append _
  obtain ⟨sign, hsign, htrim⟩ := exists_trimBlanks_pad hstyle (layoutOf marks width) n hne hletters
  obtain ⟨body, hbodyEq⟩ : ∃ body, body = lead (layoutOf marks width).flags n ++ core := ⟨_, rfl⟩
  rw [← hbodyEq] at hbare hwritten htrim
  have hlength : (pad (layoutOf marks (.digits [])) true body).length = body.length := by
    rw [length_pad, show (layoutOf marks (.digits [])).width.getD 0 = 0 from
      Width.getD_settled hempty, Nat.zero_max]
  have hvalue : (layoutOf marks width).width.getD 0 = width.value := Width.getD_settled hwidth
  rw [zeroCount_layoutOf marks hwidth] at htrim
  refine ⟨pad (layoutOf marks (.digits [])) true body, pad (layoutOf marks width) true body,
    congrArg (Except.ok ∘ Value.string) hbare, congrArg (Except.ok ∘ Value.string) hwritten, ?_, ?_,
    ?_⟩
  · rw [length_pad, hvalue, hlength]
  · rw [htrim, hcore, spells_zeros_iff hstyle hsign hdigits, hlength, Misplaces, decide_eq_true_eq,
      ← and_assoc]
    refine not_congr (and_congr_right fun _ ↦ ?_)
    split_ifs with hzeros
    · rw [Nat.sub_pos_iff_lt]
      exact ⟨fun hlt ↦ ⟨hzeros, hlt⟩, fun hboth ↦ hboth.2⟩
    · exact iff_of_false (Nat.lt_irrefl 0) fun hboth ↦ hzeros hboth.1
  · rintro ⟨⟨hsharp, -⟩, hzeros, -⟩
    refine ⟨sign, digits, hsign, hdigits, ?_⟩
    rw [htrim, if_pos hzeros, hlength, hcore, Style.markIf, if_pos (decide_eq_true hsharp)]

/-- A negative number with a mark, padded on the right. -/
theorem printf_integer_right :
    Style.ofVerb? 'x' = some ⟨16, lowerDigits, ['0', 'x']⟩ ∧
      (∀ c ∈ ['#', '0', '-'], isFlag c = true) ∧ (Width.digits ['9']).IsGiven ∧
      ∃ written : List Char,
        Builtin.printf.call [.string (directiveText ['#', '0', '-'] (.digits ['9']) 'x'),
          .int (-255)] = .ok (.string (String.ofList written)) ∧
        (⟨16, lowerDigits, ['0', 'x']⟩ : Style).Spells true (-255) (trimBlanks written) := by
  have hstyle : Style.ofVerb? 'x' = some ⟨16, lowerDigits, ['0', 'x']⟩ := rfl
  have hmarks : ∀ c ∈ ['#', '0', '-'], isFlag c = true :=
    List.all_iff_forall_prop.mp (by decide)
  have hwidth : (Width.digits ['9']).IsGiven :=
    ⟨List.all_iff_forall_prop.mp (by decide), by decide⟩
  obtain ⟨bare, written, -, hwritten, -, hspells, -⟩ :=
    printf_integer (-255) hstyle hmarks hwidth
  refine ⟨hstyle, hmarks, hwidth, written, hwritten, hspells.mpr ?_⟩
  rintro ⟨-, ⟨-, hminus, -⟩, -⟩
  exact hminus (by decide)

/-- Zeros are padded in front of a mark, and what is written is no numeral behind the mark. -/
theorem printf_marked_zeros :
    Builtin.printf.call [.string "%#08x", .int 255] = .ok (.string "00000xff") ∧
      ¬ (⟨16, lowerDigits, ['0', 'x']⟩ : Style).Spells true 255
        (trimBlanks "00000xff".toList) := by
  have hmarks : ∀ c ∈ ['#', '0'], isFlag c = true :=
    List.all_iff_forall_prop.mp (by decide)
  have hwidth : (Width.digits ['8']).IsGiven :=
    ⟨List.all_iff_forall_prop.mp (by decide), by decide⟩
  have hbody : formatArgument 'x' (layoutOf ['#', '0'] (.digits ['8'])) (.int 255) =
      some ['0', 'x', 'f', 'f'] := by decide
  have hwritten := fill_directiveText hmarks hwidth (by decide) hbody
  have hdigits : (⟨16, lowerDigits, ['0', 'x']⟩ : Style).Writes ['f', 'f'] (Int.natAbs 255) :=
    ⟨by decide, List.all_iff_forall_prop.mp (by decide), [15, 15],
      .cons (by decide) (.cons (by decide) .nil), rfl⟩
  constructor
  · exact congrArg (Except.ok ∘ Value.string) hwritten
  · have htrim : trimBlanks "00000xff".toList =
        [] ++ (List.replicate 4 '0' ++ (['0', 'x'] ++ ['f', 'f'])) := by decide
    rw [htrim]
    have hstyle : Style.ofVerb? 'x' = some ⟨16, lowerDigits, ['0', 'x']⟩ := rfl
    have hsign : IsSign 255 [] := ⟨.inl rfl, by decide⟩
    exact (spells_zeros_iff hstyle hsign hdigits true 4).not.mpr
      (not_not_intro ⟨rfl, rfl, by decide⟩)

end Formats

end Stencil.Formatting
