import Stencil.Data.Print
import Stencil.Text.Bytes
import Stencil.Text.Literal

/-!
# Formatting by directives

A format is a text with directives. A directive is a percent sign, flags, a width, a precision and a
verb (`Directive`); a width or a precision is given by digits or, as a star, by an argument. Each
verb takes one argument and writes it in its own way (`formatArgument`), padded to the width
(`pad`).

Formatting never fails: what does not fit is reported in the text it writes. That holds for a
missing argument or verb, for an argument that a verb does not apply to, for a count that is no
integer or beyond `countLimit`, and for arguments left over.
-/

set_option autoImplicit false
set_option relaxedAutoImplicit false

namespace Stencil.Formatting

open Number

/-! ### Directives -/

/-- How a width or a precision is given. -/
inductive Count
  | absent
  /-- Digits, whose value is missing if there are none or if it is too great. -/
  | digits (value : Option Nat)
  /-- An argument. -/
  | star
deriving DecidableEq, Repr

/-- The marks that precede a width. -/
structure Flags where
  minus : Bool := false
  plus : Bool := false
  zero : Bool := false
  space : Bool := false
  sharp : Bool := false
deriving DecidableEq, Repr

/-- A directive as it is written. -/
structure Directive where
  flags : Flags
  width : Count
  precision : Count
  verb : Option Char
deriving DecidableEq, Repr

/-- The greatest width or precision. -/
def countLimit : Nat := 1000000

/-- The flags of a run of marks. -/
def Flags.ofMarks (marks : List Char) : Flags where
  minus := marks.contains '-'
  plus := marks.contains '+'
  zero := marks.contains '0'
  space := marks.contains ' '
  sharp := marks.contains '#'

/-- Whether `c` is a flag. -/
def isFlag (c : Char) : Bool := ['-', '+', '0', ' ', '#'].contains c

/-- The value of digits that is not beyond the limit. -/
def boundedValue (digits : List Char) : Option Nat :=
  if digits.isEmpty then none
  else (some (Nat.ofDigitChars 10 digits 0)).filter (· ≤ countLimit)

/-- Reads a star or digits. -/
def readCount : List Char → Count × List Char
  | '*' :: rest => (.star, rest)
  | text => (.digits (boundedValue (text.takeWhile Char.isDigit)), text.dropWhile Char.isDigit)

/-- Reads a precision, which a point introduces. -/
def readPrecision : List Char → Count × List Char
  | '.' :: rest => readCount rest
  | text => (.absent, text)

/-- Reads what follows the percent sign of a directive. -/
def readDirective (text : List Char) : Directive × List Char :=
  let afterFlags := text.dropWhile isFlag
  let (width, afterWidth) := readCount afterFlags
  let (precision, afterPrecision) := readPrecision afterWidth
  (⟨Flags.ofMarks (text.takeWhile isFlag), width, precision, afterPrecision.head?⟩,
    afterPrecision.drop 1)

theorem readCount_length_le (text : List Char) :
    (readCount text).2.length ≤ text.length := by
  unfold readCount
  split
  · exact Nat.le_succ _
  · exact (List.dropWhile_sublist _).length_le

theorem readPrecision_length_le (text : List Char) :
    (readPrecision text).2.length ≤ text.length := by
  unfold readPrecision
  split
  · exact Nat.le_trans (readCount_length_le _) (Nat.le_succ _)
  · exact Nat.le_refl _

theorem readDirective_length_le (text : List Char) :
    (readDirective text).2.length ≤ text.length := by
  have flags : (text.dropWhile isFlag).length ≤ text.length :=
    (List.dropWhile_sublist _).length_le
  have width := readCount_length_le (text.dropWhile isFlag)
  have precision := readPrecision_length_le (readCount (text.dropWhile isFlag)).2
  simp only [readDirective, List.length_drop]
  omega

/-! ### Single arguments -/

/-- A directive with its counts settled. -/
structure Layout where
  flags : Flags
  width : Option Nat
  precision : Option Nat
deriving DecidableEq, Repr

/-- A magnitude with its sign, or the mark that the flags put in place of a plus. -/
def signed (flags : Flags) (negative : Bool) (magnitude : List Char) : List Char :=
  if negative then '-' :: magnitude
  else if flags.plus then '+' :: magnitude
  else if flags.space then ' ' :: magnitude
  else magnitude

/-- A text without the zeros at the end of its fraction, nor its point if nothing follows. -/
def trimZeros (text : List Char) : List Char :=
  if text.contains '.' then
    ((text.reverse.dropWhile (· = '0')).dropWhile (· = '.')).reverse
  else text

/-- A magnitude with an exponent and the given number of decimal places. -/
def exponential (x : Binary64) (places : Nat) : List Char :=
  let digits := x.significant (places + 1)
  digits.mantissa ++ exponentText digits.exponent

/-- A magnitude to the given number of significant digits, at least one, in whichever form suits its
size. -/
def general (x : Binary64) (count : Nat) : List Char :=
  if x.isZero then ['0']
  else
    let digits := x.significant count
    if digits.exponent < -4 || (count : Int) ≤ digits.exponent then
      trimZeros digits.mantissa ++ exponentText digits.exponent
    else
      trimZeros (x.fixed (count - 1 - digits.exponent).toNat)

/-- The character of a code point; where there is none, the replacement character. -/
def character (code : Int) : Char :=
  if 0 ≤ code && code.toNat.isValidChar then Char.ofNat code.toNat else '\ufffd'

/-- The base of a verb for integers, and the digits it writes. -/
def integerDigits (verb : Char) (magnitude : Nat) : Option (List Char) :=
  match verb with
  | 'x' => some (Nat.toDigits 16 magnitude)
  | 'X' => some ((Nat.toDigits 16 magnitude).map Char.toUpper)
  | 'o' => some (Nat.toDigits 8 magnitude)
  | 'b' => some (Nat.toDigits 2 magnitude)
  | 'd' | 'v' => some (Nat.toDigits 10 magnitude)
  | _ => none

/-- What the sharp flag puts before the digits of an integer. -/
def integerPrefix (flags : Flags) (verb : Char) : List Char :=
  if flags.sharp then
    match verb with
    | 'x' => ['0', 'x']
    | 'X' => ['0', 'X']
    | 'o' => ['0']
    | _ => []
  else []

/-- A number under a verb for floating-point numbers. -/
def formatFloating (verb : Char) (layout : Layout) (x : Binary64) : Option (List Char) :=
  let body :=
    match verb with
    | 'f' | 'F' => some (x.fixed (layout.precision.getD 6))
    | 'e' => some (exponential x (layout.precision.getD 6))
    | 'g' =>
      match layout.precision with
      | some count => some (general x (max count 1))
      | none => some (formatMagnitude x)
    | _ => none
  body.map (signed layout.flags x.isNegative)

/-- An integer under a verb. -/
def formatInteger (verb : Char) (layout : Layout) (n : Int) : Option (List Char) :=
  match integerDigits verb n.natAbs with
  | some digits =>
    some (signed layout.flags (n < 0) (integerPrefix layout.flags verb ++ digits))
  | none =>
    match verb with
    | 'c' => some [character n]
    | 'q' => some (Literal.quoteChar (character n)).toList
    | _ => formatFloating verb layout (Binary64.ofInt n)

/-- A text in hexadecimal, byte by byte. -/
def hexText (text : String) : List Char :=
  (bytesOf text.toList).flatMap fun byte => (Nat.toDigits 16 byte.toNat).leftpad 2 '0'

/-- The first characters of a text, as many as the precision says. -/
def truncate (layout : Layout) (text : String) : List Char :=
  match layout.precision with
  | some count => text.toList.take count
  | none => text.toList

/-- An argument under a verb, if the verb applies to it. -/
def formatArgument (verb : Char) (layout : Layout) (argument : Value) : Option (List Char) :=
  match argument with
  | .int n => formatInteger verb layout n
  | .float x =>
    if verb = 'v' then some (signed layout.flags x.isNegative (formatMagnitude x))
    else formatFloating verb layout x
  | .string text =>
    match verb with
    | 'v' => some text.toList
    | 's' => some (truncate layout text)
    | 'q' => some (Literal.quote text).toList
    | 'x' => some (hexText text)
    | 'X' => some ((hexText text).map Char.toUpper)
    | _ => none
  | .array _ | .object _ =>
    if verb = 'v' || verb = 's' then some argument.format.toList else none
  | .bool _ => if verb = 'v' || verb = 't' then some argument.format.toList else none
  | .null => if verb = 'v' then some argument.format.toList else none

/-- Whether zeros may pad an argument. -/
def isNumeric (verb : Char) : Value → Bool
  | .int _ | .float _ => verb ≠ 'c' && verb ≠ 'q'
  | _ => false

/-- A body brought to the width: on the left of it with the minus flag, with zeros after the sign
with the zero flag, and with blanks before it otherwise. -/
def pad (layout : Layout) (numeric : Bool) (body : List Char) : List Char :=
  let fill := layout.width.getD 0 - body.length
  if layout.flags.minus then body ++ List.replicate fill ' '
  else if layout.flags.zero && numeric then
    match body with
    | c :: rest =>
      if c = '-' || c = '+' || c = ' ' then c :: (List.replicate fill '0' ++ rest)
      else List.replicate fill '0' ++ body
    | [] => List.replicate fill '0'
  else List.replicate fill ' ' ++ body

/-- The report of an argument with its type. -/
def reported (argument : Value) : List Char :=
  (argument.typeName ++ "=" ++ argument.format).toList

/-- The report of an argument that a verb does not apply to. -/
def badVerb (verb : Char) (argument : Value) : List Char :=
  ['%', '!', verb, '('] ++
    (match argument with
      | .null => argument.format.toList
      | _ => reported argument) ++ [')']

/-! ### Whole formats -/

/-- Takes an argument as a count: its value, if it is an integer within the limit, and the arguments
that are left. -/
def starCount : List Value → Option Int × List Value
  | [] => (none, [])
  | argument :: rest => (argument.signed?.filter (·.natAbs ≤ countLimit), rest)

/-- The width of a directive, with what it adds to the flags, what it reports and the arguments
left. -/
def settleWidth (directive : Directive) (arguments : List Value) :
    Flags × Option Nat × List Char × List Value :=
  match directive.width with
  | .absent => (directive.flags, none, [], arguments)
  | .digits value => (directive.flags, value, [], arguments)
  | .star =>
    match starCount arguments with
    | (some n, rest) =>
      ({ directive.flags with minus := directive.flags.minus || n < 0 }, some n.natAbs, [], rest)
    | (none, rest) => (directive.flags, none, "%!(BADWIDTH)".toList, rest)

/-- The precision of a directive, with what it reports and the arguments left. -/
def settlePrecision (directive : Directive) (arguments : List Value) :
    Option Nat × List Char × List Value :=
  match directive.precision with
  | .absent => (none, [], arguments)
  | .digits value => (some (value.getD 0), [], arguments)
  | .star =>
    match starCount arguments with
    | (some n, rest) =>
      if 0 ≤ n then (some n.toNat, [], rest) else (none, "%!(BADPREC)".toList, rest)
    | (none, rest) => (none, "%!(BADPREC)".toList, rest)

/-- What the verb of a directive writes, and the arguments left. -/
def applyVerb (verb : Option Char) (layout : Layout) (arguments : List Value) :
    List Char × List Value :=
  match verb with
  | none => ("%!(NOVERB)".toList, arguments)
  | some '%' => (['%'], arguments)
  | some verb =>
    match arguments with
    | [] => (['%', '!', verb] ++ "(MISSING)".toList, [])
    | argument :: rest =>
      match formatArgument verb layout argument with
      | some body => (pad layout (isNumeric verb argument) body, rest)
      | none => (badVerb verb argument, rest)

/-- What a directive writes, and the arguments left. -/
def Directive.apply (directive : Directive) (arguments : List Value) :
    List Char × List Value :=
  let (flags, width, widthReport, afterWidth) := settleWidth directive arguments
  let (precision, precisionReport, afterPrecision) := settlePrecision directive afterWidth
  let (written, rest) := applyVerb directive.verb ⟨flags, width, precision⟩ afterPrecision
  (widthReport ++ precisionReport ++ written, rest)

/-- What a format writes, and the arguments left. -/
def formatFrom (format : List Char) (arguments : List Value) : List Char × List Value :=
  match format with
  | [] => ([], arguments)
  | c :: rest =>
    if c = '%' then
      let (written, left) := (readDirective rest).1.apply arguments
      let (more, remaining) := formatFrom (readDirective rest).2 left
      (written ++ more, remaining)
    else
      let (more, remaining) := formatFrom rest arguments
      (c :: more, remaining)
termination_by format.length
decreasing_by
  · exact Nat.lt_succ_of_le (readDirective_length_le rest)
  · exact Nat.lt_succ_self _

/-- The report of the arguments left over. -/
def extraReport (arguments : List Value) : List Char :=
  if arguments.isEmpty then []
  else
    "%!(EXTRA ".toList ++ ", ".toList.intercalate (arguments.map reported) ++ [')']

/-- The text that a format writes for its arguments. -/
def fill (format : String) (arguments : List Value) : String :=
  let (written, remaining) := formatFrom format.toList arguments
  String.ofList (written ++ extraReport remaining)

end Stencil.Formatting
