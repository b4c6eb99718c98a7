import Stencil.Text.Diagnostic

/-!
# Quoted literals

A literal between double or single quotes is a sequence of characters and escapes; its value is the
text whose bytes those units give (`unescape`). An escape is a control letter, the quote or the
backslash, or a code in hexadecimal or octal (`escapeUnit`). A literal between back quotes is taken
as it is, without carriage returns. `unquote` is the value of a whole literal, if it has one.

`quote` goes the other way: it writes a text between double quotes, with a short escape wherever one
exists and a numeric one for the remaining control characters.
-/

set_option autoImplicit false
set_option relaxedAutoImplicit false

namespace Stencil.Literal

/-! ### Reading -/

/-- The value of a hexadecimal digit of either case. -/
def hexDigit? (c : Char) : Option Nat :=
  if c.isDigit then some (c.toNat - '0'.toNat)
  else if 'a' ≤ c && c ≤ 'f' then some (c.toNat - 'a'.toNat + 10)
  else if 'A' ≤ c && c ≤ 'F' then some (c.toNat - 'A'.toNat + 10)
  else none

/-- The value of an octal digit. -/
def octalDigit? (c : Char) : Option Nat :=
  if '0' ≤ c && c ≤ '7' then some (c.toNat - '0'.toNat) else none

/-- The value of exactly `count` digits in a base, read from the head of a text. -/
def readDigits (digit? : Char → Option Nat) (base : Nat) :
    Nat → Nat → List Char → Option Nat
  | 0, value, _ => some value
  | _ + 1, _, [] => none
  | count + 1, value, c :: rest =>
    match digit? c with
    | some digit => readDigits digit? base count (value * base + digit) rest
    | none => none

/-- The bytes of a code point, if it is that of a character. -/
def characterBytes (code : Nat) : Option (List UInt8) :=
  if code.isValidChar then some (String.utf8EncodeChar (Char.ofNat code)) else none

/-- The byte that the letter of a short escape stands for. -/
def shortEscape? (mark c : Char) : Option UInt8 :=
  if c = 'a' then some 0x07
  else if c = 'b' then some 0x08
  else if c = 'f' then some 0x0C
  else if c = 'n' then some 0x0A
  else if c = 'r' then some 0x0D
  else if c = 't' then some 0x09
  else if c = 'v' then some 0x0B
  else if c = '\\' then some 0x5C
  else if c = mark then some (UInt8.ofNat mark.toNat)
  else none

/-- The escape whose backslash precedes a text: its bytes, and how many characters follow the
backslash. -/
def escapeUnit (mark : Char) : List Char → Option (List UInt8 × Nat)
  | [] => none
  | c :: rest =>
    match shortEscape? mark c with
    | some byte => some ([byte], 1)
    | none =>
      if c = 'x' then
        (readDigits hexDigit? 16 2 0 rest).map fun code => ([UInt8.ofNat code], 3)
      else if c = 'u' then
        ((readDigits hexDigit? 16 4 0 rest).bind characterBytes).map (·, 5)
      else if c = 'U' then
        ((readDigits hexDigit? 16 8 0 rest).bind characterBytes).map (·, 9)
      else
        match readDigits octalDigit? 8 3 0 (c :: rest) with
        | some code => if code < 256 then some ([UInt8.ofNat code], 3) else none
        | none => none

/-- The bytes of the body of a literal. The quote itself and a line end may not occur bare. -/
def unescape (mark : Char) (body : List Char) : Option (List UInt8) :=
  match body with
  | [] => some []
  | c :: rest =>
    if c = '\\' then
      match escapeUnit mark rest with
      | some (bytes, length) => (unescape mark (rest.drop length)).map (bytes ++ ·)
      | none => none
    else if c = mark || c = '\n' then none
    else (unescape mark rest).map (String.utf8EncodeChar c ++ ·)
termination_by body.length
decreasing_by
  all_goals simp only [List.length_drop, List.length_cons]
  all_goals omega

/-- The text that a body spells, if its bytes are those of a text. -/
def unescapeText (mark : Char) (body : List Char) : Option String :=
  (unescape mark body).bind fun bytes => String.fromUTF8? ⟨bytes.toArray⟩

/-- The value of a literal with its quotes, if it is well formed. -/
def unquote (literal : String) : Option String :=
  match literal.toList with
  | mark :: last :: more =>
    let rest := last :: more
    let body := rest.dropLast
    if rest.getLast? ≠ some mark then none
    else if mark = '`' then
      if body.contains '`' then none
      else some (String.ofList (body.filter (· ≠ '\r')))
    else if mark = '"' then unescapeText mark body
    else if mark = '\'' then
      (unescapeText mark body).filter (·.length = 1)
    else none
  | _ => none

/-- The value of a character constant with its quotes, if it is well formed. -/
def unquoteChar (literal : String) : Option Char :=
  if literal.toList.head? = some '\'' then (unquote literal).bind (·.toList.head?) else none

/-! ### Writing -/

/-- Whether `c` is a control character. -/
def isControl (c : Char) : Bool :=
  c.toNat < 0x20 || (0x7F ≤ c.toNat && c.toNat < 0xA0)

/-- The form of `c` in a literal between the quotes `mark`. -/
def escape (mark c : Char) : List Char :=
  if c = '\x07' then ['\\', 'a']
  else if c = '\x08' then ['\\', 'b']
  else if c = '\x0c' then ['\\', 'f']
  else if c = '\n' then ['\\', 'n']
  else if c = '\r' then ['\\', 'r']
  else if c = '\t' then ['\\', 't']
  else if c = '\x0b' then ['\\', 'v']
  else if c = '\\' || c = mark then ['\\', c]
  else if isControl c then
    '\\' :: 'x' :: (Nat.toDigits 16 c.toNat).leftpad 2 '0'
  else [c]

/-- A text as a literal between double quotes. -/
def quote (text : String) : String :=
  String.ofList ('"' :: (text.toList.flatMap (escape '"') ++ ['"']))

/-- A character as a literal between single quotes. -/
def quoteChar (c : Char) : String :=
  String.ofList ('\'' :: (escape '\'' c ++ ['\'']))

end Stencil.Literal
