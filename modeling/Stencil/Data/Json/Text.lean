import Stencil.Data.Json.Fault
import Stencil.Text.Literal

/-!
# Texts in JSON

A text stands between quotes. A backslash starts an escape: a letter for one of eight characters, or
four hexadecimal digits for a code unit. A character above the first 65,536 is escaped as a pair of
surrogate units, of which neither may stand alone. Control characters have to be escaped.

Readers here say how many characters they have read, so whoever calls them knows what is left.
-/

set_option autoImplicit false
set_option relaxedAutoImplicit false

namespace Stencil.Json

/-- The number that four hexadecimal digits spell at the head of a text. -/
def hexUnit? : List Char → Option Nat
  | a :: b :: c :: d :: _ => do
    let a ← Literal.hexDigit? a
    let b ← Literal.hexDigit? b
    let c ← Literal.hexDigit? c
    let d ← Literal.hexDigit? d
    return ((a * 16 + b) * 16 + c) * 16 + d
  | _ => none

/-- The code unit of an escape, or the fault if no four digits are there. -/
def unitAt (place : Place) (text : List Char) : Except ReadError Nat :=
  match hexUnit? text with
  | some unit => .ok unit
  | none =>
    let fault := if (String.ofList (text.take 4)).utf8ByteSize < 4 then .endInText else .badEscape
    .error ⟨fault, place.into 4 text⟩

/-- Whether a unit is the first of a surrogate pair. -/
def isLeading (unit : Nat) : Bool := 0xD800 ≤ unit && unit < 0xDC00

/-- Whether a unit is the second of a surrogate pair. -/
def isTrailing (unit : Nat) : Bool := 0xDC00 ≤ unit && unit < 0xE000

/-- The character of a surrogate pair. -/
def pairChar (leading trailing : Nat) : Char :=
  Char.ofNat (0x10000 + (leading - 0xD800) * 0x400 + (trailing - 0xDC00))

/-- The second unit of a pair whose first is `leading`, from its backslash on. -/
def pairAt (place : Place) (leading : Nat) (text : List Char) : Except ReadError Char :=
  match text with
  | [] => .error ⟨.endInText, place⟩
  | '\\' :: [] => .error ⟨.endInText, place.forward 1⟩
  | '\\' :: 'u' :: digits => do
    let unit ← unitAt (place.forward 2) digits
    if isTrailing unit then return pairChar leading unit
    else throw ⟨.loneSurrogate, place.forward 6⟩
  | '\\' :: rest => .error ⟨.halfPair, (place.forward 1).mark rest⟩
  | rest => .error ⟨.halfPair, place.mark rest⟩

/-- The character whose code is escaped, from the first digit on, and the characters that takes. -/
def codeAt (place : Place) (text : List Char) : Except ReadError (Char × Nat) := do
  let unit ← unitAt place text
  if isTrailing unit then throw ⟨.loneSurrogate, place.forward 4⟩
  else if isLeading unit then
    return (← pairAt (place.forward 4) unit (text.drop 4), 10)
  else return (Char.ofNat unit, 4)

/-- The character of an escape after its backslash, and the characters that takes. -/
def escapeAt (place : Place) (text : List Char) : Except ReadError (Char × Nat) :=
  match text with
  | [] => .error ⟨.endInText, place⟩
  | '"' :: _ => .ok ('"', 1)
  | '\\' :: _ => .ok ('\\', 1)
  | '/' :: _ => .ok ('/', 1)
  | 'b' :: _ => .ok ('\x08', 1)
  | 'f' :: _ => .ok ('\x0c', 1)
  | 'n' :: _ => .ok ('\n', 1)
  | 'r' :: _ => .ok ('\r', 1)
  | 't' :: _ => .ok ('\t', 1)
  | 'u' :: rest => (codeAt (place.forward 1) rest).map fun (c, count) => (c, count + 1)
  | _ => .error ⟨.badEscape, place.mark text⟩

/-- A text from its opening quote's end on, and the characters up to the end of its closing quote.
What was read before, the last character first, and how many characters that took, are given. -/
def textAt (place : Place) (before : List Char) (count : Nat) (text : List Char) :
    Except ReadError (String × Nat) :=
  match text with
  | [] => .error ⟨.endInText, place⟩
  | c :: rest =>
    if c = '"' then .ok (String.ofList before.reverse, count + 1)
    else if c = '\\' then
      match escapeAt (place.forward 1) rest with
      | .error e => .error e
      | .ok (escaped, length) =>
        textAt (place.forward (1 + length)) (escaped :: before) (count + 1 + length)
          (rest.drop length)
    else if c.toNat < 0x20 then .error ⟨.controlCharacter, place.mark text⟩
    else textAt (place.next c) (c :: before) (count + 1) rest
termination_by text.length
decreasing_by
  all_goals
    simp only [List.length_cons, List.length_drop]
    omega

end Stencil.Json
