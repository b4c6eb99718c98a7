import Stencil.Text.Bytes

/-!
# Escaping for other languages

Three ways to make a text safe inside another one. `html` replaces the five characters that mark up
HTML by entities. `script` keeps a text inside a string literal of a script, with no character that
could end the literal or open markup. `query` writes a text as a part of a query, where letters,
digits and four marks stand for themselves, a blank is a plus sign and every other byte is a percent
sign with two digits.
-/

set_option autoImplicit false
set_option relaxedAutoImplicit false

namespace Stencil.Escape

/-- An upper-case hexadecimal number of at least `width` digits. -/
def upperHex (width n : Nat) : List Char :=
  ((Nat.toDigits 16 n).map Char.toUpper).leftpad width '0'

/-- A character in HTML. -/
def htmlChar (c : Char) : List Char :=
  if c = '"' then "&#34;".toList
  else if c = '\'' then "&#39;".toList
  else if c = '&' then "&amp;".toList
  else if c = '<' then "&lt;".toList
  else if c = '>' then "&gt;".toList
  else if c = '\x00' then ['\ufffd']
  else [c]

/-- A text in HTML. -/
def html (text : List Char) : List Char := text.flatMap htmlChar

/-- A character in a string literal of a script. -/
def scriptChar (c : Char) : List Char :=
  if c = '\\' || c = '\'' || c = '"' then ['\\', c]
  else if c = '<' || c = '>' || c = '&' || c = '=' || c.toNat < 0x20 then
    '\\' :: 'u' :: upperHex 4 c.toNat
  else [c]

/-- A text in a string literal of a script. -/
def script (text : List Char) : List Char := text.flatMap scriptChar

/-- Whether a byte stands for itself in a query. -/
def isUnreserved (byte : UInt8) : Bool :=
  let c := Char.ofNat byte.toNat
  byte.toNat < 0x80 && (c.isAlphanum || c = '-' || c = '_' || c = '.' || c = '~')

/-- A byte in a query. -/
def queryByte (byte : UInt8) : List Char :=
  if isUnreserved byte then [Char.ofNat byte.toNat]
  else if byte = 0x20 then ['+']
  else '%' :: upperHex 2 byte.toNat

/-- A text in a query. -/
def query (text : List Char) : List Char := (bytesOf text).flatMap queryByte

end Stencil.Escape
