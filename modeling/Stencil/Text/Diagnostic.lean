import Stencil.Unicode.DefaultIgnorable
import Stencil.Unicode.GraphemeExtend
import Stencil.Unicode.Unprintable

/-!
# Texts as messages show them

A message that names a piece of text shows it between quotes, so that its ends and its invisible
characters can be seen. A tab, a line end, a backslash, the quote itself and the character zero have
short escapes. Every other character that has no visible form, or that would merge with the one
before it (`isVisible`), is shown by its code point in hexadecimal (`escape`).

A text stands between double quotes (`quote`), a single character between single ones
(`quoteChar`). A message about a stray character also gives its code point in the usual notation
(`codePoint`).
-/

set_option autoImplicit false
set_option relaxedAutoImplicit false

namespace Stencil.Diagnostic

/-- Whether `c` can be seen on its own where it stands. -/
def isVisible (c : Char) : Bool :=
  Unicode.isPrintable c && !Unicode.isDefaultIgnorable c && !Unicode.isGraphemeExtend c

/-- The form of `c` inside the quotes `mark`. -/
def escape (mark c : Char) : List Char :=
  if c = '\x00' then ['\\', '0']
  else if c = '\t' then ['\\', 't']
  else if c = '\r' then ['\\', 'r']
  else if c = '\n' then ['\\', 'n']
  else if c = '\\' || c = mark then ['\\', c]
  else if isVisible c then [c]
  else '\\' :: 'u' :: '\x7b' :: (Nat.toDigits 16 c.toNat ++ ['\x7d'])

/-- A text between double quotes. -/
def quote (text : String) : String :=
  String.ofList ('"' :: (text.toList.flatMap (escape '"') ++ ['"']))

/-- A character between single quotes. -/
def quoteChar (c : Char) : String :=
  String.ofList ('\'' :: (escape '\'' c ++ ['\'']))

/-- The code point of `c` with at least four upper-case hexadecimal digits, then `c` itself. -/
def codePoint (c : Char) : String :=
  let digits := (Nat.toDigits 16 c.toNat).map Char.toUpper
  "U+" ++ String.ofList (digits.leftpad 4 '0') ++ " " ++ quoteChar c

end Stencil.Diagnostic
