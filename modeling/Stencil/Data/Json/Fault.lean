/-!
# Faults in a JSON text

A text that is no JSON has a first fault, at a place given by its line and the bytes of that line
before it (`ReadError`). A fault about a character is placed one byte into it (`Place.mark`), one
about the end of the text at the end.
-/

set_option autoImplicit false
set_option relaxedAutoImplicit false

namespace Stencil.Json

/-! ### Places -/

/-- A place in a text: its line, counted from one, and how many bytes of the line precede it. -/
structure Place where
  line : Nat := 1
  column : Nat := 0
deriving DecidableEq, Repr, Inhabited

namespace Place

/-- The place after a character. -/
def next (place : Place) (c : Char) : Place :=
  if c = '\n' then ⟨place.line + 1, 0⟩ else ⟨place.line, place.column + c.utf8Size⟩

/-- The place after some characters. -/
def advance (place : Place) (text : List Char) : Place := text.foldl next place

/-- The place some bytes further on the same line. -/
def forward (place : Place) (bytes : Nat) : Place := ⟨place.line, place.column + bytes⟩

/-- The place some bytes into a text, or the end of the text. -/
def into (place : Place) (bytes : Nat) : List Char → Place
  | [] => place
  | c :: rest =>
    if c.utf8Size ≤ bytes then into (place.next c) (bytes - c.utf8Size) rest
    else place.forward bytes

/-- Where a fault about the next character stands. -/
def mark (place : Place) (text : List Char) : Place := place.into 1 text

end Place

/-! ### Faults -/

/-- What is wrong with a text. -/
inductive ReadFault
  | endInArray
  | endInObject
  | endInText
  | endInValue
  | noColon
  /-- After an item there is neither a comma nor the end of the array. -/
  | noItemEnd
  /-- After a member there is neither a comma nor the end of the object. -/
  | noMemberEnd
  /-- A word that starts like a literal and is none. -/
  | badWord
  | noValue
  | badEscape
  | badNumber
  | numberRange
  | controlCharacter
  | keyNoText
  /-- Half of a surrogate pair without its other half. -/
  | loneSurrogate
  /-- The first half of a surrogate pair that no escape follows. -/
  | halfPair
  | trailingComma
  | trailingText
  | tooDeep
deriving DecidableEq, Repr

/-- The wording of a fault. -/
def ReadFault.message : ReadFault → String
  | endInArray => "EOF while parsing a list"
  | endInObject => "EOF while parsing an object"
  | endInText => "EOF while parsing a string"
  | endInValue => "EOF while parsing a value"
  | noColon => "expected `:`"
  | noItemEnd => "expected `,` or `]`"
  | noMemberEnd => "expected `,` or `\x7d`"
  | badWord => "expected ident"
  | noValue => "expected value"
  | badEscape => "invalid escape"
  | badNumber => "invalid number"
  | numberRange => "number out of range"
  | controlCharacter => "control character (\\u0000-\\u001F) found while parsing a string"
  | keyNoText => "key must be a string"
  | loneSurrogate => "lone leading surrogate in hex escape"
  | halfPair => "unexpected end of hex escape"
  | trailingComma => "trailing comma"
  | trailingText => "trailing characters"
  | tooDeep => "recursion limit exceeded"

/-- A fault and its place. -/
structure ReadError where
  fault : ReadFault
  place : Place
deriving DecidableEq, Repr

/-- The whole message. -/
def ReadError.describe (e : ReadError) : String :=
  e.fault.message ++ " at line " ++ toString e.place.line ++ " column " ++ toString e.place.column

end Stencil.Json
