import Stencil.Data.Json.Number
import Stencil.Data.Json.Text

/-!
# Reading JSON

A JSON text is read token by token. What may come next, and what has been read inside each open
bracket, is a `State`; a token changes it or is a fault (`step`), and the end of the text leaves a
value if one has been completed. A limit may be set on the number of brackets open at a time.

Of several members with one key the last one counts, and an object's members are put in the order of
their keys.
-/

set_option autoImplicit false
set_option relaxedAutoImplicit false

namespace Stencil.Json

/-! ### Tokens -/

/-- The parts of a JSON text. -/
inductive Token
  | openArray
  | closeArray
  | openObject
  | closeObject
  | comma
  | colon
  | text (text : String)
  /-- A number or a word. -/
  | scalar (value : Value)
  /-- What starts like a text and is none. -/
  | badText (error : ReadError)
  /-- What is no token for another reason. -/
  | bad (error : ReadError)

/-- Whether a character only separates tokens. -/
def isBlank (c : Char) : Bool := c = ' ' || c = '\n' || c = '\t' || c = '\r'

/-- The fault of a text that does not continue with a word. -/
def wordFault? (place : Place) : List Char → List Char → Option ReadError
  | [], _ => none
  | _ :: _, [] => some ⟨.endInValue, place⟩
  | expected :: word, c :: rest =>
    if c = expected then wordFault? (place.forward 1) word rest
    else some ⟨.badWord, place.mark (c :: rest)⟩

/-- The token of a word that is a value, and the characters that it takes. -/
def wordAt (place : Place) (word : List Char) (value : Value) (text : List Char) : Token × Nat :=
  match wordFault? place word text with
  | none => (.scalar value, word.length)
  | some e => (.bad e, 1)

/-- The token at the head of a text, and the characters that it takes. -/
def tokenAt (place : Place) (text : List Char) : Token × Nat :=
  match text with
  | '[' :: _ => (.openArray, 1)
  | ']' :: _ => (.closeArray, 1)
  | '\x7b' :: _ => (.openObject, 1)
  | '\x7d' :: _ => (.closeObject, 1)
  | ',' :: _ => (.comma, 1)
  | ':' :: _ => (.colon, 1)
  | 'n' :: _ => wordAt place "null".toList .null text
  | 't' :: _ => wordAt place "true".toList (.bool true) text
  | 'f' :: _ => wordAt place "false".toList (.bool false) text
  | '"' :: rest =>
    match textAt (place.forward 1) [] 0 rest with
    | .ok (string, length) => (.text string, length + 1)
    | .error e => (.badText e, 1)
  | c :: _ =>
    if c = '-' || c.isDigit then
      match numberAt place text with
      | .ok (value, length) => (.scalar value, length)
      | .error e => (.bad e, 1)
    else (.bad ⟨.noValue, place.mark text⟩, 1)
  | [] => (.bad ⟨.endInValue, place⟩, 1)

/-! ### States -/

/-- An open bracket with what has been read after it, the last item or member first. -/
inductive Level
  | array (items : List Value)
  /-- The members, and the key whose value comes next. -/
  | object (members : List (String × Value)) (key : String)

/-- What may come next, and the brackets that are open, the innermost first. -/
inductive State
  /-- A value. -/
  | value (outer : List Level)
  /-- An item, or the end of the array. -/
  | firstItem (outer : List Level)
  /-- An item after a comma. -/
  | item (items : List Value) (outer : List Level)
  | afterItem (items : List Value) (outer : List Level)
  /-- A key, or the end of the object. -/
  | firstKey (outer : List Level)
  /-- A key after a comma. -/
  | key (members : List (String × Value)) (outer : List Level)
  | afterKey (key : String) (members : List (String × Value)) (outer : List Level)
  | afterMember (members : List (String × Value)) (outer : List Level)
  | finished (value : Value)

namespace State

/-- The state after a complete value. -/
def put (result : Value) : List Level → State
  | [] => finished result
  | .array items :: outer => afterItem (result :: items) outer
  | .object members name :: outer => afterMember ((name, result) :: members) outer

/-- The object of members read in reverse. -/
def close (members : List (String × Value)) (outer : List Level) : State :=
  put (Value.ofMembers members.reverse) outer

/-- Opens a bracket, if the limit allows one more. -/
def enter (limit : Option Nat) (place : Place) (outer : List Level) (inside : State) :
    Except ReadError State :=
  if limit.any (· ≤ outer.length) then .error ⟨.tooDeep, place⟩ else .ok inside

/-- The state after the first token of a value. -/
def startValue (limit : Option Nat) (place : Place) (outer : List Level) :
    Token → Except ReadError State
  | .openArray => enter limit place outer (.firstItem outer)
  | .openObject => enter limit place outer (.firstKey outer)
  | .text string => .ok (put (.string string) outer)
  | .scalar result => .ok (put result outer)
  | .badText e => .error e
  | .bad e => .error e
  | _ => .error ⟨.noValue, place⟩

/-- The state after a token, of which faults are found at the given place. -/
def step (limit : Option Nat) (place : Place) (state : State) (token : Token) :
    Except ReadError State :=
  match state, token with
  | value outer, token => startValue limit place outer token
  | firstItem outer, .closeArray => .ok (put (.array []) outer)
  | firstItem outer, token => startValue limit place (.array [] :: outer) token
  | item _ _, .closeArray => .error ⟨.trailingComma, place⟩
  | item items outer, token => startValue limit place (.array items :: outer) token
  | afterItem items outer, .comma => .ok (.item items outer)
  | afterItem items outer, .closeArray => .ok (put (.array items.reverse) outer)
  | afterItem _ _, _ => .error ⟨.noItemEnd, place⟩
  | firstKey outer, .closeObject => .ok (close [] outer)
  | firstKey outer, .text name => .ok (.afterKey name [] outer)
  | firstKey _, .badText e => .error e
  | firstKey _, _ => .error ⟨.keyNoText, place⟩
  | key members outer, .text name => .ok (.afterKey name members outer)
  | key _ _, .badText e => .error e
  | key _ _, .closeObject => .error ⟨.trailingComma, place⟩
  | key _ _, _ => .error ⟨.keyNoText, place⟩
  | afterKey name members outer, .colon => .ok (.value (.object members name :: outer))
  | afterKey _ _ _, _ => .error ⟨.noColon, place⟩
  | afterMember members outer, .comma => .ok (.key members outer)
  | afterMember members outer, .closeObject => .ok (close members outer)
  | afterMember _ _, _ => .error ⟨.noMemberEnd, place⟩
  | finished _, _ => .error ⟨.trailingText, place⟩

/-- The value read when the text ends, or the fault that it ends there. -/
def finish (place : Place) : State → Except ReadError Value
  | finished result => .ok result
  | value _ => .error ⟨.endInValue, place⟩
  | firstItem _ => .error ⟨.endInArray, place⟩
  | item _ _ => .error ⟨.endInValue, place⟩
  | afterItem _ _ => .error ⟨.endInArray, place⟩
  | firstKey _ => .error ⟨.endInObject, place⟩
  | key _ _ => .error ⟨.endInValue, place⟩
  | afterKey _ _ _ => .error ⟨.endInObject, place⟩
  | afterMember _ _ => .error ⟨.endInObject, place⟩

end State

/-! ### Reading -/

/-- Reads a text from a state on. -/
def readFrom (limit : Option Nat) (state : State) (place : Place) (text : List Char) :
    Except ReadError Value :=
  match text with
  | [] => state.finish place
  | c :: rest =>
    if isBlank c then readFrom limit state (place.next c) rest
    else
      match tokenAt place text with
      | (token, length) =>
        match state.step limit (place.mark text) token with
        | .error e => .error e
        | .ok after =>
          readFrom limit after (place.advance (text.take length)) (rest.drop (length - 1))
termination_by text.length
decreasing_by
  all_goals
    simp only [List.length_cons, List.length_drop]
    omega

/-- The greatest number of brackets open at a time in a text from outside. -/
def nestingLimit : Nat := 127

/-- The value that a text spells. -/
def read (limit : Option Nat) (text : String) : Except ReadError Value :=
  readFrom limit (.value []) {} text.toList

end Stencil.Json
