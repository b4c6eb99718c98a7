import Stencil.Number.Binary64

/-!
# Data values

Templates render data in the shape of JSON: null, truth values, numbers, texts, arrays and objects.
A number is an integer or a floating-point number; an integer with a signed form of 64 bits counts
as signed, a greater one as unsigned. The members of an object stand in the order of their keys,
each key once; `Value.ofMembers` puts any members into that form, the last one of a key winning.

`Value.isTrue` is what a condition makes of a value, and `Value.typeName` how messages name its
type.
-/

set_option autoImplicit false
set_option relaxedAutoImplicit false

namespace Stencil

open Number

/-- A data value. -/
inductive Value
  | null
  | bool (value : Bool)
  | int (value : Int)
  | float (value : Binary64)
  | string (text : String)
  | array (items : List Value)
  | object (members : List (String × Value))
deriving Repr, Inhabited

namespace Value

/-- Whether a condition takes a value for true: everything but null, false, zero and what is
empty. -/
def isTrue : Value → Bool
  | null => false
  | bool value => value
  | int value => value ≠ 0
  | float value => !value.isZero
  | string text => text ≠ ""
  | array items => !items.isEmpty
  | object members => !members.isEmpty

/-- How messages name the type of a value. -/
def typeName : Value → String
  | null => "nil"
  | bool _ => "bool"
  | int value => if value < Word.signedLimit then "int" else "uint64"
  | float _ => "float64"
  | string _ => "string"
  | array _ => "[]interface \x7b\x7d"
  | object _ => "map[string]interface \x7b\x7d"

/-- A floating-point number as a value. What is not finite has none and gives null. -/
def ofFloat (x : Binary64) : Value := if x.isFinite then float x else null

/-- The signed integer that a value is. -/
def signed? : Value → Option Int
  | int value => if value < Word.signedLimit then some value else none
  | _ => none

/-! ### Objects -/

/-- The value of a key among members. -/
def lookup (key : String) : List (String × Value) → Option Value
  | [] => none
  | (name, value) :: rest => if name = key then some value else lookup key rest

/-- The value of a key, if the value is an object that has it. -/
def member? (value : Value) (key : String) : Option Value :=
  match value with
  | object members => lookup key members
  | _ => none

/-- Members in the order of their keys with one more, in place of the one of its key. -/
def insertMember (key : String) (value : Value) :
    List (String × Value) → List (String × Value)
  | [] => [(key, value)]
  | (name, other) :: rest =>
    if key < name then (key, value) :: (name, other) :: rest
    else if key = name then (key, value) :: rest
    else (name, other) :: insertMember key value rest

/-- The object of the given members, the last one of each key. -/
def ofMembers (members : List (String × Value)) : Value :=
  object (members.foldl (fun sorted member => insertMember member.1 member.2 sorted) [])

mutual

/-- A value with the members of every object in it in the order of their keys. -/
def sorted : Value → Value
  | array items => array (sortedItems items)
  | object members => ofMembers (sortedMembers members)
  | value => value

/-- Values with the members of every object in order. -/
def sortedItems : List Value → List Value
  | [] => []
  | item :: rest => item.sorted :: sortedItems rest

/-- Members whose values have the members of every object in order. -/
def sortedMembers : List (String × Value) → List (String × Value)
  | [] => []
  | (key, value) :: rest => (key, value.sorted) :: sortedMembers rest

end

theorem sizeOf_lookup {key : String} {members : List (String × Value)} {value : Value}
    (found : lookup key members = some value) : sizeOf value < sizeOf members := by
  induction members with
  | nil => simp [lookup] at found
  | cons member rest ih =>
    obtain ⟨name, other⟩ := member
    simp only [lookup] at found
    split at found
    · cases found
      simp
      omega
    · have := ih found
      simp
      omega

/-- A member is smaller than the object that has it. -/
theorem sizeOf_member? {value item : Value} {key : String}
    (found : value.member? key = some item) : sizeOf item < sizeOf value := by
  cases value with
  | object members =>
    have := sizeOf_lookup (show lookup key members = some item from found)
    simp
    omega
  | _ => simp [member?] at found

end Value

end Stencil
