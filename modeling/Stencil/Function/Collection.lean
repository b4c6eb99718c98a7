import Stencil.Function.Fault
import Stencil.Text.Bytes

/-!
# Lengths, items and parts

The length of a text is that of its bytes; arrays and objects have as many items as they hold. An
item is taken by an index from zero up to the length, or from an object by a key, where a missing
one gives null. A part is taken by two bounds up to the length, the lower one first; a part of a
text may not split a character.
-/

set_option autoImplicit false
set_option relaxedAutoImplicit false

namespace Stencil.Value

/-- The number of bytes of a text, or of items of an array or an object. -/
def length (value : Value) : Except CallFault Nat :=
  match value with
  | string text => .ok text.utf8ByteSize
  | array items => .ok items.length
  | object members => .ok members.length
  | null => .error .lengthOfNil
  | _ => .error (.lengthOf value.typeName)

/-- A key as an index below `size`. -/
def index (size : Nat) (key : Value) : Except CallFault Nat :=
  match key.signed? with
  | none => .error (.indexType key.typeName)
  | some n => if 0 ≤ n && n.toNat < size then .ok n.toNat else .error (.indexRange n)

/-- The item of a value under a key. -/
def item (value key : Value) : Except CallFault Value :=
  match value with
  | array items => do
    let i ← key.index items.length
    return items.getD i null
  | string text => do
    let i ← key.index text.utf8ByteSize
    return int (((bytesOf text.toList)[i]?).getD 0).toNat
  | object members =>
    match key with
    | string name => .ok ((lookup name members).getD null)
    | _ => .error (.keyType key.typeName)
  | null => .error .indexOfNil
  | _ => .error (.indexOf value.typeName)

/-- The bound that a key gives, or the default without a key. -/
def bound (size default : Nat) : Option Value → Except CallFault Nat
  | none => .ok default
  | some key => key.index (size + 1)

/-- The two bounds of a part of a value with `size` items. -/
def bounds (size : Nat) (keys : List Value) : Except CallFault (Nat × Nat) := do
  let low ← bound size 0 keys[0]?
  let high ← bound size size keys[1]?
  if high < low then .error (.sliceOrder low high) else return (low, high)

/-- The part of a text between two indices. -/
def textSlice (text : String) (low high : Nat) : Except CallFault String :=
  match splitAtByte low text.toList with
  | none => .error .splitsCharacter
  | some (_, rest) =>
    match splitAtByte (high - low) rest with
    | none => .error .splitsCharacter
    | some (part, _) => .ok (String.ofList part)

/-- The part of a value that at most two keys bound. -/
def slice (value : Value) (keys : List Value) : Except CallFault Value :=
  match value with
  | array items => do
    let (low, high) ← bounds items.length keys
    return array ((items.take high).drop low)
  | string text => do
    let (low, high) ← bounds text.utf8ByteSize keys
    return string (← textSlice text low high)
  | null => .error .sliceOfNil
  | _ => .error (.sliceOf value.typeName)

end Stencil.Value
