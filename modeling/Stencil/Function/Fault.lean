import Stencil.Data.Compare

/-!
# Why a function fails

A function that cannot take its arguments fails with a cause, whose wording is `CallFault.message`.
A function from outside the library fails with a text of its own.
-/

set_option autoImplicit false
set_option relaxedAutoImplicit false

namespace Stencil

/-- How many arguments a function takes. -/
inductive Arity
  | exactly (count : Nat)
  | atLeast (count : Nat)
deriving DecidableEq, Repr

/-- Whether a number of arguments is right. -/
def Arity.allows : Arity → Nat → Bool
  | exactly count, given => given = count
  | atLeast count, given => count ≤ given

/-- The words for a number of arguments. -/
def Arity.describe : Arity → String
  | exactly count => toString count
  | atLeast count => "at least " ++ toString count

/-- What is wrong with a call. -/
inductive CallFault
  | arity (name : String) (wanted : Arity) (given : Nat)
  | comparison (fault : ComparisonFault)
  | nothingToCompare
  | lengthOfNil
  | lengthOf (type : String)
  | indexOfNil
  | indexOf (type : String)
  /-- A key of an object that is no text. -/
  | keyType (type : String)
  /-- An index that is no integer. -/
  | indexType (type : String)
  | indexRange (index : Int)
  | sliceOfNil
  | sliceOf (type : String)
  | tooManyIndexes (count : Nat)
  | sliceOrder (low high : Nat)
  | splitsCharacter
  | formatType (type : String)
  /-- The fault of a function from outside. -/
  | other (text : String)
deriving DecidableEq, Repr

/-- The wording of a fault. -/
def CallFault.message : CallFault → String
  | arity name wanted given =>
    "wrong number of args for " ++ name ++ ": want " ++ wanted.describe ++ " got " ++ toString given
  | comparison fault => fault.message
  | nothingToCompare => "missing argument for comparison"
  | lengthOfNil => "len of nil pointer"
  | lengthOf type => "len of type " ++ type
  | indexOfNil => "index of untyped nil"
  | indexOf type => "can't index item of type " ++ type
  | keyType type => "value has type " ++ type ++ "; should be string"
  | indexType type => "cannot index slice/array with type " ++ type
  | indexRange index => "index out of range: " ++ toString index
  | sliceOfNil => "slice of untyped nil"
  | sliceOf type => "can't slice item of type " ++ type
  | tooManyIndexes count => "too many slice indexes: " ++ toString count
  | sliceOrder low high => "invalid slice index: " ++ toString low ++ " > " ++ toString high
  | splitsCharacter => "slice splits a character"
  | formatType type => "printf format has type " ++ type ++ "; should be string"
  | other text => text

/-- A function on data values. -/
abbrev Function := List Value → Except CallFault Value

end Stencil
