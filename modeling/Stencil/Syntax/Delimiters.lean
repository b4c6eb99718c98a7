/-!
# Delimiters

An action stands between a left and a right delimiter, each of which is a non-empty text. Asking for
an empty one selects the default of its side, two braces.
-/

set_option autoImplicit false
set_option relaxedAutoImplicit false

namespace Stencil.Syntax

/-- The texts that open and close an action. Neither is empty. -/
structure Delimiters where
  left : String
  right : String
  left_ne_empty : left ≠ ""
  right_ne_empty : right ≠ ""
deriving DecidableEq, Repr

namespace Delimiters

/-- The left delimiter of a source that names none. -/
def defaultLeft : String := "\x7b\x7b"

/-- The right delimiter of a source that names none. -/
def defaultRight : String := "\x7d\x7d"

theorem defaultLeft_ne_empty : defaultLeft ≠ "" := by decide

theorem defaultRight_ne_empty : defaultRight ≠ "" := by decide

/-- The given delimiters, with the default on each side that is left empty. -/
def ofStrings (left right : String) : Delimiters where
  left := if left = "" then defaultLeft else left
  right := if right = "" then defaultRight else right
  left_ne_empty := by
    split
    · exact defaultLeft_ne_empty
    · assumption
  right_ne_empty := by
    split
    · exact defaultRight_ne_empty
    · assumption

/-- Two braces on either side. -/
def braces : Delimiters := ofStrings defaultLeft defaultRight

/-- One bracket on either side. -/
def brackets : Delimiters := ofStrings "[" "]"

instance : Inhabited Delimiters := ⟨braces⟩

/-- A left delimiter has at least one character. -/
theorem left_length_pos (delimiters : Delimiters) : 0 < delimiters.left.toList.length := by
  rw [List.length_pos_iff]
  intro h
  exact delimiters.left_ne_empty (String.toList_eq_nil_iff.mp h)

/-- A right delimiter has at least one character. -/
theorem right_length_pos (delimiters : Delimiters) : 0 < delimiters.right.toList.length := by
  rw [List.length_pos_iff]
  intro h
  exact delimiters.right_ne_empty (String.toList_eq_nil_iff.mp h)

end Delimiters

end Stencil.Syntax
