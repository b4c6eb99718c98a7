/-!
# Positions in a source

A position is a byte offset together with the line it lies on. Lines are counted from one, and a
line end belongs to the line that it ends. Reading a stretch of text moves a position on by the
bytes and the line ends of that text (`advance_offset`, `advance_line`), and reading two stretches
one after the other is reading their concatenation (`advance_append`).
-/

set_option autoImplicit false
set_option relaxedAutoImplicit false

namespace Stencil.Syntax

/-- A place in a source: how many bytes precede it, and its line. -/
structure Position where
  offset : Nat := 0
  line : Nat := 1
deriving DecidableEq, Repr, Inhabited

namespace Position

/-- The position after one character. -/
def next (position : Position) (c : Char) : Position :=
  ⟨position.offset + c.utf8Size, if c = '\n' then position.line + 1 else position.line⟩

/-- The position after a stretch of text. -/
def advance (position : Position) (text : List Char) : Position :=
  text.foldl next position

/-- The line and the offset, joined by an at sign. -/
def describe (position : Position) : String :=
  toString position.line ++ "@" ++ toString position.offset

@[simp]
theorem advance_nil (position : Position) : position.advance [] = position := rfl

@[simp]
theorem advance_cons (position : Position) (c : Char) (text : List Char) :
    position.advance (c :: text) = (position.next c).advance text := rfl

/-- Reading two texts in turn is reading their concatenation. -/
theorem advance_append (position : Position) (first second : List Char) :
    position.advance (first ++ second) = (position.advance first).advance second :=
  List.foldl_append

/-- The offset grows by the bytes of the text. -/
theorem advance_offset (position : Position) (text : List Char) :
    (position.advance text).offset = position.offset + (String.ofList text).utf8ByteSize := by
  induction text generalizing position with
  | nil => simp
  | cons c rest ih =>
    rw [advance_cons, ih, String.ofList_cons, String.utf8ByteSize_append,
      String.utf8ByteSize_singleton, ← Nat.add_assoc, next]

/-- The line grows by the line ends of the text. -/
theorem advance_line (position : Position) (text : List Char) :
    (position.advance text).line = position.line + text.count '\n' := by
  induction text generalizing position with
  | nil => simp
  | cons c rest ih =>
    by_cases h : c = '\n'
    · simp [ih, next, h]
      omega
    · simp [ih, next, h]

end Position

end Stencil.Syntax
