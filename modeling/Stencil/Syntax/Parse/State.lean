import Stencil.Syntax.Parse.Error
import Stencil.Syntax.Tree

/-!
# The state of a parse

A parse reads items from the front of a list and remembers the line of the last one it read, which
is the line that a fault names. Beside the items it keeps the variables that are visible, the
innermost first, the trees found so far, the line of the action it is in, and two depths: that of
the loops around it and that of the bodies and parentheses.

A reading of a part of the grammar is a value and the state after it, together with the fact that
items were consumed (`Reading`). That fact is what makes the recursion of the grammar end.
-/

set_option autoImplicit false
set_option relaxedAutoImplicit false

namespace Stencil.Syntax.Parse

/-- What does not change during a parse: the template's name and the functions that may be called.
-/
structure Setting where
  template : String
  isFunction : String → Bool

/-- The state of a parse. -/
structure State where
  /-- The line of the last item read. -/
  line : Nat
  /-- The items not yet read. -/
  rest : List Item
  /-- The names of the visible variables, the innermost first. -/
  visible : List String
  trees : TreeSet
  /-- The line of the current action. -/
  actionLine : Option Nat
  loopDepth : Nat
  depth : Nat

/-- The greatest nesting of bodies and parentheses. -/
def maxDepth : Nat := 200

/-! ### Progress -/

namespace State

/-- That fewer items are left than before. -/
abbrev Shorter (after before : State) : Prop := after.rest.length < before.rest.length

/-- That no more items are left than before. -/
abbrev NotLonger (after before : State) : Prop := after.rest.length ≤ before.rest.length

theorem Shorter.trans {start middle after : State} (first : middle.Shorter start)
    (second : after.Shorter middle) : after.Shorter start :=
  Nat.lt_trans second first

theorem Shorter.trans_notLonger {start middle after : State} (first : middle.Shorter start)
    (second : after.NotLonger middle) : after.Shorter start :=
  Nat.lt_of_le_of_lt second first

theorem Shorter.notLonger {start after : State} (h : after.Shorter start) :
    after.NotLonger start :=
  Nat.le_of_lt h

theorem NotLonger.refl (s : State) : s.NotLonger s := Nat.le_refl _

theorem NotLonger.trans {start middle after : State} (first : middle.NotLonger start)
    (second : after.NotLonger middle) : after.NotLonger start :=
  Nat.le_trans second first

theorem NotLonger.trans_shorter {start middle after : State} (first : middle.NotLonger start)
    (second : after.Shorter middle) : after.Shorter start :=
  Nat.lt_of_lt_of_le second first

end State

/-- A value read from the front of the items, and the state after it. -/
structure Reading (α : Type) (start : State) where
  value : α
  state : State
  shorter : state.Shorter start

/-- A value that may have been read from no items at all. -/
structure Maybe (α : Type) (start : State) where
  value : α
  state : State
  notLonger : state.NotLonger start

/-! ### Items -/

namespace State

/-- The state at the start of a source. -/
def initial (items : List Item) : State where
  line := (items.head?.map (·.position.line)).getD 1
  rest := items
  visible := ["$"]
  trees := {}
  actionLine := none
  loopDepth := 0
  depth := 0

/-- The item that stands for the end when no item is left. -/
def exhausted : Item := ⟨.eof, {}, ""⟩

/-- The next item. -/
def peek (s : State) : Item := s.rest.headD exhausted

/-- The state after one item. -/
def advance (s : State) : State :=
  match s.rest with
  | [] => s
  | item :: rest => { s with line := item.position.line, rest := rest }

/-- Reads the spaces at the front of some items. -/
def skipFrom (line : Nat) : List Item → Nat × List Item
  | [] => (line, [])
  | item :: rest =>
    if item.kind = .space then skipFrom item.position.line rest else (line, item :: rest)

/-- The state after the spaces at the front. -/
def skipSpaces (s : State) : State :=
  let (line, rest) := skipFrom s.line s.rest
  { s with line := line, rest := rest }

/-- A fault at the last item read. -/
def fail {α : Type} (setting : Setting) (s : State) (fault : ParseFault) : Except ParseError α :=
  .error ⟨setting.template, s.line, fault⟩

/-- A fault about the item that was read last. An item that is an error speaks for itself, and names
the action's line if that is another. -/
def unexpected {α : Type} (setting : Setting) (s : State) (item : Item) (clause : Clause) :
    Except ParseError α :=
  if item.kind = .error then
    s.fail setting (.unreadable item.value (s.actionLine.filter (· ≠ item.position.line)))
  else s.fail setting (.unexpected item clause)

/-- Skipping spaces leaves no more items. -/
theorem skipFrom_length_le (line : Nat) (items : List Item) :
    (skipFrom line items).2.length ≤ items.length := by
  induction items generalizing line with
  | nil => simp [skipFrom]
  | cons item rest ih =>
    simp only [skipFrom]
    split
    · exact Nat.le_trans (ih _) (Nat.le_succ _)
    · exact Nat.le_refl _

theorem advance_notLonger (s : State) : s.advance.NotLonger s := by
  match found : s.rest with
  | [] => simp [advance, found]
  | item :: rest => simp [advance, found]

theorem skipSpaces_notLonger (s : State) : s.skipSpaces.NotLonger s :=
  skipFrom_length_le s.line s.rest

theorem Shorter.ofAdvance {s after : State} (h : after.Shorter s.advance) : after.Shorter s :=
  s.advance_notLonger.trans_shorter h

theorem NotLonger.ofAdvance {s after : State} (h : after.NotLonger s.advance) :
    after.NotLonger s :=
  s.advance_notLonger.trans h

theorem Shorter.ofSkipSpaces {s after : State} (h : after.Shorter s.skipSpaces) :
    after.Shorter s :=
  s.skipSpaces_notLonger.trans_shorter h

theorem NotLonger.ofSkipSpaces {s after : State} (h : after.NotLonger s.skipSpaces) :
    after.NotLonger s :=
  s.skipSpaces_notLonger.trans h

/-- Reading an item leaves fewer. -/
theorem advance_shorter {s : State} (h : s.rest ≠ []) : s.advance.Shorter s := by
  match found : s.rest with
  | [] => exact absurd found h
  | item :: rest => simp [advance, found]

theorem advance_skipSpaces_shorter {s : State} (h : s.skipSpaces.rest ≠ []) :
    s.skipSpaces.advance.Shorter s :=
  (advance_shorter h).ofSkipSpaces

/-- Reads the next item after spaces. -/
def next (s : State) : Option (Reading Item s) :=
  if h : s.skipSpaces.rest ≠ [] then
    some ⟨s.skipSpaces.peek, s.skipSpaces.advance, advance_skipSpaces_shorter h⟩
  else none

end State

/-- Reads the next item after spaces, which must not be missing. -/
def nextItem (setting : Setting) (s : State) (clause : Clause) :
    Except ParseError (Reading Item s) :=
  match s.next with
  | some reading => .ok reading
  | none => s.unexpected setting State.exhausted clause

/-- Reads the next item after spaces, which must be of one of the given kinds. -/
def expect (setting : Setting) (s : State) (kinds : List ItemKind) (clause : Clause) :
    Except ParseError (Reading Item s) := do
  let reading ← nextItem setting s clause
  if kinds.contains reading.value.kind then return reading
  else reading.state.unexpected setting reading.value clause

/-- The value of a literal that was just read. -/
def literalValue (setting : Setting) (s : State) (item : Item) : Except ParseError String :=
  match Literal.unquote item.value with
  | some text => .ok text
  | none => s.fail setting (.badLiteral item.value)

/-- Refuses to go a level deeper than the greatest depth. -/
def checkDepth (setting : Setting) (s : State) : Except ParseError Unit :=
  if maxDepth ≤ s.depth then s.fail setting .tooDeep else .ok ()

/-- The state one level deeper. -/
def State.enter (s : State) : State := { s with depth := s.depth + 1 }

/-- The state one level less deep. -/
def State.leave (s : State) : State := { s with depth := s.depth - 1 }

/-- The trees found with a further one. A name has at most one tree with content. -/
def define (setting : Setting) (s : State) (tree : Tree) : Except ParseError TreeSet :=
  if s.trees.hasContent tree.name && !tree.isEmpty then
    s.fail setting (.redefined tree.name)
  else .ok (s.trees.merge tree)

end Stencil.Syntax.Parse
