import Stencil.Data.Value
import Stencil.Exec.Fault
import Stencil.Function.Table
import Stencil.Syntax.Canonical
import Stencil.Syntax.Tree

/-!
# The state of an execution

An execution writes to a sink and keeps a stack of variables. A sink accepts writes as long as their
bytes fit into the room it has left, and keeps nothing of a write that it refuses (`Sink.write`).
The innermost variable stands first; a name means the innermost variable of that name, for reading
and for assigning.

What does not change while a template runs is its `Frame`: the tree, the functions and what a
missing key means. An error does not undo what was written before it.
-/

set_option autoImplicit false
set_option relaxedAutoImplicit false

namespace Stencil

open Syntax

/-- What a lookup of a missing key gives. -/
inductive MissingKey
  /-- Null. -/
  | default
  /-- An error. -/
  | error
deriving DecidableEq, Repr, Inhabited

/-- The meaning of the word for an option. -/
def MissingKey.ofWord? (word : String) : Option MissingKey :=
  if ["default", "invalid", "zero"].contains word then some .default
  else if word = "error" then some .error
  else none

/-- The word for an option. -/
def MissingKey.word : MissingKey → String
  | .default => "default"
  | .error => "error"

/-- The message about a word that is no option. -/
def MissingKey.unrecognized (word : String) : String :=
  "unrecognized missingkey option " ++ Diagnostic.quote word

namespace Exec

/-! ### The sink -/

/-- Where output goes: the writes accepted so far, the last one first, and the bytes that still fit.
-/
structure Sink where
  writes : List String := []
  room : Option Nat := none
deriving Repr

namespace Sink

/-- A sink that accepts at most the given number of bytes. -/
def limited (limit : Option Nat) : Sink := { room := limit }

/-- Everything that was accepted. -/
def output (sink : Sink) : String := String.join sink.writes.reverse

/-- The sink after a write, unless it refuses. An empty text is not written. -/
def write (sink : Sink) (text : String) : Option Sink :=
  if text = "" then some sink
  else
    match sink.room with
    | none => some ⟨text :: sink.writes, none⟩
    | some room =>
      if text.utf8ByteSize ≤ room then
        some ⟨text :: sink.writes, some (room - text.utf8ByteSize)⟩
      else none

end Sink

/-! ### Variables -/

/-- Variables, the innermost first. -/
abbrev Scope := List (String × Value)

namespace Scope

/-- The value of a name. -/
def find? (scope : Scope) (name : String) : Option Value :=
  (List.find? (·.1 = name) scope).map Prod.snd

/-- The variables with a new value for a name, if there is one. -/
def assign (name : String) (value : Value) : Scope → Option Scope
  | [] => none
  | slot :: rest =>
    if slot.1 = name then some ((name, value) :: rest)
    else (assign name value rest).map (slot :: ·)

/-- The variables with a new value for the one at a place, counted from the innermost. -/
def setAt (scope : Scope) (place : Nat) (value : Value) : Scope :=
  List.modify scope place fun slot => (slot.1, value)

/-- The outermost variables, as many as given. -/
def keep (scope : Scope) (count : Nat) : Scope := scope.drop (scope.length - count)

/-- The variables at the start of a template: the dollar sign stands for its data. -/
def initial (data : Value) : Scope := [("$", data)]

end Scope

/-! ### Executions -/

/-- What changes during an execution. -/
structure State where
  scope : Scope
  sink : Sink

/-- What does not change while a template runs. -/
structure Frame where
  tree : Tree
  functions : FunctionTable
  missingKey : MissingKey

end Exec

/-- A step of an execution. -/
abbrev Exec (α : Type) : Type := ExceptT ExecError (StateM Exec.State) α

namespace Exec

/-- Fails at a node. -/
def fail {α : Type} (frame : Frame) (node : Node) (fault : EvalFault) : Exec α :=
  throw (.eval ⟨frame.tree.parseName, node.position.line, frame.tree.name, node.canonical, fault⟩)

/-- Writes a text to the sink. -/
def emit (text : String) : Exec Unit := do
  let state ← get
  match state.sink.write text with
  | some sink => set { state with sink := sink }
  | none => throw .sinkFull

/-- The visible variables. -/
def scope : Exec Scope := do return (← get).scope

/-- Replaces the visible variables. -/
def setScope (scope : Scope) : Exec Unit := modify fun state => { state with scope := scope }

/-- The name of a variable that is looked for. -/
def nameOf (frame : Frame) (sought : Variable) : Exec String :=
  match sought.name? with
  | some name => return name
  | none => fail frame (.var sought) .namelessVariable

/-- Makes a variable visible. -/
def declare (frame : Frame) (target : Variable) (value : Value) : Exec Unit := do
  let name ← nameOf frame target
  setScope ((name, value) :: (← scope))

/-- Gives a variable a new value. -/
def assign (frame : Frame) (target : Variable) (value : Value) : Exec Unit := do
  let name ← nameOf frame target
  match (← scope).assign name value with
  | some changed => setScope changed
  | none => fail frame (.var target) (.undefinedVariable name)

/-- The value of a variable. -/
def read (frame : Frame) (reference : Variable) : Exec Value := do
  let name ← nameOf frame reference
  match (← scope).find? name with
  | some value => return value
  | none => fail frame (.var reference) (.undefinedVariable name)

/-- Runs a step and forgets the variables that it declared. -/
def withScope {α : Type} (step : Exec α) : Exec α := do
  let outer := (← scope).length
  let result ← step
  setScope ((← scope).keep outer)
  return result

end Exec

end Stencil
