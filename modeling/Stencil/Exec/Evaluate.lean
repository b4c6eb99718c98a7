import Stencil.Exec.State

/-!
# Evaluating pipelines

A pipeline evaluates its commands in turn, each with the value of the one before as its last
argument, and gives the last value to the variables that it declares or assigns (`evalPipeline`).
What the first operand of a command is decides how the command is evaluated (`evalCommand`): the
name of a function is called with the other operands, and anything else is a value that takes no
arguments. An operand in another place is evaluated on its own (`evalOperand`).

A path of fields is followed one field at a time (`fieldPath`). A function that may decide early
evaluates no operand after the one that decides (`evalDeciding`).
-/

set_option autoImplicit false
set_option relaxedAutoImplicit false

namespace Stencil.Exec

open Syntax

/-! ### Fields -/

/-- One field of a value. Arguments after it are refused, since no field can take them. -/
def fieldOf (frame : Frame) (node : Node) (given : Bool) (receiver : Value) (name : String) :
    Exec Value :=
  match receiver with
  | .object members =>
    if given then fail frame node (.fieldArguments name)
    else
      match Value.lookup name members, frame.missingKey with
      | some value, _ => return value
      | none, .error => fail frame node (.missingKey name)
      | none, .default => return .null
  | .null =>
    match frame.missingKey with
    | .error => fail frame node (.nullData name)
    | .default => return .null
  | _ => fail frame node (.noFields name receiver.typeName)

/-- The fields of a path, one of the next. Arguments belong to the last field. -/
def fieldPath (frame : Frame) (node : Node) (given : Bool) (receiver : Value) :
    List String → Exec Value
  | [] => return receiver
  | name :: rest => do
    let value ← fieldOf frame node (given && rest.isEmpty) receiver name
    fieldPath frame node given value rest

/-- A variable with the fields taken of it. -/
def evalVariable (frame : Frame) (given : Bool) (operand : Node) (reference : Variable) :
    Exec Value := do
  let value ← read frame reference
  match reference.path with
  | [_] => if given then fail frame operand (.notFunction operand.canonical) else return value
  | path => fieldPath frame (.var reference) given value (path.drop 1)

/-! ### Functions -/

/-- The value of a number: its signed reading, else its unsigned one, else the floating-point one.
-/
def numberValue (literal : NumberLiteral) : Value :=
  match literal.signed, literal.unsigned, literal.float with
  | some n, _, _ => .int n
  | none, some n, _ => .int n
  | none, none, some x => .ofFloat x
  | none, none, none => .float ⟨0⟩

/-- Calls a function with evaluated arguments. -/
def callFunction (frame : Frame) (node : Node) (name : String) (function : Function)
    (arguments : List Value) : Exec Value :=
  match function arguments with
  | .ok value => return value
  | .error fault => fail frame node (.call name fault)

/-- The operands of a call, not yet evaluated. -/
structure Operands where
  /-- Whether there are none. -/
  isEmpty : Bool
  /-- All their values. -/
  values : Exec (List Value)
  /-- The first value of the given truth, or the last value, and whether it has that truth. -/
  deciding : Bool → Exec (Bool × Value)

/-- No operands. -/
def Operands.none : Operands := ⟨true, return [], fun _ => return (false, .null)⟩

/-- Calls a name with operands and the value passed on. -/
def callNamed (frame : Frame) (position : Position) (name : String) (last : Option Value)
    (operands : Operands) : Exec Value :=
  let node : Node := .identifier position name
  match frame.functions.resolve? name with
  | none => fail frame node (.undefinedFunction name)
  | some (.provided function) => do
    let arguments ← operands.values
    callFunction frame node name function (arguments ++ last.toList)
  | some (.builtin builtin) =>
    match builtin.stopsAt with
    | some stop =>
      if operands.isEmpty && last.isNone then
        fail frame node (.noOperands (.arity builtin.name (.atLeast 1) 0))
      else do
        let (decided, value) ← operands.deciding stop
        return if decided then value else last.getD value
    | none => do
      let arguments ← operands.values
      callFunction frame node name builtin.call (arguments ++ last.toList)

/-- Gives the value of a pipeline to its variables. -/
def bindVariables (frame : Frame) (isAssign : Bool) (value : Value) : List Variable → Exec Unit
  | [] => return ()
  | target :: rest => do
    if isAssign then assign frame target value else declare frame target value
    bindVariables frame isAssign value rest

/-! ### Pipelines -/

mutual

/-- The value of a pipeline. -/
def evalPipeline (frame : Frame) (dot : Value) : Pipeline → Exec Value
  | ⟨_, isAssign, targets, commands⟩ => do
    let value := (← evalCommands frame dot none commands).getD .null
    bindVariables frame isAssign value targets
    return value

/-- The value of the last of some commands, where `last` is that of the one before them. -/
def evalCommands (frame : Frame) (dot : Value) (last : Option Value) :
    List Command → Exec (Option Value)
  | [] => return last
  | command :: rest => do
    let value ← evalCommand frame dot last command
    evalCommands frame dot (some value) rest

/-- The value of a command, which `last` is passed on to. -/
def evalCommand (frame : Frame) (dot : Value) (last : Option Value) : Command → Exec Value
  | ⟨position, []⟩ => fail frame (.command ⟨position, []⟩) .emptyCommand
  | ⟨_, first :: rest⟩ =>
    let given := !rest.isEmpty || last.isSome
    match first with
    | .identifier position name =>
      callNamed frame position name last
        ⟨rest.isEmpty, evalOperands frame dot rest,
          fun stop => evalDeciding frame dot stop .null rest⟩
    | .field _ path => fieldPath frame first given dot path
    | .chain _ base path =>
      match path, base with
      | [], _ => fail frame first .emptyChain
      | _, .nil _ => fail frame first (.nilChain first.canonical)
      | _, _ => do
        let receiver ← evalOperand frame dot base
        fieldPath frame first given receiver path
    | .var reference => evalVariable frame given first reference
    | .pipeline inner =>
      if given then fail frame first (.notFunction first.canonical)
      else evalPipeline frame dot inner
    | _ =>
      if given then fail frame first (.notFunction first.canonical)
      else
        match first with
        | .bool _ value => return .bool value
        | .dot _ => return dot
        | .nil _ => fail frame first .nilCommand
        | .number literal => return numberValue literal
        | .string _ _ text => return .string text
        | _ => fail frame first (.unknownCommand first.canonical)

/-- The values of operands. -/
def evalOperands (frame : Frame) (dot : Value) : List Node → Exec (List Value)
  | [] => return []
  | operand :: rest => do
    let value ← evalOperand frame dot operand
    return value :: (← evalOperands frame dot rest)

/-- The first value whose truth is `stop`, or that of the last operand, and whether it decides.
Without operands it is the value given. -/
def evalDeciding (frame : Frame) (dot : Value) (stop : Bool) (value : Value) :
    List Node → Exec (Bool × Value)
  | [] => return (false, value)
  | operand :: rest => do
    let next ← evalOperand frame dot operand
    if next.isTrue = stop then return (true, next) else evalDeciding frame dot stop next rest

/-- The value of an operand on its own. -/
def evalOperand (frame : Frame) (dot : Value) : Node → Exec Value
  | .dot _ => return dot
  | .nil _ => return .null
  | .bool _ value => return .bool value
  | .number literal => return numberValue literal
  | .string _ _ text => return .string text
  | .field position path => fieldPath frame (.field position path) false dot path
  | .var reference => evalVariable frame false (.var reference) reference
  | .pipeline inner => evalPipeline frame dot inner
  | .identifier position name => callNamed frame position name none .none
  | .chain position base path =>
    match path, base with
    | [], _ => fail frame (.chain position base path) .emptyChain
    | _, .nil _ =>
      fail frame (.chain position base path) (.nilChain (Node.chain position base path).canonical)
    | _, _ => do
      let receiver ← evalOperand frame dot base
      fieldPath frame (.chain position base path) false receiver path
  | node => fail frame node (.unknownArgument node.canonical)

end

end Stencil.Exec
