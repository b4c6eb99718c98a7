import Stencil.Proofs.Execution.Steps

/-!
# Steps that leave the sink alone

Evaluating a pipeline neither looks at the sink nor writes to it: what it gives, and which variables
it leaves, depends on the variables before it alone (`Silent`). Steps that are made of silent steps
are silent, and so are all that the evaluator makes of them (`Silent.evalPipeline`) and the steps of
a loop between its rounds (`Silent.loopItems`, `Silent.bindRound`). Only a write is not.
-/

set_option autoImplicit false
set_option relaxedAutoImplicit false

namespace Stencil.Exec

open Syntax

/-- That a step neither looks at the sink nor writes to it. -/
def Silent {α : Type} (step : Exec α) : Prop :=
  ∀ before : Scope, ∃ (result : Except ExecError α) (after : Scope),
    ∀ sink : Sink, step.run ⟨before, sink⟩ = (result, ⟨after, sink⟩)

namespace Silent

/-! ### Rules -/

section Rules

variable {α β : Type} {frame : Frame}

theorem pure (value : α) : Silent (return value) := fun before ↦ ⟨.ok value, before, fun _ ↦ rfl⟩

theorem fail (frame : Frame) (node : Node) (fault : EvalFault) :
    Silent (fail (α := α) frame node fault) :=
  fun before ↦ ⟨.error (faultAt frame node fault), before, fun _ ↦ rfl⟩

theorem bind {first : Exec α} {next : α → Exec β} (hfirst : Silent first)
    (hnext : ∀ value, Silent (next value)) : Silent (first >>= next) := by
  intro before
  obtain ⟨error | value, middle, hmiddle⟩ := hfirst before
  · refine ⟨.error error, middle, fun sink ↦ ?_⟩
    rw [run_bind, hmiddle]
  · obtain ⟨result, after, hafter⟩ := hnext value middle
    refine ⟨result, after, fun sink ↦ ?_⟩
    rw [run_bind, hmiddle]
    exact hafter sink

theorem scope : Silent scope := fun before ↦ ⟨.ok before, before, fun _ ↦ rfl⟩

theorem setScope (inner : Scope) : Silent (setScope inner) :=
  fun _ ↦ ⟨.ok (), inner, fun _ ↦ rfl⟩

theorem ite {condition : Prop} [Decidable condition] {first second : Exec α} (hthen : Silent first)
    (helse : Silent second) : Silent (if condition then first else second) := by
  split
  · exact hthen
  · exact helse

end Rules

/-! ### Fields, variables and calls -/

section Basic

variable (frame : Frame)

theorem nameOf (sought : Variable) : Silent (nameOf frame sought) := by
  unfold Exec.nameOf
  split
  · exact pure _
  · exact fail frame _ _

theorem read (reference : Variable) : Silent (read frame reference) := by
  refine bind (nameOf frame reference) fun name ↦ bind scope fun visible ↦ ?_
  split
  · exact pure _
  · exact fail frame _ _

theorem assign (target : Variable) (value : Value) : Silent (assign frame target value) := by
  refine bind (nameOf frame target) fun name ↦ bind scope fun visible ↦ ?_
  split
  · exact setScope _
  · exact fail frame _ _

theorem declare (target : Variable) (value : Value) : Silent (declare frame target value) :=
  bind (nameOf frame target) fun _ ↦ bind scope fun _ ↦ setScope _

theorem fieldOf (node : Node) (given : Bool) (receiver : Value) (name : String) :
    Silent (fieldOf frame node given receiver name) := by
  unfold Exec.fieldOf
  split
  · refine ite (fail frame _ _) ?_
    split
    · exact pure _
    · exact fail frame _ _
    · exact pure _
  · split
    · exact fail frame _ _
    · exact pure _
  · exact fail frame _ _

theorem fieldPath (node : Node) (given : Bool) (receiver : Value) (path : List String) :
    Silent (fieldPath frame node given receiver path) := by
  induction path generalizing receiver with
  | nil => exact pure receiver
  | cons name rest ih => exact bind (fieldOf frame node _ receiver name) ih

theorem evalVariable (given : Bool) (operand : Node) (reference : Variable) :
    Silent (evalVariable frame given operand reference) := by
  unfold Exec.evalVariable
  refine bind (read frame reference) fun value ↦ ?_
  split
  · exact ite (fail frame _ _) (pure _)
  · exact fieldPath frame _ _ _ _

theorem callFunction (node : Node) (name : String) (function : Function) (arguments : List Value) :
    Silent (callFunction frame node name function arguments) := by
  unfold Exec.callFunction
  split
  · exact pure _
  · exact fail frame _ _

/-- A call is silent if its operands are in every way in which it evaluates them. -/
theorem callNamed (position : Position) (name : String) (last : Option Value) {operands : Operands}
    (hvalues : Silent operands.values) (hdeciding : ∀ stop, Silent (operands.deciding stop)) :
    Silent (callNamed frame position name last operands) := by
  unfold Exec.callNamed
  split
  · exact fail frame _ _
  · exact bind hvalues fun arguments ↦ callFunction frame _ _ _ _
  · split
    · exact ite (fail frame _ _) (bind (hdeciding _) fun _ ↦ pure _)
    · exact bind hvalues fun arguments ↦ callFunction frame _ _ _ _

theorem bindVariables (isAssign : Bool) (value : Value) (targets : List Variable) :
    Silent (bindVariables frame isAssign value targets) := by
  induction targets with
  | nil => exact pure ()
  | cons target rest ih =>
    cases isAssign with
    | true => exact bind (assign frame target value) fun _ ↦ ih
    | false => exact bind (declare frame target value) fun _ ↦ ih

end Basic

/-! ### Pipelines -/

mutual

/-- Evaluating a pipeline leaves the sink alone. -/
theorem evalPipeline (frame : Frame) (dot : Value) : (pipeline : Pipeline) →
    Silent (evalPipeline frame dot pipeline)
  | ⟨_, isAssign, targets, commands⟩ =>
    bind (evalCommands frame dot none commands) fun _ ↦
      bind (bindVariables frame isAssign _ targets) fun _ ↦ pure _

/-- Evaluating commands leaves the sink alone. -/
theorem evalCommands (frame : Frame) (dot : Value) (last : Option Value) :
    (commands : List Command) → Silent (evalCommands frame dot last commands)
  | [] => pure last
  | command :: rest =>
    bind (evalCommand frame dot last command) fun value ↦ evalCommands frame dot (some value) rest

/-- Evaluating a command leaves the sink alone. -/
theorem evalCommand (frame : Frame) (dot : Value) (last : Option Value) : (command : Command) →
    Silent (evalCommand frame dot last command)
  | ⟨_, []⟩ => fail frame _ _
  | ⟨_, .identifier position name :: rest⟩ =>
    callNamed frame position name last (evalOperands frame dot rest)
      fun stop ↦ evalDeciding frame dot stop .null rest
  | ⟨_, .field position path :: _⟩ => fieldPath frame (.field position path) _ dot path
  | ⟨_, .chain _ _ [] :: _⟩ => fail frame _ _
  | ⟨start, .chain position base (name :: path) :: rest⟩ => by
    by_cases hbase : ∃ position, base = .nil position
    · obtain ⟨spot, rfl⟩ := hbase
      exact fail frame _ _
    · rw [not_exists] at hbase
      rw [evalCommand_chain frame dot last start position rest (by simp) hbase]
      exact bind (evalOperand frame dot base) fun receiver ↦ fieldPath frame _ _ receiver _
  | ⟨_, .var reference :: _⟩ => evalVariable frame _ (.var reference) reference
  | ⟨_, .pipeline inner :: _⟩ => ite (fail frame _ _) (evalPipeline frame dot inner)
  | ⟨_, .bool .. :: _⟩ | ⟨_, .dot _ :: _⟩ | ⟨_, .number _ :: _⟩ | ⟨_, .string .. :: _⟩ =>
    ite (fail frame _ _) (pure _)
  | ⟨_, .nil _ :: _⟩ | ⟨_, .text .. :: _⟩ | ⟨_, .comment .. :: _⟩ | ⟨_, .action .. :: _⟩
  | ⟨_, .command _ :: _⟩ | ⟨_, .branch .. :: _⟩ | ⟨_, .template .. :: _⟩
  | ⟨_, .breakLoop _ :: _⟩ | ⟨_, .continueLoop _ :: _⟩ => ite (fail frame _ _) (fail frame _ _)

/-- Evaluating operands leaves the sink alone. -/
theorem evalOperands (frame : Frame) (dot : Value) : (operands : List Node) →
    Silent (evalOperands frame dot operands)
  | [] => pure []
  | operand :: rest =>
    bind (evalOperand frame dot operand) fun _ ↦
      bind (evalOperands frame dot rest) fun _ ↦ pure _

/-- Evaluating operands up to the one that decides leaves the sink alone. -/
theorem evalDeciding (frame : Frame) (dot : Value) (stop : Bool) (value : Value) :
    (operands : List Node) → Silent (evalDeciding frame dot stop value operands)
  | [] => pure (false, value)
  | operand :: rest =>
    bind (evalOperand frame dot operand) fun next ↦
      ite (pure _) (evalDeciding frame dot stop next rest)

/-- Evaluating an operand leaves the sink alone. -/
theorem evalOperand (frame : Frame) (dot : Value) : (operand : Node) →
    Silent (evalOperand frame dot operand)
  | .dot _ | .nil _ | .bool .. | .number _ | .string .. => pure _
  | .field position path => fieldPath frame (.field position path) false dot path
  | .var reference => evalVariable frame false (.var reference) reference
  | .pipeline inner => evalPipeline frame dot inner
  | .identifier position name =>
    callNamed frame position name none (pure []) fun _ ↦ pure (false, Value.null)
  | .chain _ _ [] => fail frame _ _
  | .chain position base (name :: path) => by
    by_cases hbase : ∃ position, base = .nil position
    · obtain ⟨spot, rfl⟩ := hbase
      exact fail frame _ _
    · rw [not_exists] at hbase
      rw [evalOperand_chain frame dot position (by simp) hbase]
      exact bind (evalOperand frame dot base) fun receiver ↦ fieldPath frame _ _ receiver _
  | .text .. | .comment .. | .action .. | .command _ | .branch .. | .template .. | .breakLoop _
  | .continueLoop _ => fail frame _ _

end

/-! ### Loops -/

theorem collect (frame : Frame) (node : Node) (count : Nat)
    (rounds : Unit → List (Value × Value)) : Silent (collect frame node count rounds) :=
  ite (fail frame _ _) (pure _)

theorem loopItems (frame : Frame) (node : Node) (targets : Nat) (value : Value) :
    Silent (loopItems frame node targets value) := by
  unfold Exec.loopItems
  split
  · exact collect frame _ _ _
  · exact collect frame _ _ _
  · exact pure _
  · split
    · exact ite (fail frame _ _) (collect frame _ _ _)
    · exact fail frame _ _

theorem bindRound (frame : Frame) (head : Pipeline) (index item : Value) :
    Silent (bindRound frame head index item) := by
  unfold Exec.bindRound
  split
  · exact pure ()
  · exact assign frame _ _
  · exact bind (assign frame _ _) fun _ ↦ assign frame _ _
  · exact bind scope fun _ ↦ setScope _
  · exact bind scope fun _ ↦ setScope _

end Silent

end Stencil.Exec
