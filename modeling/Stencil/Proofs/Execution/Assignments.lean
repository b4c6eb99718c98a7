import Stencil.Proofs.Execution.Slots
import Stencil.Proofs.Variables.Mention

/-!
# The assignments of an evaluation

What an evaluation assigns is told by following it: a `Record` gives the assignments that a step
makes from a state on, if the step ends well. The record of a pipeline is that of its commands,
followed by its own assignments if it has an equals sign (`pipelineRecord`), and nothing else in the
evaluator assigns.

`Tracks` says that a record accounts for all that a step does to the slots from before it. There is
a rule for each way of composing steps, and evaluating a pipeline is tracked by its record
(`evalPipeline_tracks`). It assigns and declares none but the variables that stand in the pipeline
for it (`Pipeline.targetsOf`).
-/

set_option autoImplicit false
set_option relaxedAutoImplicit false

namespace Stencil.Syntax

/-! ### Targets -/

/-- The variables that are given a value, where they are assigned or else declared. -/
def writes (isAssign : Bool) (targets : List Variable) (assigning : Bool) : List Variable :=
  if assigning = isAssign then targets else []

theorem subset_writes (isAssign : Bool) (targets : List Variable) :
    targets ⊆ writes isAssign targets isAssign := by
  rw [writes, if_pos rfl]
  exact List.Subset.refl targets

section Targets

variable (assigning : Bool)

mutual

/-- The variables that a node assigns, or else declares. -/
def Node.targetsOf : Node → List Variable
  | .action _ inner | .pipeline inner => inner.targetsOf
  | .command inner => inner.targetsOf
  | .chain _ base _ => base.targetsOf
  | .branch _ _ head body otherwise =>
    head.targetsOf ++ (body.targetsOf ++
      match otherwise with
      | none => []
      | some other => other.targetsOf)
  | .template _ _ argument =>
    match argument with
    | none => []
    | some inner => inner.targetsOf
  | _ => []

/-- The variables that a pipeline assigns, or else declares. -/
def Pipeline.targetsOf : Pipeline → List Variable
  | ⟨_, isAssign, targets, commands⟩ =>
    Command.allTargetsOf commands ++ writes isAssign targets assigning

/-- The variables that commands assign, or else declare. -/
def Command.allTargetsOf : List Command → List Variable
  | [] => []
  | command :: rest => command.targetsOf ++ Command.allTargetsOf rest

/-- The variables that a command assigns, or else declares. -/
def Command.targetsOf : Command → List Variable
  | ⟨_, operands⟩ => Node.allTargetsOf operands

/-- The variables that nodes in a row assign, or else declare. -/
def Node.allTargetsOf : List Node → List Variable
  | [] => []
  | node :: rest => node.targetsOf ++ Node.allTargetsOf rest

/-- The variables that a body assigns, or else declares. -/
def Body.targetsOf : Body → List Variable
  | ⟨_, nodes⟩ => Node.allTargetsOf nodes

end

end Targets

end Stencil.Syntax

namespace Stencil.Exec

open Syntax

/-! ### Records -/

/-- The assignments that a step makes from a state on, if it ends well. -/
abbrev Record : Type := State → List Assignment

namespace Record

/-- No assignments. -/
def empty : Record := fun _ ↦ []

/-- A single assignment. -/
def assign (target : Variable) (value : Value) : Record :=
  fun state ↦ [⟨target, value, state.scope⟩]

/-- The assignments of a step, followed by those that are made behind it. -/
def andThen {α : Type} (record : Record) (step : Exec α) (next : α → Record) : Record :=
  fun state ↦ record state ++
    match step.run state with
    | (.ok value, after) => next value after
    | (.error _, _) => []

end Record

/-- The assignments of giving a value to the variables of a pipeline. -/
def bindingRecord (frame : Frame) (isAssign : Bool) (value : Value) : List Variable → Record
  | [] => .empty
  | target :: rest =>
    if isAssign then
      (Record.assign target value).andThen (assign frame target value) fun _ ↦
        bindingRecord frame isAssign value rest
    else .empty

/-- The assignments of a call, by the ways in which it may evaluate its operands. -/
def callRecord (frame : Frame) (name : String) (values : Record) (deciding : Bool → Record) :
    Record :=
  match frame.functions.stopsAt? name with
  | some stop => deciding stop
  | none => values

section Evaluation

variable (frame : Frame) (dot : Value)

mutual

/-- The assignments of a pipeline. -/
def pipelineRecord : Pipeline → Record
  | ⟨_, isAssign, targets, commands⟩ =>
    (commandsRecord none commands).andThen (evalCommands frame dot none commands) fun value ↦
      bindingRecord frame isAssign (value.getD .null) targets

/-- The assignments of commands. -/
def commandsRecord (last : Option Value) : List Command → Record
  | [] => .empty
  | command :: rest =>
    (commandRecord command).andThen (evalCommand frame dot last command) fun value ↦
      commandsRecord (some value) rest

/-- The assignments of a command. -/
def commandRecord : Command → Record
  | ⟨_, []⟩ => .empty
  | ⟨_, first :: rest⟩ =>
    match first with
    | .identifier _ name =>
      callRecord frame name (operandsRecord rest) fun stop ↦ decidingRecord stop rest
    | .chain _ base _ => operandRecord base
    | .pipeline inner => pipelineRecord inner
    | _ => .empty

/-- The assignments of operands. -/
def operandsRecord : List Node → Record
  | [] => .empty
  | operand :: rest =>
    (operandRecord operand).andThen (evalOperand frame dot operand) fun _ ↦ operandsRecord rest

/-- The assignments of operands up to the one that decides. -/
def decidingRecord (stop : Bool) : List Node → Record
  | [] => .empty
  | operand :: rest =>
    (operandRecord operand).andThen (evalOperand frame dot operand) fun value ↦
      if value.isTrue = stop then .empty else decidingRecord stop rest

/-- The assignments of an operand. -/
def operandRecord : Node → Record
  | .pipeline inner => pipelineRecord inner
  | .chain _ base _ => operandRecord base
  | _ => .empty

end

end Evaluation

/-! ### Rules -/

/-- That a record accounts for what a step that ends well does to the slots from before it, where
`targets` are the variables that the step may assign, or else declare. -/
def Tracks {α : Type} (targets : Bool → List Variable) (step : Exec α) (record : Record) : Prop :=
  ∀ ⦃state : State⦄ ⦃value : α⦄ ⦃after : State⦄, step.run state = (.ok value, after) →
    Settles targets state.scope.length state after (record state)

namespace Tracks

variable {α β : Type} {targets others : Bool → List Variable} {frame : Frame}

theorem mono {step : Exec α} {record : Record} (hstep : Tracks targets step record)
    (htargets : ∀ assigning, targets assigning ⊆ others assigning) : Tracks others step record :=
  fun _ _ _ hrun ↦ (hstep hrun).mono htargets (Nat.le_refl _)

theorem pure (value : α) : Tracks targets (return value) .empty := by
  intro state _ _ hrun
  cases hrun
  exact .of_scope rfl

theorem fail (frame : Frame) (node : Node) (fault : EvalFault) (record : Record) :
    Tracks (α := α) targets (fail frame node fault) record := nofun

/-- A step that changes no variables assigns nothing. -/
theorem still {step : Exec α}
    (hstep : ∀ state, Ends step state (fun _ after ↦ after.scope = state.scope) fun _ ↦ True) :
    Tracks targets step .empty :=
  fun state _ _ hrun ↦ .of_scope ((hstep state).of_run hrun)

theorem unchanged {step : Exec α}
    (hstep : ∀ state, Ends step state (fun _ after ↦ after = state) fun _ ↦ True) :
    Tracks targets step .empty :=
  still fun state ↦ (hstep state).mono fun _ _ hafter ↦ congrArg State.scope hafter

theorem emit (text : String) : Tracks targets (emit text) .empty :=
  still fun _ ↦ .emit fun _ ↦ rfl

theorem bind {first : Exec α} {next : α → Exec β} {record : Record} {nextRecord : α → Record}
    (hfirst : Tracks targets first record) (hnext : ∀ value, Tracks targets (next value)
      (nextRecord value)) :
    Tracks targets (first >>= next) (record.andThen first nextRecord) := by
  intro state value after hrun
  obtain ⟨middle, reached, hreached, hrest⟩ := exists_of_run_bind state hrun
  have hbefore := hfirst hreached
  have hafter := (hnext middle hrest).mono (fun _ ↦ List.Subset.refl _)
    (Scope.length_le_of_names hbefore.grows)
  rw [Record.andThen, hreached]
  exact hbefore.trans hafter

/-- What assigns nothing in the end does not matter. -/
theorem thenStill {first : Exec α} {next : α → Exec β} {record : Record}
    (hfirst : Tracks targets first record) (hnext : ∀ value, Tracks targets (next value) .empty) :
    Tracks targets (first >>= next) record := by
  intro state value after hrun
  have hsame : record.andThen first (fun _ ↦ .empty) state = record state := by
    rw [Record.andThen]
    split <;> exact List.append_nil _
  have hboth := hfirst.bind hnext hrun
  rwa [hsame] at hboth

theorem ite {condition : Prop} [Decidable condition] {first second : Exec α}
    {record other : Record} (hfirst : Tracks targets first record)
    (hsecond : Tracks targets second other) :
    Tracks targets (if condition then first else second) (if condition then record else other) := by
  split
  · exact hfirst
  · exact hsecond

/-- What is refused under a condition is tracked as what is not. -/
theorem guarded {condition : Prop} [Decidable condition] {node : Node} {fault : EvalFault}
    {step : Exec α} {record : Record} (hstep : Tracks targets step record) :
    Tracks targets (if condition then Exec.fail frame node fault else step) record := by
  split
  · exact fail frame node fault record
  · exact hstep

/-- Variables declared in a scope of their own are not accounted for. -/
theorem withScope {step : Exec α} {record : Record} (hstep : Tracks targets step record) :
    Tracks targets (withScope step) record := by
  intro state value after hrun
  rw [run_withScope] at hrun
  split at hrun
  next inner hinner =>
    cases hrun
    exact (hstep hinner).keep (Nat.le_refl _)
  next => cases hrun

theorem assign {target : Variable} (htarget : target ∈ targets true) (value : Value) :
    Tracks targets (assign frame target value) (.assign target value) :=
  fun _ _ _ hrun ↦ .of_assign htarget hrun

theorem declare {target : Variable} (htarget : target ∈ targets false) (value : Value) :
    Tracks targets (declare frame target value) .empty :=
  fun _ _ _ hrun ↦ .of_declare htarget hrun

end Tracks

/-! ### Evaluations -/

section Basic

variable {targets : Bool → List Variable} (frame : Frame)

/-- That all errors are allowed. -/
theorem allowsRegular_true : AllowsRegular fun _ ↦ True :=
  ⟨fun _ _ _ _ ↦ trivial, fun _ _ _ _ ↦ trivial⟩

theorem fieldPath_tracks (node : Node) (given : Bool) (receiver : Value) (path : List String) :
    Tracks targets (fieldPath frame node given receiver path) .empty :=
  .unchanged fun _ ↦ fieldPath_ends allowsRegular_true node given receiver path

theorem evalVariable_tracks (given : Bool) (operand : Node) (reference : Variable) :
    Tracks targets (evalVariable frame given operand reference) .empty :=
  .unchanged fun _ ↦ evalVariable_ends allowsRegular_true given operand
    ⟨fun _ ↦ trivial, fun _ _ _ ↦ trivial⟩

theorem callFunction_tracks (node : Node) (name : String) (function : Function)
    (arguments : List Value) :
    Tracks targets (callFunction frame node name function arguments) .empty :=
  .unchanged fun _ ↦ callFunction_ends allowsRegular_true node name function arguments

/-- A call is tracked by what tracks its operands. -/
theorem callNamed_tracks (position : Position) (name : String) (last : Option Value)
    {operands : Operands} {values : Record} {deciding : Bool → Record}
    (hvalues : Tracks targets operands.values values)
    (hdeciding : ∀ stop, Tracks targets (operands.deciding stop) (deciding stop)) :
    Tracks targets (callNamed frame position name last operands)
      (callRecord frame name values deciding) := by
  rw [callNamed, callRecord, FunctionTable.stopsAt?]
  cases frame.functions.resolve? name with
  | none => exact .fail frame _ _ _
  | some resolved =>
    cases resolved with
    | provided function =>
      exact hvalues.thenStill fun arguments ↦ callFunction_tracks frame _ _ _ _
    | builtin builtin =>
      dsimp only
      cases builtin.stopsAt with
      | none => exact hvalues.thenStill fun arguments ↦ callFunction_tracks frame _ _ _ _
      | some stop => exact .guarded ((hdeciding stop).thenStill fun _ ↦ .pure _)

theorem bindVariables_tracks {isAssign : Bool} (value : Value) {bound : List Variable}
    (hbound : bound ⊆ targets isAssign) :
    Tracks targets (bindVariables frame isAssign value bound)
      (bindingRecord frame isAssign value bound) := by
  induction bound with
  | nil => exact .pure ()
  | cons target rest ih =>
    obtain ⟨htarget, hrest⟩ := List.cons_subset.mp hbound
    cases isAssign with
    | true => exact (Tracks.assign htarget value).bind fun _ ↦ ih hrest
    | false =>
      have hnone : bindingRecord frame false value rest = .empty := by
        cases rest <;> rfl
      exact (Tracks.declare htarget value).thenStill fun _ ↦ hnone ▸ ih hrest

end Basic

section Evaluation

variable (frame : Frame) (dot : Value)

mutual

/-- Evaluating a pipeline is tracked by its record. -/
theorem evalPipeline_tracks : (pipeline : Pipeline) →
    Tracks (pipeline.targetsOf ·) (evalPipeline frame dot pipeline)
      (pipelineRecord frame dot pipeline)
  | ⟨_, isAssign, targets, commands⟩ =>
    have htargets : targets ⊆ Pipeline.targetsOf isAssign ⟨_, isAssign, targets, commands⟩ :=
      List.subset_append_of_subset_right _ (subset_writes isAssign targets)
    .bind ((evalCommands_tracks none commands).mono fun _ ↦ List.subset_append_left _ _) fun _ ↦
      (bindVariables_tracks frame _ htargets).thenStill fun _ ↦ .pure _

/-- Evaluating commands is tracked by their record. -/
theorem evalCommands_tracks (last : Option Value) : (commands : List Command) →
    Tracks (Command.allTargetsOf · commands) (evalCommands frame dot last commands)
      (commandsRecord frame dot last commands)
  | [] => .pure last
  | command :: rest =>
    .bind ((evalCommand_tracks last command).mono fun _ ↦ List.subset_append_left _ _) fun value ↦
      (evalCommands_tracks (some value) rest).mono fun _ ↦ List.subset_append_right _ _

/-- Evaluating a command is tracked by its record. -/
theorem evalCommand_tracks (last : Option Value) : (command : Command) →
    Tracks (command.targetsOf ·) (evalCommand frame dot last command)
      (commandRecord frame dot command)
  | ⟨_, []⟩ => .fail frame _ _ _
  | ⟨_, .identifier position name :: rest⟩ =>
    callNamed_tracks frame position name last (evalOperands_tracks rest)
      fun stop ↦ evalDeciding_tracks stop .null rest
  | ⟨_, .field position path :: _⟩ => fieldPath_tracks frame (.field position path) _ dot path
  | ⟨_, .chain _ _ [] :: _⟩ => .fail frame _ _ _
  | ⟨start, .chain position base (name :: path) :: rest⟩ => by
    by_cases hbase : ∃ position, base = .nil position
    · obtain ⟨spot, rfl⟩ := hbase
      exact .fail frame _ _ _
    · rw [not_exists] at hbase
      rw [evalCommand_chain frame dot last start position rest (by simp) hbase]
      exact ((evalOperand_tracks base).thenStill fun receiver ↦
        fieldPath_tracks frame _ _ receiver _).mono fun _ ↦ List.subset_append_left _ _
  | ⟨_, .var reference :: _⟩ => evalVariable_tracks frame _ (.var reference) reference
  | ⟨_, .pipeline inner :: _⟩ =>
    .guarded ((evalPipeline_tracks inner).mono fun _ ↦ List.subset_append_left _ _)
  | ⟨_, .bool .. :: _⟩ | ⟨_, .dot _ :: _⟩ | ⟨_, .number _ :: _⟩ | ⟨_, .string .. :: _⟩ =>
    .guarded (.pure _)
  | ⟨_, .nil _ :: _⟩ | ⟨_, .text .. :: _⟩ | ⟨_, .comment .. :: _⟩ | ⟨_, .action .. :: _⟩
  | ⟨_, .command _ :: _⟩ | ⟨_, .branch .. :: _⟩ | ⟨_, .template .. :: _⟩
  | ⟨_, .breakLoop _ :: _⟩ | ⟨_, .continueLoop _ :: _⟩ => .guarded (.fail frame _ _ _)

/-- Evaluating operands is tracked by their record. -/
theorem evalOperands_tracks : (operands : List Node) →
    Tracks (Node.allTargetsOf · operands) (evalOperands frame dot operands)
      (operandsRecord frame dot operands)
  | [] => .pure []
  | operand :: rest =>
    .bind ((evalOperand_tracks operand).mono fun _ ↦ List.subset_append_left _ _) fun _ ↦
      ((evalOperands_tracks rest).mono fun _ ↦ List.subset_append_right _ _).thenStill
        fun _ ↦ .pure _

/-- Evaluating operands up to the one that decides is tracked by their record. -/
theorem evalDeciding_tracks (stop : Bool) (value : Value) : (operands : List Node) →
    Tracks (Node.allTargetsOf · operands) (evalDeciding frame dot stop value operands)
      (decidingRecord frame dot stop operands)
  | [] => .pure (false, value)
  | operand :: rest =>
    have hrest (next : Value) :=
      (evalDeciding_tracks stop next rest).mono fun _ ↦ List.subset_append_right _ _
    .bind ((evalOperand_tracks operand).mono fun _ ↦ List.subset_append_left _ _) fun next ↦
      .ite (.pure _) (hrest next)

/-- Evaluating an operand is tracked by its record. -/
theorem evalOperand_tracks : (operand : Node) →
    Tracks (operand.targetsOf ·) (evalOperand frame dot operand) (operandRecord frame dot operand)
  | .dot _ | .nil _ | .bool .. | .number _ | .string .. => .pure _
  | .field position path => fieldPath_tracks frame (.field position path) false dot path
  | .var reference => evalVariable_tracks frame false (.var reference) reference
  | .pipeline inner => evalPipeline_tracks inner
  | .identifier position name => by
    have hcall : callRecord frame name .empty (fun _ ↦ .empty) = .empty := by
      rw [callRecord]
      split <;> rfl
    have htracks : Tracks ((Node.identifier position name).targetsOf ·)
        (callNamed frame position name none .none) (callRecord frame name .empty fun _ ↦ .empty) :=
      callNamed_tracks frame position name none (.pure []) fun _ ↦ .pure (false, Value.null)
    rwa [hcall] at htracks
  | .chain _ _ [] => .fail frame _ _ _
  | .chain position base (name :: path) => by
    by_cases hbase : ∃ position, base = .nil position
    · obtain ⟨spot, rfl⟩ := hbase
      exact .fail frame _ _ _
    · rw [not_exists] at hbase
      rw [evalOperand_chain frame dot position (by simp) hbase]
      exact (evalOperand_tracks base).thenStill fun receiver ↦ fieldPath_tracks frame _ _ receiver _
  | .text .. | .comment .. | .action .. | .command _ | .branch .. | .template .. | .breakLoop _
  | .continueLoop _ => .fail frame _ _ _

end

end Evaluation

end Stencil.Exec
