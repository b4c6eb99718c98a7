import Stencil.Proofs.Execution.Coupling
import Stencil.Proofs.Execution.Paths

/-!
# Evaluation and positions

An evaluation looks at the positions of a pipeline only to say where it has failed. So two
pipelines that are the same up to positions are evaluated side by side (`positionCoupling`), and so
are two commands: each gives the same value, or each fails with the same fault at a node of its own
(`leadsTo_pipeline_iff`, `leadsTo_command_iff`).
-/

set_option autoImplicit false
set_option relaxedAutoImplicit false

namespace Stencil.Exec

open Syntax

/-- Two executions that are in the same state, until both fail with the same fault, or both because
the sink is full. -/
def positionCoupling (frame : Frame) : Coupling :=
  .sameState fun error other ↦ (error = .sinkFull ∧ other = .sinkFull) ∨
    ∃ node otherNode fault, error = faultAt frame node fault ∧
      other = faultAt frame otherNode fault

section Couplings

variable {frame : Frame}

/-- A frame is coupled with itself, whatever positions the nodes have. -/
theorem positionCoupling_holds (place : Position → Position) :
    (positionCoupling frame).Holds frame frame place :=
  Coupling.sameState_holds rfl rfl (.inl ⟨rfl, rfl⟩) fun node fault ↦
    .inr ⟨node, node.mapPosition place, fault, rfl, rfl⟩

/-- What a step leads to is determined. -/
theorem LeadsTo.unique {step : Exec Value} {result other : Except EvalFault Value}
    {state after reached : State} (hresult : LeadsTo frame result step state after)
    (hother : LeadsTo frame other step state reached) : result = other ∧ after = reached := by
  cases result with
  | ok value =>
    have hrun : step.run state = (.ok value, after) := hresult
    cases other with
    | ok value =>
      have hsame := hrun.symm.trans hother
      cases hsame
      exact ⟨rfl, rfl⟩
    | error fault =>
      obtain ⟨node, hfails⟩ := hother
      have hsame := hrun.symm.trans hfails
      cases hsame
  | error fault =>
    obtain ⟨node, hrun⟩ := hresult
    cases other with
    | ok value =>
      have hsame := hrun.symm.trans hother
      cases hsame
    | error fault =>
      obtain ⟨otherNode, hfails⟩ := hother
      obtain ⟨hsame, hafter⟩ := Prod.mk.inj (hrun.symm.trans hfails)
      have hfault := congrArg EvalError.fault (ExecError.eval.inj (Except.error.inj hsame))
      exact ⟨congrArg Except.error hfault, hafter⟩

/-- Two coupled steps lead to the same result, or the sink is full for both. -/
theorem leadsTo_of_coupled {first second : Exec Value} {count : Nat}
    (hcoupled : Coupled (positionCoupling frame) 0 count first second) (state : State) :
    (∃ result after, LeadsTo frame result first state after ∧
      LeadsTo frame result second state after) ∨
    ∃ after, first.run state = (.error .sinkFull, after) ∧
      second.run state = (.error .sinkFull, after) := by
  rcases hcoupled.run_sameState state with
    ⟨value, after, hfirst, hsecond⟩ | ⟨error, other, after, hfirst, hsecond, htold⟩
  · exact .inl ⟨.ok value, after, hfirst, hsecond⟩
  · rcases htold with ⟨rfl, rfl⟩ | ⟨node, otherNode, fault, rfl, rfl⟩
    · exact .inr ⟨after, hfirst, hsecond⟩
    · exact .inl ⟨.error fault, after, ⟨node, hfirst⟩, ⟨otherNode, hsecond⟩⟩

/-- Of two coupled steps, one leads to a result exactly if the other does. -/
theorem leadsTo_iff_of_coupled {first second : Exec Value} {count : Nat}
    (hcoupled : Coupled (positionCoupling frame) 0 count first second)
    {result : Except EvalFault Value} {state after : State} :
    LeadsTo frame result first state after ↔ LeadsTo frame result second state after := by
  have hfull {step : Exec Value} {reached : State}
      (hrun : step.run state = (.error .sinkFull, reached)) :
      ¬ LeadsTo frame result step state after := by
    intro hleads
    cases result with
    | ok value =>
      have hsame := hrun.symm.trans hleads
      cases hsame
    | error fault =>
      obtain ⟨node, hfails⟩ := hleads
      have hsame := hrun.symm.trans hfails
      cases hsame
  rcases leadsTo_of_coupled hcoupled state with
    ⟨other, reached, hfirst, hsecond⟩ | ⟨reached, hfirst, hsecond⟩
  · constructor
    · intro hleads
      obtain ⟨rfl, rfl⟩ := hleads.unique hfirst
      exact hsecond
    · intro hleads
      obtain ⟨rfl, rfl⟩ := hleads.unique hsecond
      exact hfirst
  · exact iff_of_false (hfull hfirst) (hfull hsecond)

/-! ### Pipelines and commands -/

section Evaluations

variable {dot : Value} {result : Except EvalFault Value} {state after : State}

/-- Pipelines that are the same up to positions lead to the same. -/
theorem leadsTo_pipeline_iff {pipeline other : Pipeline}
    (hsame : pipeline.unplaced = other.unplaced) :
    LeadsTo frame result (evalPipeline frame dot pipeline) state after ↔
      LeadsTo frame result (evalPipeline frame dot other) state after := by
  have hunplaced (pipeline : Pipeline) :
      LeadsTo frame result (evalPipeline frame dot pipeline) state after ↔
        LeadsTo frame result (evalPipeline frame dot pipeline.unplaced) state after :=
    leadsTo_iff_of_coupled (evalPipeline_coupled (positionCoupling_holds fun _ ↦ {}) dot pipeline
      fun _ _ ↦ trivial)
  rw [hunplaced pipeline, hsame, ← hunplaced other]

/-- Commands that are the same up to positions lead to the same. -/
theorem leadsTo_command_iff {last : Option Value} {command other : Command}
    (hsame : command.unplaced = other.unplaced) :
    LeadsTo frame result (evalCommand frame dot last command) state after ↔
      LeadsTo frame result (evalCommand frame dot last other) state after := by
  have hunplaced (command : Command) :
      LeadsTo frame result (evalCommand frame dot last command) state after ↔
        LeadsTo frame result (evalCommand frame dot last command.unplaced) state after :=
    leadsTo_iff_of_coupled (evalCommand_coupled (positionCoupling_holds fun _ ↦ {}) dot last command
      fun _ _ ↦ trivial)
  rw [hunplaced command, hsame, ← hunplaced other]

end Evaluations

end Couplings

end Stencil.Exec
