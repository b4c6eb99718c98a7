import Stencil.Proofs.Execution.Steps

/-!
# Executions without invocations

A body may be run although no template can be invoked (`Invoker.refuse`). If the run does not fail,
it reaches no invocation, and so it is the same whatever the templates are that could be invoked
(`runBody_bounds`). A step that does what another one does, unless it fails, is a bound of it
(`Bounds`); steps that are made of bounds are bounds.
-/

set_option autoImplicit false
set_option relaxedAutoImplicit false

namespace Stencil.Exec

open Syntax

/-- The refusal of every invocation. -/
def Invoker.refuse : Invoker := fun name ↦ .error (.undefinedTemplate name)

/-- That a step does what another one does, unless it fails. -/
def Bounds {α : Type} (step other : Exec α) : Prop :=
  ∀ (state : State) (value : α) (after : State),
    step.run state = (.ok value, after) → other.run state = (.ok value, after)

namespace Bounds

variable {α β : Type} {step other : Exec α}

theorem refl (step : Exec α) : Bounds step step := fun _ _ _ ↦ id

theorem fail (frame : Frame) (node : Node) (fault : EvalFault) :
    Bounds (Exec.fail frame node fault) other := by
  intro state value after hrun
  cases hrun

theorem bind {next otherNext : α → Exec β} (hstep : Bounds step other)
    (hnext : ∀ value, Bounds (next value) (otherNext value)) :
    Bounds (step >>= next) (other >>= otherNext) := by
  intro state value after hrun
  rw [run_bind] at hrun ⊢
  rcases hfirst : step.run state with ⟨error | middle, reached⟩
  · rw [hfirst] at hrun
    cases hrun
  · rw [hfirst] at hrun
    rw [hstep state middle reached hfirst]
    exact hnext middle reached value after hrun

theorem withScope (hstep : Bounds step other) : Bounds (withScope step) (withScope other) :=
  bind (refl scope) fun _ ↦ bind hstep fun _ ↦ refl _

theorem ite {condition : Prop} [Decidable condition] {first second otherFirst otherSecond : Exec α}
    (hthen : Bounds first otherFirst) (helse : Bounds second otherSecond) :
    Bounds (if condition then first else second)
      (if condition then otherFirst else otherSecond) := by
  split
  · exact hthen
  · exact helse

/-- Rounds that are bounds one by one are bounds in a row. -/
theorem runRounds {round otherRound : Value × Value → Exec Flow}
    (hround : ∀ pair, Bounds (round pair) (otherRound pair)) (pairs : List (Value × Value)) :
    Bounds (runRounds round pairs) (runRounds otherRound pairs) := by
  induction pairs with
  | nil => exact refl _
  | cons pair rest ih =>
    rw [Exec.runRounds, Exec.runRounds]
    refine bind (hround pair) fun flow ↦ ?_
    cases flow with
    | breaking => exact refl _
    | normal | continuing => exact ih

end Bounds

section Refuse

variable (frame : Frame) (invoke : Invoker)

/-- A control structure is a bound if its parts are. -/
theorem branch_bounds {dot : Value} {kind : BranchKind} {position : Position} {head : Pipeline}
    {body : Body} {otherwise : Option Body}
    (hbody : ∀ dot, Bounds (runBody frame .refuse dot body) (runBody frame invoke dot body))
    (hother : ∀ other ∈ otherwise,
      Bounds (runBody frame .refuse dot other) (runBody frame invoke dot other)) :
    Bounds (runNode frame .refuse dot (.branch kind position head body otherwise))
      (runNode frame invoke dot (.branch kind position head body otherwise)) := by
  have hother : Bounds (runOtherwise frame .refuse dot otherwise)
      (runOtherwise frame invoke dot otherwise) := by
    cases otherwise with
    | none => exact .refl _
    | some other => exact hother other rfl
  rw [runNode_branch, runNode_branch]
  refine .withScope (.bind (.refl _) fun value ↦ ?_)
  cases kind with
  | conditional => exact .ite (hbody dot) hother
  | context => exact .ite (hbody value) hother
  | loop =>
    refine .bind (.refl _) fun rounds ↦ .ite hother (.bind (.runRounds ?_ rounds) fun _ ↦ .refl _)
    exact fun pair ↦ .withScope (.bind (.refl _) fun _ ↦ hbody pair.2)

mutual

/-- A statement that is run without invocations is run alike with any. -/
theorem runNode_bounds (dot : Value) : (node : Node) →
    Bounds (runNode frame .refuse dot node) (runNode frame invoke dot node)
  | .branch _ _ _ body none => branch_bounds frame invoke (fun dot ↦ runBody_bounds dot body) nofun
  | .branch _ _ _ body (some other) => by
    have hother := runBody_bounds dot other
    refine branch_bounds frame invoke (fun dot ↦ runBody_bounds dot body) ?_
    rintro _ ⟨⟩
    exact hother
  | .template position name argument => .fail frame (.template position name argument) _
  | .text .. | .comment .. | .action .. | .breakLoop _ | .continueLoop _ | .pipeline _ | .command _
  | .identifier .. | .var _ | .dot _ | .nil _ | .field .. | .chain .. | .bool .. | .number _
  | .string .. => .refl _

/-- Statements that are run without invocations are run alike with any. -/
theorem runNodes_bounds (dot : Value) : (nodes : List Node) →
    Bounds (runNodes frame .refuse dot nodes) (runNodes frame invoke dot nodes)
  | [] => .refl _
  | node :: rest => by
    rw [runNodes, runNodes]
    refine .bind (runNode_bounds dot node) fun flow ↦ ?_
    cases flow with
    | normal => exact runNodes_bounds dot rest
    | breaking | continuing => exact .refl _

/-- A body that is run without invocations is run alike with any. -/
theorem runBody_bounds (dot : Value) : (body : Body) →
    Bounds (runBody frame .refuse dot body) (runBody frame invoke dot body)
  | ⟨_, nodes⟩ => runNodes_bounds dot nodes

end

end Refuse

end Stencil.Exec
