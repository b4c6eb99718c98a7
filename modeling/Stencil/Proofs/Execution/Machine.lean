import Stencil.Proofs.Execution.Silence

/-!
# An execution, step by step

An execution is told here as a machine that takes one step after another. A `Point` says where it
is: in which tree, with which variables and which sink, and what is left to do (`Task`), the next
thing first. A step evaluates one pipeline, writes one text, or does neither (`step`), and says with
which error the execution ends if it goes no further. A template that is invoked is put on top of
what is left to do where it is invoked, so the invocations that a point is inside are those that are
left to go back to (`Point.nesting`).

What so many steps lead to is determined (`Takes.unique`), and so is the end (`Takes.end_unique`).
-/

set_option autoImplicit false
set_option relaxedAutoImplicit false

namespace Stencil.Exec

open Syntax

/-! ### Points -/

/-- What is left to do. -/
inductive Task
  /-- Statements of a body. -/
  | statements (dot : Value) (nodes : List Node)
  | write (text : String)
  /-- To keep the outermost variables, as many as given, at the end of a scope. -/
  | close (count : Nat)
  /-- Rounds of a loop. -/
  | rounds (head : Pipeline) (body : Body) (pairs : List (Value × Value))
  /-- To go on in the tree of an invocation, with its variables. -/
  | resume (tree : Tree) (scope : Scope)

/-- Whether a task ends an invocation. -/
def Task.isResume : Task → Bool
  | .resume .. => true
  | _ => false

/-- How many invocations are left by tasks. -/
def nestingOf (tasks : List Task) : Nat := tasks.countP Task.isResume

@[simp]
theorem nestingOf_cons (task : Task) (later : List Task) :
    nestingOf (task :: later) = nestingOf later + if task.isResume then 1 else 0 :=
  List.countP_cons

@[simp]
theorem nestingOf_append (tasks later : List Task) :
    nestingOf (tasks ++ later) = nestingOf tasks + nestingOf later :=
  List.countP_append

/-- Where an execution is. -/
structure Point where
  tree : Tree
  /-- How the statement before left its body. -/
  flow : Flow
  tasks : List Task
  state : State

namespace Point

/-- How many template invocations the point is inside. -/
def nesting (point : Point) : Nat := nestingOf point.tasks

/-- The point in the same tree after a statement. -/
def proceed (point : Point) (flow : Flow) (tasks : List Task) (state : State) : Point :=
  ⟨point.tree, flow, tasks, state⟩

end Point

/-- Where an execution of a tree on data starts. -/
def start (tree : Tree) (data : Value) (limit : Option Nat) : Point :=
  ⟨tree, .normal, [.statements data tree.root.nodes], Scope.initial data, Sink.limited limit⟩

/-! ### Steps -/

/-- What comes of a step. -/
inductive Step
  | goes (point : Point)
  /-- The execution is over, with an error or without. -/
  | ends (error : Option ExecError)

/-- The step that evaluates something and goes on with its value, unless it fails. -/
def Step.evaluate {α : Type} (step : Exec α) (state : State) (next : α → State → Point) : Step :=
  match step.run state with
  | (.ok value, after) => .goes (next value after)
  | (.error error, _) => .ends (some error)

/-- An evaluation goes on with its value. -/
theorem Step.evaluate_ok {α : Type} {evaluation : Exec α} {state after : State} {value : α}
    {next : α → State → Point} (hrun : evaluation.run state = (.ok value, after)) :
    Step.evaluate evaluation state next = .goes (next value after) := by
  rw [Step.evaluate, hrun]

/-- What an evaluation goes on to. -/
theorem Step.exists_of_evaluate {α : Type} {evaluation : Exec α} {state : State}
    {next : α → State → Point} {point : Point}
    (hgoes : Step.evaluate evaluation state next = .goes point) :
    ∃ value after, evaluation.run state = (.ok value, after) ∧ point = next value after := by
  unfold Step.evaluate at hgoes
  split at hgoes
  next value after hrun =>
    injection hgoes with hpoint
    exact ⟨value, after, hrun, hpoint.symm⟩
  next => cases hgoes

/-- The part that a control structure runs. A missing else part is an empty one. -/
def selectPart (frame : Frame) (dot : Value) (kind : BranchKind) (position : Position)
    (head : Pipeline) (body : Body) (otherwise : Option Body) : Exec Task := do
  let value ← evalPipeline frame dot head
  let other : Task := .statements dot (otherwise.elim [] Body.nodes)
  match kind with
  | .conditional => return if value.isTrue then .statements dot body.nodes else other
  | .context => return if value.isTrue then .statements value body.nodes else other
  | .loop => do
    let pairs ← loopItems frame (.branch kind position head body otherwise) head.targets.length
      value
    return if pairs.isEmpty then other else .rounds head body pairs

/-- The data that a template is invoked on. Without an argument it is null. -/
def evalArgument (frame : Frame) (dot : Value) (argument : Option Pipeline) : Exec Value :=
  match argument with
  | none => return .null
  | some inner => evalPipeline frame dot inner

/-- The step that a statement begins with, where `later` is left to do after it. -/
def stepNode (program : Program) (point : Point) (dot : Value) (later : List Task) : Node → Step
  | .text _ text => .goes (point.proceed .normal (.write text :: later) point.state)
  | .comment .. => .goes (point.proceed .normal later point.state)
  | .action _ inner =>
    .evaluate (evalPipeline (program.frame point.tree) dot inner) point.state fun value after ↦
      point.proceed .normal
        (if inner.targets.isEmpty then .write value.output :: later else later) after
  | .branch kind position head body otherwise =>
    .evaluate (selectPart (program.frame point.tree) dot kind position head body otherwise)
      point.state fun part after ↦
        point.proceed .normal (part :: .close point.state.scope.length :: later) after
  | .template position name argument =>
    let node : Node := .template position name argument
    match program.trees.find? name with
    | none => .ends (some (faultAt (program.frame point.tree) node (.undefinedTemplate name)))
    | some callee =>
      if maxInvocations ≤ point.nesting then
        .ends (some (faultAt (program.frame point.tree) node .tooManyInvocations))
      else
        .evaluate (evalArgument (program.frame point.tree) dot argument) point.state
          fun data after ↦ ⟨callee, .normal,
            .statements data callee.root.nodes :: .resume point.tree after.scope :: later,
            { after with scope := Scope.initial data }⟩
  | .breakLoop _ => .goes (point.proceed .breaking later point.state)
  | .continueLoop _ => .goes (point.proceed .continuing later point.state)
  | node =>
    .ends (some (faultAt (program.frame point.tree) node (.unknownStatement node.canonical)))

/-- One step of an execution. -/
def step (program : Program) (point : Point) : Step :=
  match point.tasks with
  | [] => .ends none
  | .write text :: later =>
    match point.state.sink.write text with
    | some sink => .goes (point.proceed .normal later { point.state with sink := sink })
    | none => .ends (some .sinkFull)
  | .statements _ [] :: later => .goes (point.proceed point.flow later point.state)
  | .statements dot (node :: rest) :: later =>
    match point.flow with
    | .normal => stepNode program point dot (.statements dot rest :: later) node
    | flow => .goes (point.proceed flow later point.state)
  | .close count :: later =>
    .goes (point.proceed point.flow later
      { point.state with scope := point.state.scope.keep count })
  | .rounds head body pairs :: later =>
    match point.flow, pairs with
    | .breaking, _ | _, [] => .goes (point.proceed .normal later point.state)
    | _, (index, item) :: rest =>
      .evaluate (bindRound (program.frame point.tree) head index item) point.state fun _ after ↦
        point.proceed .normal (.statements item body.nodes ::
          .close point.state.scope.length :: .rounds head body rest :: later) after
  | .resume tree scope :: later => .goes ⟨tree, .normal, later, { point.state with scope := scope }⟩

/-! ### Steps in a row -/

/-- That so many steps lead from a point to another. -/
inductive Takes (program : Program) : Nat → Point → Point → Prop
  | stay (point : Point) : Takes program 0 point point
  | move {count : Nat} {point middle last : Point} (hstep : step program point = .goes middle)
    (hrest : Takes program count middle last) : Takes program (count + 1) point last

/-- That steps lead from a point to another. -/
def Reaches (program : Program) (point last : Point) : Prop :=
  ∃ count, Takes program count point last

section Takes

variable {program : Program} {point middle last : Point} {count more : Nat}

theorem Takes.trans (hfirst : Takes program count point middle)
    (hrest : Takes program more middle last) : Takes program (count + more) point last := by
  induction hfirst with
  | stay => rwa [Nat.zero_add]
  | move hstep _ ih =>
    rw [Nat.add_right_comm]
    exact .move hstep (ih hrest)

/-- What so many steps lead to is determined. -/
theorem Takes.unique {other : Point} (hlast : Takes program count point last)
    (hother : Takes program count point other) : last = other := by
  induction hlast with
  | stay => cases hother; rfl
  | move hstep _ ih =>
    cases hother with
    | move hstepToo hrest =>
      rw [hstep] at hstepToo
      cases hstepToo
      exact ih hrest

/-- From every point on the way the end is reached by the steps that are left. -/
theorem Takes.rest {error : Option ExecError} (hlast : Takes program count point last)
    (hends : step program last = .ends error) (hmiddle : Takes program more point middle) :
    more ≤ count ∧ Takes program (count - more) middle last := by
  induction hmiddle generalizing count with
  | stay => exact ⟨Nat.zero_le _, hlast⟩
  | move hstep _ ih =>
    cases hlast with
    | stay =>
      rw [hends] at hstep
      cases hstep
    | move hstepToo hrest =>
      rw [hstep] at hstepToo
      cases hstepToo
      obtain ⟨hle, htakes⟩ := ih hrest
      rw [Nat.add_sub_add_right]
      exact ⟨Nat.succ_le_succ hle, htakes⟩

/-- An execution ends in one way. -/
theorem Takes.end_unique {error otherError : Option ExecError} {other : Point}
    (hlast : Takes program count point last) (hends : step program last = .ends error)
    (hother : Takes program more point other) (hotherEnds : step program other = .ends otherError) :
    count = more ∧ last = other ∧ error = otherError := by
  have hle := (hlast.rest hends hother).1
  have hge := (hother.rest hotherEnds hlast).1
  obtain rfl : count = more := Nat.le_antisymm hge hle
  obtain rfl := hlast.unique hother
  rw [hends] at hotherEnds
  cases hotherEnds
  exact ⟨rfl, rfl, rfl⟩

theorem Reaches.refl (point : Point) : Reaches program point point := ⟨0, .stay point⟩

theorem Reaches.trans (hfirst : Reaches program point middle)
    (hrest : Reaches program middle last) : Reaches program point last := by
  obtain ⟨count, hfirst⟩ := hfirst
  obtain ⟨more, hrest⟩ := hrest
  exact ⟨count + more, hfirst.trans hrest⟩

theorem Reaches.head (hstep : step program point = .goes middle)
    (hrest : Reaches program middle last) : Reaches program point last := by
  obtain ⟨count, hrest⟩ := hrest
  exact ⟨count + 1, .move hstep hrest⟩

/-- What is reached from a point is it or is reached from the point after it. -/
theorem Reaches.eq_or_of_step (hreaches : Reaches program point last)
    (hstep : step program point = .goes middle) : last = point ∨ Reaches program middle last := by
  obtain ⟨count, htakes⟩ := hreaches
  cases htakes with
  | stay => exact .inl rfl
  | move hstepToo hrest =>
    rw [hstep] at hstepToo
    cases hstepToo
    exact .inr ⟨_, hrest⟩

/-- Nothing else is reached from the end. -/
theorem Reaches.eq_of_ends {error : Option ExecError} (hreaches : Reaches program point last)
    (hends : step program point = .ends error) : last = point := by
  obtain ⟨count, htakes⟩ := hreaches
  cases htakes with
  | stay => rfl
  | move hstep _ =>
    rw [hends] at hstep
    cases hstep

/-- What every step preserves is preserved by steps in a row. -/
theorem Reaches.induct {holds : Point → Prop} (hreaches : Reaches program point last)
    (hpreserved : ∀ point next, step program point = .goes next → holds point → holds next)
    (hpoint : holds point) : holds last := by
  obtain ⟨count, htakes⟩ := hreaches
  induction htakes with
  | stay => exact hpoint
  | move hstep _ ih => exact ih (hpreserved _ _ hstep hpoint)

end Takes

/-! ### Other sinks -/

/-- The point with another sink. -/
def Point.withSink (sink : Sink) (point : Point) : Point :=
  { point with state := { point.state with sink := sink } }

/-- The step with another sink. -/
def Step.withSink (sink : Sink) : Step → Step
  | goes point => .goes (point.withSink sink)
  | ends error => .ends error

theorem Silent.selectPart (frame : Frame) (dot : Value) (kind : BranchKind) (position : Position)
    (head : Pipeline) (body : Body) (otherwise : Option Body) :
    Silent (selectPart frame dot kind position head body otherwise) := by
  refine .bind (.evalPipeline frame dot head) fun value ↦ ?_
  cases kind with
  | conditional | context => exact .pure _
  | loop => exact .bind (.loopItems frame _ _ value) fun _ ↦ .pure _

theorem Silent.evalArgument (frame : Frame) (dot : Value) (argument : Option Pipeline) :
    Silent (evalArgument frame dot argument) := by
  cases argument with
  | none => exact .pure _
  | some inner => exact .evalPipeline frame dot inner

section OtherSinks

variable {program : Program} {point : Point} (sink : Sink)

/-- An evaluation is the same with another sink. -/
theorem Step.evaluate_withSink {α : Type} {evaluation : Exec α} (hsilent : Silent evaluation)
    (state : State) {next other : α → State → Point}
    (hnext : ∀ value after, other value { after with sink := sink } =
      (next value after).withSink sink) :
    Step.evaluate evaluation { state with sink := sink } other =
      (Step.evaluate evaluation state next).withSink sink := by
  obtain ⟨result, visible, hrun⟩ := hsilent state.scope
  have hstate : evaluation.run state = (result, ⟨visible, state.sink⟩) := hrun state.sink
  rw [Step.evaluate, Step.evaluate, hrun, hstate]
  cases result with
  | ok value => exact congrArg Step.goes (hnext value ⟨visible, state.sink⟩)
  | error error => rfl

theorem stepNode_withSink (dot : Value) (later : List Task) (node : Node) :
    stepNode program (point.withSink sink) dot later node =
      (stepNode program point dot later node).withSink sink := by
  cases node with
  | action _ inner =>
    exact Step.evaluate_withSink sink (.evalPipeline _ dot inner) point.state fun _ _ ↦ rfl
  | branch kind position head body otherwise =>
    exact Step.evaluate_withSink sink (.selectPart _ dot kind position head body otherwise)
      point.state fun _ _ ↦ rfl
  | template position name argument =>
    simp only [stepNode]
    cases program.trees.find? name with
    | none => rfl
    | some callee =>
      dsimp only
      by_cases hdepth : maxInvocations ≤ point.nesting
      · rw [if_pos hdepth]
        exact if_pos hdepth
      · rw [if_neg hdepth]
        refine (if_neg hdepth).trans ?_
        exact Step.evaluate_withSink sink (.evalArgument _ dot argument) point.state fun _ _ ↦ rfl
  | _ => rfl

/-- A step that writes nothing is the same with another sink. -/
theorem step_withSink (hsilent : ∀ text later, point.tasks ≠ .write text :: later) :
    step program (point.withSink sink) = (step program point).withSink sink := by
  obtain ⟨tree, flow, tasks, state⟩ := point
  match tasks with
  | [] => rfl
  | .write text :: later => exact absurd rfl (hsilent text later)
  | .statements _ [] :: later => rfl
  | .statements dot (node :: rest) :: later =>
    cases flow with
    | normal => exact stepNode_withSink sink dot _ node
    | breaking | continuing => rfl
  | .close _ :: later => rfl
  | .rounds head body [] :: later => cases flow <;> rfl
  | .rounds head body ((index, item) :: rest) :: later =>
    cases flow with
    | breaking => rfl
    | normal | continuing =>
      exact Step.evaluate_withSink sink (.bindRound _ head index item) state fun _ _ ↦ rfl
  | .resume .. :: later => rfl

/-- A step that writes nothing leaves the sink as it is. -/
theorem sink_eq_of_step {next : Point} (hstep : step program point = .goes next)
    (hsilent : ∀ text later, point.tasks ≠ .write text :: later) :
    next.state.sink = point.state.sink := by
  have hsame : step program point = (step program point).withSink point.state.sink :=
    step_withSink point.state.sink hsilent
  rw [hstep] at hsame
  injection hsame with hnext
  rw [hnext]
  rfl

end OtherSinks

end Stencil.Exec
