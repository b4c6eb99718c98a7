import Stencil.Exec.Walk

/-!
# The steps of an execution

What each basic step of an execution does to its state: going on after a step (`run_bind`), failing,
and writing. A control structure is told by its parts (`runNode_branch`). A sink without a limit
takes every text and puts it at the end of its output (`Sink.exists_write`).
-/

set_option autoImplicit false
set_option relaxedAutoImplicit false

namespace Stencil.Exec

open Syntax

/-! ### Going on -/

/-- What a fault at a node of a tree tells. -/
def errorAt (tree : Tree) (node : Node) (fault : EvalFault) : EvalError :=
  ⟨tree.parseName, node.position.line, tree.name, node.canonical, fault⟩

/-- The error that a fault at a node is. -/
def faultAt (frame : Frame) (node : Node) (fault : EvalFault) : ExecError :=
  .eval (errorAt frame.tree node fault)

section Steps

variable {α β : Type} (state : State)

/-- A step goes on from the state in which the one before it ended, unless that failed. -/
theorem run_bind (first : Exec α) (next : α → Exec β) :
    (first >>= next).run state =
      match first.run state with
      | (.ok value, after) => (next value).run after
      | (.error error, after) => (.error error, after) := by
  change (match first.run state with | (result, after) => ExceptT.bindCont next result after) = _
  rcases first.run state with ⟨result | result, after⟩ <;> rfl

/-- A step that ends well went on from one that ended well. -/
theorem exists_of_run_bind {first : Exec α} {next : α → Exec β} {value : β} {after : State}
    (hrun : (first >>= next).run state = (.ok value, after)) :
    ∃ middle reached, first.run state = (.ok middle, reached) ∧
      (next middle).run reached = (.ok value, after) := by
  rw [run_bind] at hrun
  rcases hfirst : first.run state with ⟨error | middle, reached⟩
  · rw [hfirst] at hrun
    cases hrun
  · rw [hfirst] at hrun
    exact ⟨middle, reached, rfl, hrun⟩

/-- A fault changes nothing. -/
theorem run_fail (frame : Frame) (node : Node) (fault : EvalFault) :
    (fail (α := α) frame node fault).run state = (.error (faultAt frame node fault), state) := rfl

/-- A text is written if the sink takes it. -/
theorem run_emit (text : String) :
    (emit text).run state =
      match state.sink.write text with
      | some sink => (.ok (), { state with sink := sink })
      | none => (.error .sinkFull, state) := by
  rw [emit, run_bind]
  change ExceptT.run (match state.sink.write text with
    | some sink => set { state with sink := sink }
    | none => throw .sinkFull : Exec Unit) state = _
  cases state.sink.write text <;> rfl

/-- A variable with a name goes by it. -/
theorem nameOf_eq {sought : Variable} {name : String} (hname : sought.name? = some name)
    (frame : Frame) : nameOf frame sought = return name := by
  rw [nameOf, hname]

/-- The value of a variable is that of its name, if the name has one. -/
theorem run_read (frame : Frame) {reference : Variable} {name : String}
    (hname : reference.name? = some name) :
    (read frame reference).run state =
      match state.scope.find? name with
      | some value => (.ok value, state)
      | none => (fail frame (.var reference) (.undefinedVariable name)).run state := by
  rw [read, nameOf_eq hname, pure_bind, run_bind]
  change ExceptT.run (match state.scope.find? name with
    | some value => return value
    | none => fail frame (.var reference) (.undefinedVariable name) : Exec Value) state = _
  cases state.scope.find? name <;> rfl

/-- A variable is declared by its name. -/
theorem run_declare (frame : Frame) {target : Variable} {name : String}
    (hname : target.name? = some name) (value : Value) :
    (declare frame target value).run state =
      (.ok (), { state with scope := (name, value) :: state.scope }) := by
  rw [declare, nameOf_eq hname]
  rfl

/-- A variable gets a new value if there is one of its name. -/
theorem run_assign (frame : Frame) {target : Variable} {name : String}
    (hname : target.name? = some name) (value : Value) :
    (assign frame target value).run state =
      match state.scope.assign name value with
      | some changed => (.ok (), { state with scope := changed })
      | none => (fail frame (.var target) (.undefinedVariable name)).run state := by
  rw [assign, nameOf_eq hname, pure_bind, run_bind]
  change ExceptT.run (match state.scope.assign name value with
    | some changed => setScope changed
    | none => fail frame (.var target) (.undefinedVariable name) : Exec Unit) state = _
  cases state.scope.assign name value <;> rfl

/-- What is declared has a name. -/
theorem exists_of_run_declare {frame : Frame} {target : Variable} {value : Value} {after : State}
    (hrun : (declare frame target value).run state = (.ok (), after)) :
    ∃ name, target.name? = some name ∧
      after = { state with scope := (name, value) :: state.scope } := by
  cases hname : target.name? with
  | none =>
    rw [declare, nameOf, hname] at hrun
    cases hrun
  | some name =>
    rw [run_declare state frame hname] at hrun
    cases hrun
    exact ⟨name, rfl, rfl⟩

/-- What is assigned has a name, and it is that of a variable. -/
theorem exists_of_run_assign {frame : Frame} {target : Variable} {value : Value} {after : State}
    (hrun : (assign frame target value).run state = (.ok (), after)) :
    ∃ name changed, target.name? = some name ∧ state.scope.assign name value = some changed ∧
      after = { state with scope := changed } := by
  cases hname : target.name? with
  | none =>
    rw [assign, nameOf, hname] at hrun
    cases hrun
  | some name =>
    rw [run_assign state frame hname] at hrun
    split at hrun
    next changed hchanged =>
      cases hrun
      exact ⟨name, changed, rfl, hchanged, rfl⟩
    next => cases hrun

/-- Behind a scope of its own a step leaves the outermost variables, as many as were there. -/
theorem run_withScope (step : Exec α) :
    (withScope step).run state =
      match step.run state with
      | (.ok value, after) =>
        (.ok value, { after with scope := after.scope.keep state.scope.length })
      | (.error error, after) => (.error error, after) := by
  change (step >>= fun result ↦ do
    setScope ((← scope).keep state.scope.length)
    return result).run state = _
  rw [run_bind]
  rcases step.run state with ⟨error | value, after⟩ <;> rfl

/-- A tree is run on its data alone, and the variables from before it are back after it. -/
theorem run_runTree (program : Program) (invoke : Invoker) (tree : Tree) (data : Value) :
    (runTree program invoke tree data).run state =
      match (runBody (program.frame tree) invoke data tree.root).run
          { state with scope := Scope.initial data } with
      | (.ok _, after) => (.ok (), { after with scope := state.scope })
      | (.error error, after) => (.error error, after) := by
  have hscope (state : State) : scope.run state = (.ok state.scope, state) := rfl
  have hset (inner : Scope) (state : State) :
      (setScope inner).run state = (.ok (), { state with scope := inner }) := rfl
  rw [runTree, run_bind, hscope]
  dsimp only
  rw [run_bind, hset]
  dsimp only
  rw [run_bind]
  rcases (runBody (program.frame tree) invoke data tree.root).run
    { state with scope := Scope.initial data } with ⟨result | result, after⟩ <;> rfl

end Steps

/-- An execution is a run of the body of the tree that it starts with. -/
theorem execute_eq {program : Program} {name : String} {tree : Tree}
    (hfind : program.trees.find? name = some tree) (set : String) (limit : Option Nat)
    (data : Value) :
    execute program set name limit data =
      match (runBody (program.frame tree) (invoker program maxInvocations) data tree.root).run
          ⟨Scope.initial data, Sink.limited limit⟩ with
      | (.ok _, after) => ⟨after.sink.output, none⟩
      | (.error error, after) => ⟨after.sink.output, some error⟩ := by
  rw [execute, hfind]
  dsimp only
  rw [run_runTree]
  rcases (runBody (program.frame tree) (invoker program maxInvocations) data tree.root).run
    ⟨Scope.initial data, Sink.limited limit⟩ with ⟨result | result, after⟩ <;> rfl

/-! ### Chains -/

section Chains

variable (frame : Frame)

/-- The fields of a chain are taken of the value of its base. -/
theorem evalOperand_chain (dot : Value) (position : Position) {base : Node} {path : List String}
    (hpath : path ≠ []) (hbase : ∀ position, base ≠ .nil position) :
    evalOperand frame dot (.chain position base path) =
      evalOperand frame dot base >>= fun receiver ↦
        fieldPath frame (.chain position base path) false receiver path := by
  obtain ⟨name, rest, rfl⟩ := List.exists_cons_of_ne_nil hpath
  cases base with
  | nil position => exact absurd rfl (hbase position)
  | _ => rfl

/-- The fields of a chain that is a command are taken of the value of its base. -/
theorem evalCommand_chain (dot : Value) (last : Option Value) (position start : Position)
    {base : Node} {path : List String} (rest : List Node) (hpath : path ≠ [])
    (hbase : ∀ position, base ≠ .nil position) :
    evalCommand frame dot last ⟨position, .chain start base path :: rest⟩ =
      evalOperand frame dot base >>= fun receiver ↦
        fieldPath frame (.chain start base path) (!rest.isEmpty || last.isSome) receiver path := by
  obtain ⟨name, others, rfl⟩ := List.exists_cons_of_ne_nil hpath
  cases base with
  | nil position => exact absurd rfl (hbase position)
  | _ => rfl

end Chains

/-! ### Control structures -/

section Branches

variable (frame : Frame) (invoke : Invoker) (dot : Value)

/-- Runs the else part of a control structure, if it has one. -/
def runOtherwise : Option Body → Exec Flow
  | none => return .normal
  | some body => runBody frame invoke dot body

/-- Runs a round of a loop. -/
def runRound (head : Pipeline) (body : Body) (pair : Value × Value) : Exec Flow :=
  withScope do
    bindRound frame head pair.1 pair.2
    runBody frame invoke pair.2 body

/-- A control structure evaluates its head and then runs one of its parts, or rounds of the first.
-/
theorem runNode_branch (kind : BranchKind) (position : Position) (head : Pipeline) (body : Body)
    (otherwise : Option Body) :
    runNode frame invoke dot (.branch kind position head body otherwise) = withScope do
      let value ← evalPipeline frame dot head
      match kind with
      | .conditional =>
        if value.isTrue then runBody frame invoke dot body
        else runOtherwise frame invoke dot otherwise
      | .context =>
        if value.isTrue then runBody frame invoke value body
        else runOtherwise frame invoke dot otherwise
      | .loop => do
        let rounds ← loopItems frame (.branch kind position head body otherwise)
          head.targets.length value
        if rounds.isEmpty then runOtherwise frame invoke dot otherwise
        else do
          runRounds (runRound frame invoke head body) rounds
          return .normal := by
  cases otherwise <;> rfl

end Branches

/-! ### Unlimited sinks -/

/-- A sink without a limit takes every text. An empty one changes nothing. -/
theorem Sink.write_of_room {sink : Sink} (hroom : sink.room = none) (text : String) :
    sink.write text = some ⟨(if text = "" then [] else [text]) ++ sink.writes, none⟩ := by
  obtain ⟨writes, room⟩ := sink
  subst hroom
  by_cases hempty : text = ""
  · rw [write, if_pos hempty, if_pos hempty]
    rfl
  · rw [write, if_neg hempty, if_neg hempty]
    rfl

/-- A sink without a limit takes every text and puts it at the end of its output. -/
theorem Sink.exists_write {sink : Sink} (hroom : sink.room = none) (text : String) :
    ∃ after, sink.write text = some after ∧ after.room = none ∧
      after.output = sink.output ++ text := by
  refine ⟨_, write_of_room hroom text, rfl, ?_⟩
  by_cases hempty : text = ""
  · simp [output, hempty]
  · simp [output, hempty]

end Stencil.Exec
