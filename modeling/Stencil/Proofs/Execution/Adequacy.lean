import Stencil.Proofs.Execution.Machine

/-!
# The machine is the execution

For each way in which the runner puts steps together, the machine goes through its own steps to the
point that comes next, or to the end with the same error and the same sink (`Performs`). The rules
for going on, for scopes, for rounds and for invocations make it do so for every statement
(`performs_node`), by induction on the tree and, for the templates that are invoked, on the number
of invocations that are left (`serves_invoker`).

So the machine comes to an end from the start of every template, and its end is that of the
execution (`execute_eq_ends`): a fact about the points in between is one about the execution.
-/

set_option autoImplicit false
set_option relaxedAutoImplicit false

namespace Stencil.Exec

open Syntax

/-! ### What the machine does for a step of the runner -/

/-- That the machine does from a point what a step of the runner does: it gets to the point that
comes next, or to the end with the same error and the same sink. -/
def Performs {α : Type} (program : Program) (point : Point)
    (result : Except ExecError α × State) (next : α → State → Point) : Prop :=
  match result with
  | (.ok value, after) => Reaches program point (next value after)
  | (.error error, after) =>
    ∃ last, Reaches program point last ∧ step program last = .ends (some error) ∧
      last.state.sink = after.sink

namespace Performs

section Rules

variable {α β : Type} {program : Program} {point middle : Point} {state : State}

theorem pure {value : α} {next : α → State → Point}
    (hreaches : Reaches program point (next value state)) :
    Performs program point ((return value : Exec α).run state) next := hreaches

/-- Steps may be taken first. -/
theorem precede {result : Except ExecError α × State} {next : α → State → Point}
    (hreaches : Reaches program point middle) (hperforms : Performs program middle result next) :
    Performs program point result next := by
  rcases result with ⟨error | value, after⟩
  · obtain ⟨last, hlast, hends⟩ := hperforms
    exact ⟨last, hreaches.trans hlast, hends⟩
  · exact hreaches.trans hperforms

theorem after {result : Except ExecError α × State} {next : α → State → Point}
    (hstep : step program point = .goes middle) (hperforms : Performs program middle result next) :
    Performs program point result next :=
  .precede (.head hstep (.refl middle)) hperforms

/-- The machine evaluates in one step. -/
theorem evaluate {evaluation : Exec α} (hsilent : Silent evaluation) {next : α → State → Point}
    (hstep : step program point = .evaluate evaluation point.state next) :
    Performs program point (evaluation.run point.state) next := by
  obtain ⟨result, visible, hrun⟩ := hsilent point.state.scope
  have hrun : evaluation.run point.state = (result, ⟨visible, point.state.sink⟩) := hrun _
  rw [Step.evaluate, hrun] at hstep
  rw [hrun]
  cases result with
  | ok value => exact .head hstep (.refl _)
  | error error => exact ⟨point, .refl point, hstep, rfl⟩

/-- A step is followed by another, from each value and state that it may give. -/
theorem bind {first : Exec α} {rest : α → Exec β} {between : α → State → Point}
    {next : β → State → Point} (hfirst : Performs program point (first.run state) between)
    (hrest : ∀ value after, first.run state = (.ok value, after) →
      Performs program (between value after) ((rest value).run after) next) :
    Performs program point ((first >>= rest).run state) next := by
  rw [run_bind]
  rcases hrun : first.run state with ⟨error | value, after⟩
  · rw [hrun] at hfirst
    exact hfirst
  · rw [hrun] at hfirst
    exact .precede hfirst (hrest value after hrun)

/-- A fault that the machine ends with. -/
theorem fail {frame : Frame} {node : Node} {fault : EvalFault} {next : α → State → Point}
    (hstep : step program point = .ends (some (faultAt frame node fault)))
    (hstate : point.state = state) :
    Performs program point ((Exec.fail (α := α) frame node fault).run state) next :=
  ⟨point, .refl point, hstep, congrArg State.sink hstate⟩

/-- A text is written in one step. -/
theorem emit {tree : Tree} {flow : Flow} {later : List Task} (text : String) :
    Performs program ⟨tree, flow, .write text :: later, state⟩ ((emit text).run state)
      fun _ after ↦ ⟨tree, .normal, later, after⟩ := by
  rw [run_emit]
  cases hwrite : state.sink.write text with
  | none =>
    have hstep : step program ⟨tree, flow, .write text :: later, state⟩ =
        .ends (some .sinkFull) := by
      rw [step]
      dsimp only
      rw [hwrite]
    exact ⟨_, .refl _, hstep, rfl⟩
  | some sink =>
    have hstep : step program ⟨tree, flow, .write text :: later, state⟩ =
        .goes ⟨tree, .normal, later, { state with sink := sink }⟩ := by
      rw [step]
      dsimp only
      rw [hwrite]
      rfl
    exact .head hstep (.refl _)

/-- The scope of a step is closed behind it. -/
theorem withScope {inner : Exec Flow} {tree : Tree} {later : List Task}
    (hinner : Performs program point (inner.run state) fun flow after ↦
      ⟨tree, flow, .close state.scope.length :: later, after⟩) :
    Performs program point ((withScope inner).run state) fun flow after ↦
      ⟨tree, flow, later, after⟩ := by
  rw [run_withScope]
  rcases hrun : inner.run state with ⟨error | flow, after⟩
  · rw [hrun] at hinner
    exact hinner
  · rw [hrun] at hinner
    exact hinner.trans (.head rfl (.refl _))

end Rules

end Performs

/-! ### Control structures -/

section Parts

variable (frame : Frame) (invoke : Invoker) (dot : Value) {kind : BranchKind} {position : Position}
  {head : Pipeline} {body : Body} {otherwise : Option Body}

/-- Running a body is running its statements. -/
theorem runBody_eq (body : Body) :
    runBody frame invoke dot body = runNodes frame invoke dot body.nodes := by
  obtain ⟨_, nodes⟩ := body
  rw [runBody]

/-- Runs the part that a control structure has selected. -/
def runPart : Task → Exec Flow
  | .statements dot nodes => runNodes frame invoke dot nodes
  | .rounds head body pairs => do
    runRounds (runRound frame invoke head body) pairs
    return .normal
  | _ => return .normal

/-- A control structure selects a part and runs it. -/
theorem runNode_branch_eq_part :
    runNode frame invoke dot (.branch kind position head body otherwise) =
      withScope (selectPart frame dot kind position head body otherwise >>=
        runPart frame invoke) := by
  have hother : runPart frame invoke (.statements dot (otherwise.elim [] Body.nodes)) =
      runOtherwise frame invoke dot otherwise := by
    cases otherwise with
    | none => rfl
    | some other => exact (runBody_eq frame invoke dot other).symm
  have hbody (dot : Value) : runPart frame invoke (.statements dot body.nodes) =
      runBody frame invoke dot body := (runBody_eq frame invoke dot body).symm
  rw [runNode_branch, selectPart]
  cases kind with
  | conditional | context =>
    simp only [bind_assoc, pure_bind, apply_ite (runPart frame invoke), hother, hbody]
  | loop =>
    simp only [bind_assoc, pure_bind, apply_ite (runPart frame invoke), hother]
    rfl

/-- What a control structure selects is its body, its else part or rounds of its body. -/
theorem selectPart_cases {part : Task} {state after : State}
    (hrun : (selectPart frame dot kind position head body otherwise).run state =
      (.ok part, after)) :
    (∃ dot, part = .statements dot body.nodes) ∨
      part = .statements dot (otherwise.elim [] Body.nodes) ∨
      ∃ pairs, part = .rounds head body pairs := by
  obtain ⟨value, middle, -, hrun⟩ := exists_of_run_bind _ hrun
  cases kind with
  | conditional | context =>
    cases hrun
    split
    · exact .inl ⟨_, rfl⟩
    · exact .inr (.inl rfl)
  | loop =>
    obtain ⟨pairs, reached, -, hrun⟩ := exists_of_run_bind _ hrun
    cases hrun
    split
    · exact .inr (.inl rfl)
    · exact .inr (.inr ⟨pairs, rfl⟩)

/-- An invocation evaluates its argument and then runs the template on it. -/
theorem runNode_template (name : String) (argument : Option Pipeline) :
    runNode frame invoke dot (.template position name argument) =
      match invoke name with
      | .error fault => fail frame (.template position name argument) fault
      | .ok run => do
        let data ← evalArgument frame dot argument
        run data
        return .normal := by
  cases argument <;> rfl

end Parts

/-! ### Statements -/

section Runs

variable {program : Program} {tree : Tree} {invoke : Invoker} {depth : Nat}

/-- That the machine runs the statements of a body as the runner does, inside so many invocations.
-/
def PerformsBody (program : Program) (tree : Tree) (invoke : Invoker) (depth : Nat)
    (nodes : List Node) : Prop :=
  ∀ (dot : Value) (state : State) (later : List Task), nestingOf later = depth →
    Performs program ⟨tree, .normal, .statements dot nodes :: later, state⟩
      ((runNodes (program.frame tree) invoke dot nodes).run state) fun flow after ↦
        ⟨tree, flow, later, after⟩

/-- That the machine does what an invoker does, inside so many invocations. -/
def Serves (program : Program) (invoke : Invoker) (depth : Nat) : Prop :=
  ∀ name, match program.trees.find? name with
    | none => invoke name = .error (.undefinedTemplate name)
    | some callee =>
      if maxInvocations ≤ depth then invoke name = .error .tooManyInvocations
      else ∃ run, invoke name = .ok run ∧
        ∀ (data : Value) (state : State) (tree : Tree) (later : List Task),
          nestingOf later = depth →
            Performs program
              ⟨callee, .normal,
                .statements data callee.root.nodes :: .resume tree state.scope :: later,
                { state with scope := Scope.initial data }⟩
              ((run data).run state) fun _ after ↦ ⟨tree, .normal, later, after⟩

/-- The rounds of a loop are run in a row. A break ends them. -/
theorem performs_rounds {head : Pipeline} {body : Body}
    (hbody : PerformsBody program tree invoke depth body.nodes) (later : List Task)
    (hdepth : nestingOf later = depth) (pairs : List (Value × Value)) {flow : Flow}
    (hflow : flow ≠ .breaking) (state : State) :
    Performs program ⟨tree, flow, .rounds head body pairs :: later, state⟩
      ((runRounds (runRound (program.frame tree) invoke head body) pairs).run state)
      fun _ after ↦ ⟨tree, .normal, later, after⟩ := by
  induction pairs generalizing flow state with
  | nil =>
    refine .pure (.head ?_ (.refl _))
    cases flow <;> rfl
  | cons pair rest ih =>
    obtain ⟨index, item⟩ := pair
    have hbind : Performs program
        ⟨tree, flow, .rounds head body ((index, item) :: rest) :: later, state⟩
        ((bindRound (program.frame tree) head index item).run state) fun _ after ↦
          ⟨tree, .normal, .statements item body.nodes :: .close state.scope.length ::
            .rounds head body rest :: later, after⟩ := by
      refine .evaluate (.bindRound _ head index item) ?_
      cases flow with
      | breaking => exact absurd rfl hflow
      | normal | continuing => rfl
    have hround : Performs program
        ⟨tree, flow, .rounds head body ((index, item) :: rest) :: later, state⟩
        ((runRound (program.frame tree) invoke head body (index, item)).run state)
        fun flow after ↦ ⟨tree, flow, .rounds head body rest :: later, after⟩ := by
      refine .withScope (.bind hbind fun _ after _ ↦ ?_)
      rw [runBody_eq]
      exact hbody item after _ hdepth
    rw [runRounds]
    refine .bind hround fun flow after _ ↦ ?_
    cases flow with
    | breaking => exact .pure (.head rfl (.refl _))
    | normal | continuing => exact ih (by decide) after

/-- That the machine runs a statement of a body as the runner does, inside so many invocations. -/
def PerformsNode (program : Program) (tree : Tree) (invoke : Invoker) (depth : Nat)
    (node : Node) : Prop :=
  ∀ (dot : Value) (state : State) (rest : List Node) (later : List Task),
    nestingOf later = depth →
      Performs program ⟨tree, .normal, .statements dot (node :: rest) :: later, state⟩
        ((runNode (program.frame tree) invoke dot node).run state) fun flow after ↦
          ⟨tree, flow, .statements dot rest :: later, after⟩

/-- A control structure is run as its parts are. -/
theorem performs_branch {kind : BranchKind} {position : Position} {head : Pipeline} {body : Body}
    {otherwise : Option Body} (hbody : PerformsBody program tree invoke depth body.nodes)
    (hother : PerformsBody program tree invoke depth (otherwise.elim [] Body.nodes)) :
    PerformsNode program tree invoke depth (.branch kind position head body otherwise) := by
  rintro dot state rest later rfl
  rw [runNode_branch_eq_part]
  have hselect : Performs program
      ⟨tree, .normal, .statements dot (.branch kind position head body otherwise :: rest) :: later,
        state⟩
      ((selectPart (program.frame tree) dot kind position head body otherwise).run state)
      fun part after ↦
        ⟨tree, .normal, part :: .close state.scope.length :: .statements dot rest :: later,
          after⟩ :=
    .evaluate (.selectPart _ dot kind position head body otherwise) rfl
  refine .withScope (.bind hselect fun part after hrun ↦ ?_)
  obtain ⟨dot, rfl⟩ | rfl | ⟨pairs, rfl⟩ := selectPart_cases _ dot hrun
  · exact hbody dot after _ rfl
  · exact hother dot after _ rfl
  · have hrounds : Performs program
        ⟨tree, .normal, .rounds head body pairs :: .close state.scope.length ::
          .statements dot rest :: later, after⟩
        ((runRounds (runRound (program.frame tree) invoke head body) pairs).run after)
        fun _ after ↦
          ⟨tree, .normal, .close state.scope.length :: .statements dot rest :: later, after⟩ :=
      performs_rounds hbody (.close state.scope.length :: .statements dot rest :: later) rfl pairs
        (show Flow.normal ≠ .breaking by decide) after
    exact .bind hrounds fun _ after _ ↦ .pure (.refl _)

/-- An invocation is run as the invoker runs it. -/
theorem performs_template (hserves : Serves program invoke depth) (position : Position)
    (name : String) (argument : Option Pipeline) :
    PerformsNode program tree invoke depth (.template position name argument) := by
  rintro dot state rest later rfl
  have hname := hserves name
  have hstep : step program
      ⟨tree, .normal, .statements dot (.template position name argument :: rest) :: later, state⟩ =
        stepNode program ⟨tree, .normal,
          .statements dot (.template position name argument :: rest) :: later, state⟩ dot
          (.statements dot rest :: later) (.template position name argument) := rfl
  rw [runNode_template]
  rw [stepNode] at hstep
  cases hfind : program.trees.find? name with
  | none =>
    rw [hfind] at hname hstep
    rw [hname]
    exact .fail hstep rfl
  | some callee =>
    rw [hfind] at hname hstep
    dsimp only at hname hstep
    by_cases hdepth : maxInvocations ≤ nestingOf later
    · rw [if_pos hdepth] at hname
      rw [hname]
      refine .fail (hstep.trans (if_pos hdepth)) rfl
    · rw [if_neg hdepth] at hname
      obtain ⟨run, hrun, hperforms⟩ := hname
      rw [hrun]
      refine .bind (.evaluate (.evalArgument _ dot argument) (hstep.trans (if_neg hdepth)))
        fun data after _ ↦ ?_
      exact .bind (hperforms data after tree (.statements dot rest :: later) rfl) fun _ after _ ↦
        .pure (.refl _)

mutual

/-- The machine runs every statement as the runner does. -/
theorem performs_node (hserves : Serves program invoke depth) : (node : Node) →
    PerformsNode program tree invoke depth node
  | .text _ text => fun _ _ _ _ _ ↦
    .after rfl (.bind (.emit text) fun _ _ _ ↦ .pure (.refl _))
  | .action _ inner => by
    rintro dot state rest later -
    rw [runNode]
    refine .bind (.evaluate (.evalPipeline _ dot inner) rfl) fun value after _ ↦ ?_
    cases inner.targets.isEmpty with
    | true => exact .bind (.emit value.output) fun _ _ _ ↦ .pure (.refl _)
    | false => exact .pure (.refl _)
  | .branch _ _ _ body none =>
    performs_branch (performs_body hserves body) (performs_nodes hserves [])
  | .branch _ _ _ body (some other) =>
    performs_branch (performs_body hserves body) (performs_body hserves other)
  | .template position name argument => performs_template hserves position name argument
  | .comment .. | .breakLoop _ | .continueLoop _ => fun _ _ _ _ _ ↦ .pure (.head rfl (.refl _))
  | .pipeline _ | .command _ | .identifier .. | .var _ | .dot _ | .nil _ | .field .. | .chain ..
  | .bool .. | .number _ | .string .. => fun _ _ _ _ _ ↦ .fail rfl rfl

/-- The machine runs statements in a row as the runner does. -/
theorem performs_nodes (hserves : Serves program invoke depth) : (nodes : List Node) →
    PerformsBody program tree invoke depth nodes
  | [] => fun _ _ _ _ ↦ .pure (.head rfl (.refl _))
  | node :: rest => by
    rintro dot state later hdepth
    rw [runNodes]
    refine .bind (performs_node hserves node dot state rest later hdepth) fun flow after _ ↦ ?_
    cases flow with
    | normal => exact performs_nodes hserves rest dot after later hdepth
    | breaking | continuing => cases rest <;> exact .pure (.head rfl (.refl _))

/-- The machine runs a body as the runner does. -/
theorem performs_body (hserves : Serves program invoke depth) : (body : Body) →
    PerformsBody program tree invoke depth body.nodes
  | ⟨_, nodes⟩ => performs_nodes hserves nodes

end

/-! ### Invocations and executions -/

/-- Inside so many invocations the machine does what the invoker does that allows as many further
ones as are left. -/
theorem serves_invoker {depth more : Nat} (hmore : depth + more = maxInvocations) :
    Serves program (invoker program more) depth := by
  induction more generalizing depth with
  | zero =>
    intro name
    have hdepth : maxInvocations ≤ depth := Nat.le_of_eq hmore.symm
    rw [invoker]
    cases program.trees.find? name with
    | none => rfl
    | some callee =>
      dsimp only
      rw [if_pos hdepth]
  | succ more ih =>
    intro name
    have hdepth : ¬ maxInvocations ≤ depth := by omega
    rw [invoker]
    cases program.trees.find? name with
    | none => rfl
    | some callee =>
      dsimp only
      rw [if_neg hdepth]
      refine ⟨_, rfl, ?_⟩
      rintro data state tree later rfl
      have hserves : Serves program (invoker program more) (nestingOf later + 1) := ih (by omega)
      have hroot : PerformsBody program callee (invoker program more) (nestingOf later + 1)
          callee.root.nodes := performs_body hserves callee.root
      have hbody := hroot data { state with scope := Scope.initial data }
        (.resume tree state.scope :: later) (List.countP_cons_of_pos rfl)
      rw [run_runTree, runBody_eq]
      rcases hrun : (runNodes (program.frame callee) (invoker program more) data
        callee.root.nodes).run { state with scope := Scope.initial data } with
        ⟨error | flow, after⟩
      · rw [hrun] at hbody
        exact hbody
      · rw [hrun] at hbody
        exact hbody.trans (.head rfl (.refl _))

/-- An execution is what the machine does from its start: it ends after some number of steps, with
the error of the execution, and its sink has accepted the output of the execution. -/
theorem execute_eq_ends {name : String} (hfind : program.trees.find? name = some tree)
    (set : String) (limit : Option Nat) (data : Value) :
    ∃ (count : Nat) (last : Point) (error : Option ExecError),
      Takes program count (start tree data limit) last ∧ step program last = .ends error ∧
        execute program set name limit data = ⟨last.state.sink.output, error⟩ := by
  have hserves : Serves program (invoker program maxInvocations) 0 :=
    serves_invoker (Nat.zero_add maxInvocations)
  have hroot : PerformsBody program tree (invoker program maxInvocations) 0 tree.root.nodes :=
    performs_body hserves tree.root
  have hbody := hroot data ⟨Scope.initial data, Sink.limited limit⟩ [] rfl
  rw [execute_eq hfind, runBody_eq]
  rcases hrun : (runNodes (program.frame tree) (invoker program maxInvocations) data
    tree.root.nodes).run ⟨Scope.initial data, Sink.limited limit⟩ with ⟨error | flow, after⟩
  · rw [hrun] at hbody
    obtain ⟨last, ⟨count, htakes⟩, hends, hsink⟩ := hbody
    exact ⟨count, last, some error, htakes, hends, by rw [hsink]⟩
  · rw [hrun] at hbody
    obtain ⟨count, htakes⟩ := hbody
    exact ⟨count, _, none, htakes, rfl, rfl⟩

/-- The end that the machine comes to is that of the execution. -/
theorem execute_eq_of_takes {name : String} (hfind : program.trees.find? name = some tree)
    (set : String) {limit : Option Nat} {data : Value} {count : Nat} {last : Point}
    {error : Option ExecError} (htakes : Takes program count (start tree data limit) last)
    (hends : step program last = .ends error) :
    execute program set name limit data = ⟨last.state.sink.output, error⟩ := by
  obtain ⟨_, _, _, htakesToo, hendsToo, hrun⟩ := execute_eq_ends hfind set limit data
  obtain ⟨-, rfl, rfl⟩ := htakes.end_unique hends htakesToo hendsToo
  exact hrun

end Runs

end Stencil.Exec
