import Stencil.Proofs.Execution.Termination

/-!
# Invoking a template is executing it

An execution may be put on top of tasks that are left to do and of texts that were written before
(`Point.atop`). It takes the same steps there, since a step looks at its own tasks alone and only
adds to what is written, with one exception: an invocation looks at how many invocations there are
in all (`step_atop`). An invocation of a template puts its execution on top of the tasks of the
template that invokes it; so it writes what the execution of the template writes, and fails as that
fails or goes back to the tree, the dot and the variables from before it (`invocation_alike`).

The number of invocations is looked at before the argument is evaluated. So the room that the
execution needs has to be counted with the invocations that it comes to, whether or not their
arguments have a value (`Point.demand`): there is an invocation that needs no more room than it has,
and yet fails otherwise than the execution (`not_invocation_alike`).
-/

set_option autoImplicit false
set_option relaxedAutoImplicit false

namespace Stencil.Exec

open Syntax

/-! ### On top of other tasks -/

/-- Whether the next statement invokes a template of the set. -/
def Point.invokes (program : Program) (point : Point) : Bool :=
  match point.flow, point.tasks with
  | .normal, .statements _ (.template _ name _ :: _) :: _ => (program.trees.find? name).isSome
  | _, _ => false

/-- How many invocations a point asks for: those that it is inside, and the next statement if it is
one. -/
def Point.demand (program : Program) (point : Point) : Nat :=
  point.nesting + if point.invokes program then 1 else 0

/-- The point with further tasks beneath its own. -/
def Point.onto (later : List Task) (point : Point) : Point :=
  { point with tasks := point.tasks ++ later }

/-- The step with further tasks beneath. -/
def Step.onto (later : List Task) : Step → Step
  | goes point => .goes (point.onto later)
  | ends error => .ends error

section Onto

variable {program : Program} {point : Point} (later : List Task)

theorem Step.evaluate_onto {α : Type} (evaluation : Exec α) (state : State)
    {next other : α → State → Point}
    (hnext : ∀ value after, other value after = (next value after).onto later) :
    Step.evaluate evaluation state other = (Step.evaluate evaluation state next).onto later := by
  rw [Step.evaluate, Step.evaluate]
  rcases evaluation.run state with ⟨error | value, after⟩
  · rfl
  · exact congrArg Step.goes (hnext value after)

theorem stepNode_onto (dot : Value) (tasks : List Task) (node : Node)
    (hroom : ∀ position name argument, node = .template position name argument →
      (program.trees.find? name).isSome → point.nesting + nestingOf later < maxInvocations) :
    stepNode program (point.onto later) dot (tasks ++ later) node =
      (stepNode program point dot tasks node).onto later := by
  cases node with
  | action _ inner =>
    refine Step.evaluate_onto later _ point.state fun value after ↦ ?_
    cases inner.targets.isEmpty <;> rfl
  | branch => exact Step.evaluate_onto later _ point.state fun _ _ ↦ rfl
  | template position name argument =>
    have hroom := hroom position name argument rfl
    simp only [stepNode]
    cases hfind : program.trees.find? name with
    | none => rfl
    | some callee =>
      rw [hfind] at hroom
      have hbelow := hroom rfl
      have habove : ¬ maxInvocations ≤ (point.onto later).nesting := by
        rw [Point.nesting, Point.onto, nestingOf_append]
        exact Nat.not_le_of_lt hbelow
      have hown : ¬ maxInvocations ≤ point.nesting := by omega
      dsimp only
      rw [if_neg habove, if_neg hown]
      exact Step.evaluate_onto later _ point.state fun _ _ ↦ rfl
  | _ => rfl

/-- As long as something of its own is left to do, a step is the same with further tasks beneath it,
if there is room for them and for the invocations beneath. -/
theorem step_onto (htasks : point.tasks ≠ [])
    (hroom : point.invokes program = true → point.nesting + nestingOf later < maxInvocations) :
    step program (point.onto later) = (step program point).onto later := by
  obtain ⟨tree, flow, tasks, state⟩ := point
  match tasks with
  | [] => exact absurd rfl htasks
  | .write text :: tasks =>
    simp only [step, Point.onto, List.cons_append]
    cases state.sink.write text <;> rfl
  | .statements _ [] :: tasks => rfl
  | .statements dot (node :: rest) :: tasks =>
    cases flow with
    | normal =>
      refine stepNode_onto later dot (.statements dot rest :: tasks) node ?_
      rintro position name argument rfl hfound
      exact hroom hfound
    | breaking | continuing => rfl
  | .close _ :: tasks => rfl
  | .rounds head body [] :: tasks => cases flow <;> rfl
  | .rounds head body ((index, item) :: rest) :: tasks =>
    cases flow with
    | breaking => rfl
    | normal | continuing => exact Step.evaluate_onto later _ state fun _ _ ↦ rfl
  | .resume .. :: tasks => rfl

end Onto

/-! ### On top of other output -/

/-- The sink with further texts below its own. -/
def Sink.above (below : List String) (sink : Sink) : Sink := ⟨sink.writes ++ below, sink.room⟩

theorem Sink.write_above (below : List String) (sink : Sink) (text : String) :
    (sink.above below).write text = (sink.write text).map (Sink.above below) := by
  rw [write, write]
  by_cases hempty : text = ""
  · rw [if_pos hempty, if_pos hempty]
    rfl
  · rw [if_neg hempty, if_neg hempty]
    obtain ⟨writes, room⟩ := sink
    cases room with
    | none => rfl
    | some room =>
      dsimp only [above]
      split <;> rfl

/-- The point with further tasks beneath its own and further texts below those it has written. -/
def Point.atop (later : List Task) (below : List String) (point : Point) : Point :=
  (point.onto later).withSink (point.state.sink.above below)

/-- The step on top of further tasks and texts. -/
def Step.atop (later : List Task) (below : List String) : Step → Step
  | goes point => .goes (point.atop later below)
  | ends error => .ends error

section Atop

variable {program : Program} {point last : Point} {later : List Task}

/-- As long as something of its own is left to do, a step is the same on top of others, if there is
room for what it asks for. -/
theorem step_atop (below : List String) (htasks : point.tasks ≠ [])
    (hroom : point.demand program + nestingOf later ≤ maxInvocations) :
    step program (point.atop later below) = (step program point).atop later below := by
  obtain ⟨task, others, hcons⟩ := List.exists_cons_of_ne_nil htasks
  by_cases hwrite : ∃ text, task = .write text
  · obtain ⟨text, rfl⟩ := hwrite
    rw [step, step, show (point.atop later below).tasks = point.tasks ++ later from rfl, hcons]
    dsimp only [List.cons_append]
    rw [show (point.atop later below).state.sink = point.state.sink.above below from rfl,
      Sink.write_above]
    cases point.state.sink.write text <;> rfl
  · have honto : step program (point.onto later) = (step program point).onto later := by
      refine step_onto later htasks fun hinvokes ↦ ?_
      rw [Point.demand, if_pos hinvokes] at hroom
      omega
    have hsilent (tasks : List Task) (htop : point.tasks = tasks) (text : String)
        (rest : List Task) : tasks ≠ .write text :: rest := by
      rintro rfl
      rw [hcons] at htop
      cases htop
      exact hwrite ⟨text, rfl⟩
    rw [Point.atop, step_withSink, honto]
    · cases hstep : step program point with
      | ends error => rfl
      | goes next =>
        have hsink := sink_eq_of_step hstep (hsilent _ rfl)
        rw [Step.atop, Point.atop, hsink]
        rfl
    · intro text rest htop
      rw [Point.onto, hcons] at htop
      cases htop
      exact hwrite ⟨text, rfl⟩

/-- What is left of an execution that ends without an error is nothing. -/
theorem tasks_eq_nil (hends : step program point = .ends none) : point.tasks = [] := by
  have hevaluate {α : Type} {evaluation : Exec α} {state : State} {next : α → State → Point} :
      Step.evaluate evaluation state next ≠ .ends none := by
    unfold Step.evaluate
    split <;> exact nofun
  obtain ⟨tree, flow, tasks, state⟩ := point
  match tasks with
  | [] => rfl
  | .write text :: later =>
    simp only [step] at hends
    split at hends <;> cases hends
  | .statements _ [] :: later => cases hends
  | .statements dot (node :: rest) :: later =>
    cases flow with
    | breaking | continuing => cases hends
    | normal =>
      simp only [step] at hends
      cases node with
      | action | branch => exact absurd hends hevaluate
      | template position name argument =>
        simp only [stepNode] at hends
        split at hends
        next => cases hends
        next =>
          split at hends
          next => cases hends
          next => exact absurd hends hevaluate
      | _ => cases hends
  | .close _ :: later => cases hends
  | .rounds head body [] :: later => cases flow <;> cases hends
  | .rounds head body ((index, item) :: rest) :: later =>
    cases flow with
    | breaking => cases hends
    | normal | continuing => exact absurd hends hevaluate
  | .resume .. :: later => cases hends

/-- An execution takes the same steps on top of others, if there is room for all it asks for. -/
theorem Takes.atop {count : Nat} (htakes : Takes program count point last) (below : List String)
    (hroom : ∀ other, Reaches program point other →
      other.demand program + nestingOf later ≤ maxInvocations) :
    Takes program count (point.atop later below) (last.atop later below) := by
  induction htakes with
  | stay => exact .stay _
  | @move count point middle last hstep _ ih =>
    have htasks : point.tasks ≠ [] := by
      intro htasks
      rw [step, htasks] at hstep
      cases hstep
    have hatop := step_atop below htasks (hroom point (.refl point))
    rw [hstep] at hatop
    exact .move hatop (ih fun other hother ↦ hroom other (.head hstep hother))

end Atop

/-! ### Invocations -/

section Invocations

variable {program : Program} {point : Point} {dot data : Value} {position : Position}
  {name : String} {argument : Option Pipeline} {rest : List Node} {later : List Task}
  {callee : Tree} {after : State}

/-- An invocation puts the start of the execution of its template on top. -/
theorem step_template (hfind : program.trees.find? name = some callee)
    (hflow : point.flow = .normal)
    (htasks : point.tasks = .statements dot (.template position name argument :: rest) :: later)
    (hargument : (evalArgument (program.frame point.tree) dot argument).run point.state =
      (.ok data, after))
    (hroom : point.nesting < maxInvocations) :
    step program point = .goes ((start callee data point.state.sink.room).atop
      (.resume point.tree after.scope :: .statements dot rest :: later)
      point.state.sink.writes) := by
  have hsink : after.sink = point.state.sink := by
    obtain ⟨result, visible, hrun⟩ := Silent.evalArgument (program.frame point.tree) dot argument
      point.state.scope
    have hsame := (hrun point.state.sink).symm.trans hargument
    cases hsame
    rfl
  rw [step, htasks]
  dsimp only
  rw [hflow]
  dsimp only [stepNode]
  rw [hfind]
  dsimp only
  rw [if_neg (Nat.not_le_of_lt hroom), Step.evaluate_ok hargument, hsink]
  rfl

/-- What the machine does from an invocation is what it does from the start of the execution, if the
execution asks for fewer invocations than are left. -/
theorem invocation_atop (point : Point) (hfind : program.trees.find? name = some callee)
    (hflow : point.flow = .normal)
    (htasks : point.tasks = .statements dot (.template position name argument :: rest) :: later)
    (hargument : (evalArgument (program.frame point.tree) dot argument).run point.state =
      (.ok data, after))
    (hnests : ∀ other, Reaches program (start callee data point.state.sink.room) other →
      other.demand program < maxInvocations - point.nesting)
    {last : Point} {error : Option ExecError}
    (hlast : Reaches program (start callee data point.state.sink.room) last)
    (hends : step program last = .ends error) :
    match error with
    | none =>
      Reaches program point ⟨point.tree, .normal, .statements dot rest :: later,
        after.scope, last.state.sink.above point.state.sink.writes⟩
    | some _ =>
      ∃ stop, Reaches program point stop ∧ step program stop = .ends error ∧
        stop.state.sink = last.state.sink.above point.state.sink.writes := by
  have hlimit := hnests _ (.refl _)
  have hfirst := step_template hfind hflow htasks hargument (by omega)
  have hnesting : nestingOf (.resume point.tree after.scope :: .statements dot rest :: later) =
      point.nesting + 1 := by
    rw [Point.nesting, htasks]
    exact nestingOf_cons (.resume point.tree after.scope) later
  have hroom (other : Point)
      (hother : Reaches program (start callee data point.state.sink.room) other) :
      other.demand program +
        nestingOf (.resume point.tree after.scope :: .statements dot rest :: later) ≤
          maxInvocations := by
    have hother := hnests other hother
    omega
  obtain ⟨count, htakes⟩ := hlast
  have hatop := Reaches.head hfirst ⟨count, htakes.atop point.state.sink.writes hroom⟩
  cases error with
  | none =>
    have hdone := tasks_eq_nil hends
    refine hatop.trans (.head ?_ (.refl _))
    rw [step, show (last.atop (.resume point.tree after.scope :: .statements dot rest :: later)
      point.state.sink.writes).tasks = last.tasks ++ _ from rfl, hdone]
    rfl
  | some error =>
    have hleft : last.tasks ≠ [] := by
      intro hdone
      rw [step, hdone] at hends
      cases hends
    refine ⟨_, hatop, ?_, rfl⟩
    rw [step_atop _ hleft (hroom last ⟨count, htakes⟩), hends]
    rfl

/-! ### The runner at an invocation -/

/-- The returns from some templates are as many invocations. -/
theorem nestingOf_replicate (tree : Tree) (depth : Nat) :
    nestingOf (List.replicate depth (.resume tree [])) = depth := by
  rw [nestingOf, List.countP_replicate]
  exact if_pos rfl

/-- From the last statement of a template inside others, the machine goes back through all of them.
-/
theorem takes_back (program : Program) (tree : Tree) (flow : Flow) (dot : Value) (state : State)
    (depth : Nat) :
    ∃ last, Takes program (depth + 1)
      ⟨tree, flow, .statements dot [] :: List.replicate depth (.resume tree []), state⟩ last ∧
        step program last = .ends none := by
  have hback (flow : Flow) (state : State) (depth : Nat) : ∃ last,
      Takes program depth ⟨tree, flow, List.replicate depth (.resume tree []), state⟩ last ∧
        step program last = .ends none := by
    induction depth generalizing flow state with
    | zero => exact ⟨_, .stay _, rfl⟩
    | succ depth ih =>
      obtain ⟨last, htakes, hends⟩ := ih .normal { state with scope := [] }
      exact ⟨last, .move rfl htakes, hends⟩
  obtain ⟨last, htakes, hends⟩ := hback flow state depth
  exact ⟨last, .move rfl htakes, hends⟩

variable {tree : Tree} {invoke : Invoker} {depth : Nat} {node : Node} {state : State}

/-- The runner ends a statement as the machine does that goes on behind it. -/
theorem run_eq_of_reaches (hperforms : PerformsNode program tree invoke depth node) {flow : Flow}
    (hreaches : ∀ later, nestingOf later = depth →
      Reaches program ⟨tree, .normal, .statements dot [node] :: later, state⟩
        ⟨tree, flow, .statements dot [] :: later, after⟩) :
    (runNode (program.frame tree) invoke dot node).run state = (.ok flow, after) := by
  have hdepth := nestingOf_replicate tree depth
  have hrun := hperforms dot state [] _ hdepth
  obtain ⟨count, htakes⟩ := hreaches _ hdepth
  obtain ⟨last, hback, hends⟩ := takes_back program tree flow dot after depth
  rcases hresult : (runNode (program.frame tree) invoke dot node).run state with
    ⟨error | value, reached⟩ <;> rw [hresult] at hrun
  · obtain ⟨stop, ⟨more, hstop⟩, hfails, -⟩ := hrun
    obtain ⟨-, -, hsame⟩ := (htakes.trans hback).end_unique hends hstop hfails
    cases hsame
  · -- Both ways the end is as far behind the statement, so the statement takes as many steps.
    obtain ⟨more, hmore⟩ := hrun
    obtain ⟨other, hbackToo, hendsToo⟩ :=
      takes_back program tree value dot reached depth
    obtain ⟨hcount, -⟩ :=
      (htakes.trans hback).end_unique hends (hmore.trans hbackToo) hendsToo
    obtain rfl : count = more := Nat.add_right_cancel hcount
    cases htakes.unique hmore
    rfl

/-- The runner fails at a statement as the machine does. -/
theorem run_eq_of_fails (hperforms : PerformsNode program tree invoke depth node)
    {error : ExecError} {sink : Sink}
    (hfails : ∀ later, nestingOf later = depth → ∃ stop,
      Reaches program ⟨tree, .normal, .statements dot [node] :: later, state⟩ stop ∧
        step program stop = .ends (some error) ∧ stop.state.sink = sink) :
    ∃ scope, (runNode (program.frame tree) invoke dot node).run state =
      (.error error, ⟨scope, sink⟩) := by
  have hdepth := nestingOf_replicate tree depth
  have hrun := hperforms dot state [] _ hdepth
  obtain ⟨stop, ⟨count, htakes⟩, hends, rfl⟩ := hfails _ hdepth
  rcases hresult : (runNode (program.frame tree) invoke dot node).run state with
    ⟨failure | value, reached⟩ <;> rw [hresult] at hrun
  · obtain ⟨last, ⟨more, hlast⟩, hendsToo, hsink⟩ := hrun
    obtain ⟨-, rfl, hsame⟩ := htakes.end_unique hends hlast hendsToo
    cases hsame
    exact ⟨reached.scope, by rw [hsink]⟩
  · obtain ⟨more, hmore⟩ := hrun
    obtain ⟨last, hback, hendsToo⟩ :=
      takes_back program tree value dot reached depth
    obtain ⟨-, -, hsame⟩ := htakes.end_unique hends (hmore.trans hback) hendsToo
    cases hsame

/-- Invoking a template is executing it. Where a statement invokes a template of the set on data and
the execution of that template on the data asks for fewer invocations than are left, the statement
writes what the execution writes. It fails if that fails, with the same error; otherwise the tree,
the dot and the variables after it are those after its argument. This is so of the machine, whatever
is left to do after the statement, and of the runner. -/
theorem invocation_alike (hfind : program.trees.find? name = some callee)
    (hflow : point.flow = .normal)
    (htasks : point.tasks = .statements dot (.template position name argument :: rest) :: later)
    (hargument : (evalArgument (program.frame point.tree) dot argument).run point.state =
      (.ok data, after))
    (hnests : ∀ other, Reaches program (start callee data point.state.sink.room) other →
      other.demand program < maxInvocations - point.nesting) (set : String) :
    ∃ (last : Point) (error : Option ExecError),
      Reaches program (start callee data point.state.sink.room) last ∧
        step program last = .ends error ∧
        execute program set name point.state.sink.room data = ⟨last.state.sink.output, error⟩ ∧
        let sink := last.state.sink.above point.state.sink.writes
        let run := (runNode (program.frame point.tree)
          (invoker program (maxInvocations - point.nesting)) dot
          (.template position name argument)).run point.state
        match error with
        | none =>
          Reaches program point
              ⟨point.tree, .normal, .statements dot rest :: later, after.scope, sink⟩ ∧
            run = (.ok .normal, ⟨after.scope, sink⟩)
        | some error =>
          (∃ stop, Reaches program point stop ∧ step program stop = .ends (some error) ∧
              stop.state.sink = sink) ∧
            ∃ scope, run = (.error error, ⟨scope, sink⟩) := by
  obtain ⟨count, last, error, htakes, hends, hrun⟩ :=
    execute_eq_ends hfind set point.state.sink.room data
  have hlast : Reaches program (start callee data point.state.sink.room) last := ⟨count, htakes⟩
  have hlimit := hnests _ (.refl _)
  have hserves : Serves program (invoker program (maxInvocations - point.nesting)) point.nesting :=
    serves_invoker (by omega)
  have hperforms : PerformsNode program point.tree
      (invoker program (maxInvocations - point.nesting)) point.nesting
      (.template position name argument) := performs_template hserves position name argument
  -- The runner is at the statement whatever is left to do after it.
  have halone (later : List Task) (hlater : nestingOf later = point.nesting) :=
    invocation_atop ⟨point.tree, .normal,
      .statements dot [.template position name argument] :: later, point.state⟩ hfind rfl rfl
      hargument (by simpa [Point.nesting, Task.isResume, hlater] using hnests) hlast hends
  refine ⟨last, error, hlast, hends, hrun, ?_⟩
  have hpoint := invocation_atop point hfind hflow htasks hargument hnests hlast hends
  cases error with
  | none => exact ⟨hpoint, run_eq_of_reaches hperforms halone⟩
  | some error => exact ⟨hpoint, run_eq_of_fails hperforms halone⟩

end Invocations

/-! ### Cases -/

namespace Greeting

/-- The pipeline that is the dot. -/
def dot : Pipeline := ⟨⟨0, 1⟩, false, [], [⟨⟨0, 1⟩, [.dot ⟨0, 1⟩]⟩]⟩

/-- `Hello [.]`. -/
def hello : Tree := ⟨"hello", "page", ⟨0, 1⟩, [.text ⟨0, 1⟩ "Hello ", .action ⟨0, 1⟩ dot]⟩

def program : Program := ⟨⟨[hello]⟩, {}, .default⟩

/-- Inside a template, in front of `[template "hello" .]!`, with a variable and some output. -/
def point : Point :=
  ⟨⟨"page", "page", ⟨0, 1⟩, []⟩, .normal,
    [.statements (.string "Ann") [.template ⟨0, 1⟩ "hello" (some dot), .text ⟨0, 1⟩ "!"]],
    [("$n", .int 1), ("$", .null)], ⟨["> "], none⟩⟩

/-- The point behind the invocation. -/
def behind : Point :=
  ⟨point.tree, .normal, [.statements (.string "Ann") [.text ⟨0, 1⟩ "!"]], point.state.scope,
    ⟨["Ann", "Hello ", "> "], none⟩⟩

/-- The end of the execution of the template alone. -/
def last : Point :=
  ⟨hello, .normal, [], Scope.initial (.string "Ann"), ⟨["Ann", "Hello "], none⟩⟩

theorem takes_last : Takes program 5 (start hello (.string "Ann") none) last :=
  .move rfl (.move rfl (.move rfl (.move rfl (.move rfl (.stay _)))))

/-- The template has no invocation, so it asks for none. -/
theorem demand_eq {other : Point}
    (hother : Reaches program (start hello (.string "Ann") none) other) :
    other.demand program = 0 := by
  obtain rfl | hother := hother.eq_or_of_step rfl
  · rfl
  obtain rfl | hother := hother.eq_or_of_step rfl
  · rfl
  obtain rfl | hother := hother.eq_or_of_step rfl
  · rfl
  obtain rfl | hother := hother.eq_or_of_step rfl
  · rfl
  obtain rfl | hother := hother.eq_or_of_step rfl
  · rfl
  obtain rfl := hother.eq_of_ends rfl
  rfl

end Greeting

theorem invocation_alike_greeting :
    Reaches Greeting.program Greeting.point Greeting.behind ∧
      (runNode (Greeting.program.frame Greeting.point.tree)
        (invoker Greeting.program maxInvocations) (.string "Ann")
        (.template ⟨0, 1⟩ "hello" (some Greeting.dot))).run Greeting.point.state =
          (.ok .normal, Greeting.behind.state) := by
  have hnests (other : Point)
      (hother : Reaches Greeting.program (start Greeting.hello (.string "Ann") none) other) :
      other.demand Greeting.program < maxInvocations - Greeting.point.nesting := by
    rw [Greeting.demand_eq hother]
    decide
  have hfind : Greeting.program.trees.find? "hello" = some Greeting.hello := rfl
  have hflow : Greeting.point.flow = .normal := rfl
  obtain ⟨last, error, ⟨count, hlast⟩, hends, -, halike⟩ :=
    invocation_alike hfind hflow rfl rfl hnests "page"
  obtain ⟨-, rfl, rfl⟩ := Greeting.takes_last.end_unique rfl hlast hends
  exact halike

namespace Countdown

/-- The error that the last argument is nil. -/
def missing : ExecError := faultAt (program.frame down) (.nil ⟨62, 1⟩) .nilCommand

/-- The error that the last invocation is one too many. -/
def tooMany : ExecError := faultAt (program.frame down) fallOff .tooManyInvocations

theorem missing_ne_tooMany : some missing ≠ some tooMany := by
  simp [missing, tooMany, faultAt, errorAt]

/-- Inside fewer invocations than the greatest number, the last argument fails. -/
theorem step_bottom (later : List Task) (sink : Sink) (hroom : nestingOf later < maxInvocations) :
    step program (bottom later sink) = .ends (some missing) :=
  (if_neg (Nat.not_le_of_lt hroom)).trans rfl

end Countdown

/-- Without the count of the invocations whose arguments fail, invoking a template need not be
executing it: executing a template may come down inside 999 invocations to an argument that has no
value, and invoking the template comes to that argument inside 1000, one too many, and fails for
that. -/
theorem not_invocation_alike :
    let data : Value := .array (List.replicate 999 .null)
    let point := start Countdown.main data none
    (∀ other, Reaches Countdown.program (start Countdown.down data none) other →
        other.nesting < maxInvocations - point.nesting) ∧
      execute Countdown.program "t" "a" none data = ⟨"", some Countdown.missing⟩ ∧
      execute Countdown.program "t" "t" none data = ⟨"", some Countdown.tooMany⟩ ∧
      ¬ ∃ stop, Reaches Countdown.program point stop ∧
        step Countdown.program stop = .ends (some Countdown.missing) := by
  have hlength : (List.replicate 999 Value.null).length = 999 := List.length_replicate
  generalize List.replicate 999 Value.null = items at hlength ⊢
  intro data point
  have hfind : Countdown.program.trees.find? "a" = some Countdown.down := rfl
  have hmain : Countdown.program.trees.find? "t" = some Countdown.main := rfl
  obtain ⟨deeper, hdeeper, ⟨count, htakes⟩, hpoints⟩ :=
    Countdown.descends items [] {} (hlength ▸ (by decide))
  have hnesting : nestingOf deeper = 999 := by
    rw [hdeeper, hlength]
    rfl
  have hmissing := Countdown.step_bottom deeper {} (hnesting ▸ (by decide))
  obtain ⟨outer, houter, made, hmade⟩ := Countdown.reaches_bottom items (hlength ▸ (by decide))
  have houter : nestingOf outer = maxInvocations := by
    rw [houter, hlength]
    rfl
  have htooMany : step Countdown.program (Countdown.bottom outer {}) =
      .ends (some Countdown.tooMany) :=
    step_at_maxInvocations Countdown.program rfl rfl houter
  refine ⟨fun other hother ↦ ?_, ?_, ?_, ?_⟩
  · have hle : other.nesting ≤ 999 := by
      obtain hle | hbottom := hpoints other hother
      · rw [hlength] at hle
        exact hle
      · rw [hbottom.eq_of_ends hmissing]
        exact Nat.le_of_eq hnesting
    have hroom : maxInvocations - point.nesting = 1000 := rfl
    omega
  · exact execute_eq_of_takes hfind "t" htakes hmissing
  · exact execute_eq_of_takes hmain "t" hmade htooMany
  · rintro ⟨stop, ⟨more, hstop⟩, hends⟩
    obtain ⟨-, -, hsame⟩ := hmade.end_unique htooMany hstop hends
    exact Countdown.missing_ne_tooMany hsame.symm

end Stencil.Exec
