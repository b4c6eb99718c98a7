import Mathlib.Data.List.Induction
import Stencil.Proofs.Execution.Assignments
import Stencil.Proofs.Execution.Deciding
import Stencil.Proofs.Execution.Positions
import Stencil.Proofs.Execution.Silence

/-!
# A value passed on

A pipeline passes its value on to a call behind a bar, and a call may take the same pipeline in
parentheses as its last operand (`Stage`). Where the pipeline and the operands give values and leave
the variables as they are (`Steady`), the order in which they are evaluated does not matter, and
neither does an operand that is not evaluated at all: in both forms the call is that of its function
on all values, the one passed on behind the others (`leadsTo_call`). So both forms give the same
value or fail with the same fault, for one stage and for any number of them (`piped_alike`).
-/

set_option autoImplicit false
set_option relaxedAutoImplicit false

namespace Stencil

/-! ### Stages -/

namespace Syntax

/-- A call that a value is passed on to: the name of a function and its operands. -/
structure Stage where
  name : String
  operands : List Node

/-- A call as it stands behind a bar. -/
def Stage.command (stage : Stage) : Command :=
  ⟨{}, .identifier {} stage.name :: stage.operands⟩

/-- A call with a pipeline in parentheses as its last operand. -/
def Stage.applied (stage : Stage) (inner : Pipeline) : Command :=
  ⟨{}, .identifier {} stage.name :: (stage.operands ++ [.pipeline inner])⟩

/-- A pipeline that passes its value on to calls, one behind the other. -/
def Pipeline.piped (inner : Pipeline) (stages : List Stage) : Pipeline :=
  { inner with commands := inner.commands ++ stages.map Stage.command }

/-- The same calls inside one another, the first one innermost. -/
def Pipeline.nested (inner : Pipeline) (stages : List Stage) : Pipeline :=
  stages.foldl (fun inner stage ↦ ⟨{}, false, [], [stage.applied inner]⟩) inner

theorem Pipeline.piped_nil (inner : Pipeline) : inner.piped [] = inner := by
  cases inner
  simp [piped]

theorem Pipeline.piped_concat (inner : Pipeline) (front : List Stage) (last : Stage) :
    inner.piped (front ++ [last]) =
      { inner.piped front with commands := (inner.piped front).commands ++ [last.command] } := by
  simp [piped]

theorem Pipeline.nested_concat (inner : Pipeline) (front : List Stage) (last : Stage) :
    inner.nested (front ++ [last]) = ⟨{}, false, [], [last.applied (inner.nested front)]⟩ := by
  simp [nested]

end Syntax

namespace Exec

open Syntax

/-! ### Steady operands -/

section Steady

variable {frame : Frame} {dot : Value} {state after : State} {node : Node}

/-- That an operand gives a value and neither declares nor assigns a variable: none stands in it for
that, or its evaluation leaves all as it is. -/
inductive Steady (frame : Frame) (dot : Value) (state : State) (node : Node) : Prop
  | of_targets {value : Value} {after : State}
      (htargets : ∀ assigning, node.targetsOf assigning = [])
      (hrun : (evalOperand frame dot node).run state = (.ok value, after))
  | of_run {value : Value} (hrun : (evalOperand frame dot node).run state = (.ok value, state))

/-- Variables are told by their names and the values in their slots. -/
theorem Scope.eq_of_slots {scope other : Scope} (hnames : scope.names = other.names)
    (hvalues : ∀ slot < other.length, scope.valueAt? slot = other.valueAt? slot) :
    scope = other := by
  induction scope generalizing other with
  | nil =>
    cases other with
    | nil => rfl
    | cons second more => cases hnames
  | cons first rest ih =>
    cases other with
    | nil => cases hnames
    | cons second more =>
      obtain ⟨name, value⟩ := first
      obtain ⟨otherName, otherValue⟩ := second
      obtain ⟨hname, hrest⟩ := List.cons.inj hnames
      have hlength : rest.length = more.length := by
        rw [← length_names rest, ← length_names more]
        exact congrArg List.length hrest
      have hfirst := hvalues more.length (Nat.lt_succ_self _)
      rw [valueAt?_cons, valueAt?_cons, if_pos hlength.symm, if_pos rfl] at hfirst
      have hmore : rest = more := ih hrest fun slot hslot ↦ by
        have hslots := hvalues slot (Nat.lt_succ_of_lt hslot)
        rwa [valueAt?_cons, valueAt?_cons, if_neg (by omega), if_neg (by omega)] at hslots
      rw [show name = otherName from hname, Option.some.inj hfirst, hmore]

/-- A step that assigns and declares nothing leaves the variables as they are. -/
theorem Settles.scope_eq {targets : Bool → List Variable} {assignments : List Assignment}
    (hsettles : Settles targets state.scope.length state after assignments)
    (htargets : ∀ assigning, targets assigning = []) : after.scope = state.scope := by
  have hnone : assignments = [] := List.eq_nil_iff_forall_not_mem.mpr fun assignment hmem ↦ by
    simpa [htargets] using (hsettles.within assignment hmem).1
  refine Scope.eq_of_slots (hsettles.names_eq (htargets false)) fun slot hslot ↦ ?_
  rw [hsettles.values slot hslot, hnone]
  exact congrFun Option.map_id _

/-- A steady operand gives a value and leaves all as it is. -/
theorem Steady.exists_run (hsteady : Steady frame dot state node) :
    ∃ value, (evalOperand frame dot node).run state = (.ok value, state) := by
  cases hsteady with
  | of_run hrun => exact ⟨_, hrun⟩
  | @of_targets value after htargets hrun =>
    have hscope : after.scope = state.scope :=
      (evalOperand_tracks frame dot node hrun).scope_eq htargets
    obtain ⟨result, reached, hsilent⟩ := Silent.evalOperand frame dot node state.scope
    have hsink := (hsilent state.sink).symm.trans hrun
    cases hsink
    refine ⟨value, ?_⟩
    rw [hrun, show reached = state.scope from hscope]

/-- Operands behind others are evaluated in turn behind them. -/
theorem InTurn.append {front behind : List Node} {middle : State} {first second : List Value}
    (hfront : InTurn frame dot front state first middle)
    (hbehind : InTurn frame dot behind middle second after) :
    InTurn frame dot (front ++ behind) state (first ++ second) after := by
  induction hfront with
  | nil => exact hbehind
  | cons hoperand _ ih => exact .cons hoperand (ih hbehind)

/-- Steady operands give values in turn and leave all as it is. -/
theorem exists_inTurn {operands : List Node}
    (hsteady : ∀ operand ∈ operands, Steady frame dot state operand) :
    ∃ values, InTurn frame dot operands state values state := by
  induction operands with
  | nil => exact ⟨[], .nil⟩
  | cons operand rest ih =>
    obtain ⟨hoperand, hrest⟩ := List.forall_mem_cons.mp hsteady
    obtain ⟨value, hrun⟩ := hoperand.exists_run
    obtain ⟨values, hvalues⟩ := ih hrest
    exact ⟨value :: values, .cons hrun hvalues⟩

end Steady

/-! ### Calls of steady operands -/

/-- The result of calling a name with arguments. -/
def callResult (functions : FunctionTable) (name : String) (arguments : List Value) :
    Except EvalFault Value :=
  match functions.resolve? name with
  | none => .error (.undefinedFunction name)
  | some (.provided function) => (function arguments).mapError (.call name)
  | some (.builtin builtin) => (builtin.call arguments).mapError (.call name)

section Calls

variable {frame : Frame} {dot : Value} {state after : State}

/-- Steps that run alike lead to the same. -/
theorem LeadsTo.congr {first second : Exec Value} {result : Except EvalFault Value}
    {start other : State} (hrun : first.run start = second.run other)
    (hleads : LeadsTo frame result second other after) :
    LeadsTo frame result first start after := by
  cases result with
  | ok value => exact hrun.trans hleads
  | error fault =>
    obtain ⟨node, hfails⟩ := hleads
    exact ⟨node, hrun.trans hfails⟩

theorem leadsTo_callFunction (node : Node) (name : String) (function : Function)
    (arguments : List Value) :
    LeadsTo frame ((function arguments).mapError (.call name))
      (callFunction frame node name function arguments) state state := by
  unfold callFunction
  cases function arguments with
  | ok value => exact rfl
  | error fault => exact ⟨node, rfl⟩

/-- Calls that may decide early leave all as it is where their operands do. -/
theorem ShortCircuits.after_eq {stop : Bool} {last : Option Value} {operands : List Node}
    {result : Except ExecError Value}
    (hsteady : ∀ operand ∈ operands, Steady frame dot state operand)
    (hshort : ShortCircuits frame dot stop last operands state result after) : after = state := by
  have hall {values : List Value} {reached : State} {some : List Node}
      (hsome : ∀ operand ∈ some, Steady frame dot state operand)
      (hturn : InTurn frame dot some state values reached) : reached = state := by
    obtain ⟨others, hothers⟩ := exists_inTurn hsome
    exact (Prod.mk.inj (hturn.run_evalOperands.symm.trans hothers.run_evalOperands)).2
  have hpart {values : List Value} {reached : State} {ending : Except ExecError Value}
      (hpart : AsFarAs frame dot operands state values ending reached) : reached = state := by
    obtain ⟨hbefore, hoperand⟩ := hpart
    obtain rfl := hall (fun operand hmem ↦ hsteady operand (List.mem_append_left _ hmem)) hbefore
    obtain ⟨value, hrun⟩ :=
      (hsteady _ (List.mem_append_right _ List.mem_cons_self)).exists_run
    exact (Prod.mk.inj (hoperand.symm.trans hrun)).2
  cases hshort with
  | decides hoperand => exact hpart hoperand
  | fails hoperand => exact hpart hoperand
  | passesOn hoperands => exact hall hsteady hoperands
  | givesLast hoperands => exact hall hsteady hoperands

/-- A call of steady operands is the call of its function on all their values and the one passed on,
also where it is decided before they are all there. -/
theorem leadsTo_call {operands : List Node} {values : List Value} (last : Option Value)
    (position start : Position) (name : String)
    (hsteady : ∀ operand ∈ operands, Steady frame dot state operand)
    (hvalues : InTurn frame dot operands state values state)
    (hgiven : operands ≠ [] ∨ last ≠ none) :
    LeadsTo frame (callResult frame.functions name (values ++ last.toList))
      (evalCommand frame dot last ⟨position, .identifier start name :: operands⟩) state state := by
  have hcalled (function : Function) :
      LeadsTo frame ((function (values ++ last.toList)).mapError (.call name))
        (evalOperands frame dot operands >>= fun arguments ↦
          callFunction frame (.identifier start name) name function (arguments ++ last.toList))
        state state := by
    refine LeadsTo.congr ?_ (leadsTo_callFunction (.identifier start name) name function
      (values ++ last.toList))
    rw [run_bind, hvalues.run_evalOperands]
  rcases hresolve : frame.functions.resolve? name with - | function | builtin
  · rw [callResult, hresolve, evalCommand, callNamed, hresolve]
    exact ⟨.identifier start name, rfl⟩
  · rw [callResult, hresolve, evalCommand_provided frame dot position start last operands hresolve]
    exact hcalled function
  · rw [callResult, hresolve]
    cases hstops : builtin.stopsAt with
    | none =>
      rw [evalCommand, callNamed, hresolve]
      simp only [hstops]
      exact hcalled builtin.call
    | some stop =>
      have hdecides := decidesAt_iff.mpr hstops
      rw [evalCommand_deciding frame dot position start hresolve hdecides hgiven]
      obtain ⟨result, after, hshort⟩ :=
        @exists_shortCircuits frame dot last operands stop state hgiven
      obtain rfl := hshort.after_eq hsteady
      obtain ⟨value, rfl, hcall⟩ := hshort.exists_call hdecides hvalues
      dsimp only
      rw [hcall]
      exact hshort.run_evalDeciding

end Calls

/-! ### Pipelines of stages -/

section Stages

variable {frame : Frame} {dot : Value} {state after : State} {inner : Pipeline}

/-- A pipeline without variables that has one more command passes its value on to that command. -/
theorem evalPipeline_concat (htargets : inner.targets = []) (hcommands : inner.commands ≠ [])
    (command : Command) :
    evalPipeline frame dot { inner with commands := inner.commands ++ [command] } =
      evalPipeline frame dot inner >>= fun value ↦ evalCommand frame dot (some value) command := by
  have hconcat (first : Command) (rest : List Command) (last : Option Value) :
      evalCommands frame dot last ((first :: rest) ++ [command]) =
        evalCommands frame dot last (first :: rest) >>= fun given ↦
          some <$> evalCommand frame dot (some (given.getD .null)) command := by
    induction rest generalizing first last with
    | nil => simp [evalCommands]
    | cons next rest ih =>
      rw [List.cons_append, evalCommands, evalCommands, bind_assoc]
      exact congrArg (evalCommand frame dot last first >>= ·) (funext fun value ↦ ih next _)
  obtain ⟨position, isAssign, targets, commands⟩ := inner
  obtain rfl : targets = [] := htargets
  obtain ⟨first, rest, rfl⟩ := List.exists_cons_of_ne_nil hcommands
  rw [evalPipeline, hconcat, evalPipeline]
  simp [bindVariables]

/-- Behind a pipeline that gives a value and leaves all as it is, a call of steady operands leads to
the same in both forms. -/
theorem exists_leadsTo_stage {nested : Pipeline} {value : Value} {stage : Stage}
    (htargets : inner.targets = []) (hcommands : inner.commands ≠ [])
    (hinner : (evalPipeline frame dot inner).run state = (.ok value, state))
    (hnested : (evalPipeline frame dot nested).run state = (.ok value, state))
    (hoperands : ∀ operand ∈ stage.operands, Steady frame dot state operand) :
    ∃ result, LeadsTo frame result (evalPipeline frame dot
        { inner with commands := inner.commands ++ [stage.command] }) state state ∧
      LeadsTo frame result (evalCommand frame dot none (stage.applied nested)) state state := by
  obtain ⟨values, hvalues⟩ := exists_inTurn hoperands
  have hnestedSteady : Steady frame dot state (.pipeline nested) := .of_run hnested
  have hmore : ∀ operand ∈ stage.operands ++ [.pipeline nested], Steady frame dot state operand :=
    List.forall_mem_append.mpr ⟨hoperands, List.forall_mem_singleton.mpr hnestedSteady⟩
  have hallValues : InTurn frame dot (stage.operands ++ [.pipeline nested]) state
      (values ++ [value]) state :=
    hvalues.append (.cons hnested .nil)
  refine ⟨callResult frame.functions stage.name (values ++ [value]), ?_, ?_⟩
  · refine LeadsTo.congr ?_ (leadsTo_call (some value) {} {} stage.name hoperands hvalues
      (.inr (Option.some_ne_none value)))
    rw [evalPipeline_concat htargets hcommands, run_bind, hinner]
    rfl
  · have hleads := leadsTo_call none {} {} stage.name hmore hallValues
      (.inl (List.append_ne_nil_of_right_ne_nil _ (List.cons_ne_nil _ _)))
    rwa [Option.toList_none, List.append_nil] at hleads

theorem piped_targets_eq_nil (htargets : inner.targets = []) (stages : List Stage) :
    (inner.piped stages).targets = [] := htargets

theorem piped_commands_ne_nil (hcommands : inner.commands ≠ []) (stages : List Stage) :
    (inner.piped stages).commands ≠ [] :=
  List.append_ne_nil_of_left_ne_nil hcommands _

/-- Where the stages behind a steady pipeline give a value, they leave all as it is, and inside one
another they give the same value. -/
theorem run_nested {stages : List Stage} (htargets : inner.targets = [])
    (hcommands : inner.commands ≠ []) (hinner : Steady frame dot state (.pipeline inner))
    (hoperands : ∀ stage ∈ stages, ∀ operand ∈ stage.operands, Steady frame dot state operand)
    {value : Value} (hrun : (evalPipeline frame dot (inner.piped stages)).run state =
      (.ok value, after)) :
    after = state ∧
      (evalPipeline frame dot (inner.nested stages)).run state = (.ok value, state) := by
  induction stages using List.reverseRecOn generalizing value after with
  | nil =>
    rw [Pipeline.piped_nil] at hrun
    obtain ⟨other, hsteady⟩ := hinner.exists_run
    have hsame := hrun.symm.trans hsteady
    cases hsame
    exact ⟨rfl, hrun⟩
  | append_singleton front last ih =>
    rw [Pipeline.piped_concat] at hrun
    obtain ⟨hfront, hlast⟩ := List.forall_mem_append.mp hoperands
    have hparts := hrun
    rw [evalPipeline_concat (piped_targets_eq_nil htargets front)
      (piped_commands_ne_nil hcommands front)] at hparts
    obtain ⟨middle, reached, hbefore, -⟩ := exists_of_run_bind state hparts
    obtain ⟨rfl, hnested⟩ := ih hfront hbefore
    obtain ⟨result, hpiped, happlied⟩ := exists_leadsTo_stage
      (piped_targets_eq_nil htargets front) (piped_commands_ne_nil hcommands front) hbefore hnested
      (List.forall_mem_singleton.mp hlast)
    have hresult : LeadsTo frame (.ok value) (evalPipeline frame dot
        { inner.piped front with commands := (inner.piped front).commands ++ [last.command] })
        reached after := hrun
    obtain ⟨rfl, rfl⟩ := hresult.unique hpiped
    rw [Pipeline.nested_concat, evalPipeline_single]
    exact ⟨rfl, happlied⟩

/-- A value passed on is the last argument of the call that it is passed on to. A pipeline without
variables that passes its value on to calls of steady operands gives the same value as these calls
inside one another, the pipeline in parentheses as the last operand of the innermost one, or both
fail with the same fault, provided that all but the last call give values. That holds wherever the
two stand in a template. -/
theorem piped_alike {front : List Stage} {last : Stage} (htargets : inner.targets = [])
    (hcommands : inner.commands ≠ []) (hinner : Steady frame dot state (.pipeline inner))
    (hoperands : ∀ stage ∈ front ++ [last], ∀ operand ∈ stage.operands,
      Steady frame dot state operand)
    (hfront : ∃ value after,
      (evalPipeline frame dot (inner.piped front)).run state = (.ok value, after))
    {pipeline : Pipeline} {command : Command}
    (hpipeline : pipeline.unplaced = (inner.piped (front ++ [last])).unplaced)
    (hcommand : command.unplaced = (last.applied (inner.nested front)).unplaced) :
    ∃ result, LeadsTo frame result (evalPipeline frame dot pipeline) state state ∧
      LeadsTo frame result (evalCommand frame dot none command) state state := by
  obtain ⟨hbefore, hlast⟩ := List.forall_mem_append.mp hoperands
  obtain ⟨value, after, hrun⟩ := hfront
  obtain ⟨rfl, hnested⟩ := run_nested htargets hcommands hinner hbefore hrun
  obtain ⟨result, hpiped, happlied⟩ := exists_leadsTo_stage
    (piped_targets_eq_nil htargets front) (piped_commands_ne_nil hcommands front) hrun hnested
    (List.forall_mem_singleton.mp hlast)
  rw [← Pipeline.piped_concat] at hpiped
  exact ⟨result, (leadsTo_pipeline_iff hpipeline).mpr hpiped,
    (leadsTo_command_iff hcommand).mpr happlied⟩

/-- The dot passed on to `and true` and then to `len` has the length that `len` of `and true (.)`
gives. -/
theorem piped_alike_length :
    let frame : Frame := ⟨⟨"page", "page", ⟨{}, []⟩⟩, {}, .default⟩
    let data : Value := .string "abc"
    let state : State := ⟨Scope.initial data, {}⟩
    let inner : Pipeline := ⟨{}, false, [], [⟨{}, [.dot {}]⟩]⟩
    let decide : Stage := ⟨"and", [.bool {} true]⟩
    let measure : Stage := ⟨"len", []⟩
    let pipeline : Pipeline := ⟨⟨2, 1⟩, false, [],
      [⟨⟨2, 1⟩, [.dot ⟨2, 1⟩]⟩, ⟨⟨6, 1⟩, [.identifier ⟨6, 1⟩ "and", .bool ⟨10, 1⟩ true]⟩,
        ⟨⟨17, 1⟩, [.identifier ⟨17, 1⟩ "len"]⟩]⟩
    let command : Command := ⟨⟨2, 2⟩, [.identifier ⟨2, 2⟩ "len",
      .pipeline ⟨⟨7, 2⟩, false, [], [⟨⟨7, 2⟩, [.identifier ⟨7, 2⟩ "and", .bool ⟨11, 2⟩ true,
        .pipeline ⟨⟨17, 2⟩, false, [], [⟨⟨17, 2⟩, [.dot ⟨17, 2⟩]⟩]⟩]⟩]⟩]⟩
    inner.targets = [] ∧ inner.commands ≠ [] ∧ Steady frame data state (.pipeline inner) ∧
      (∀ stage ∈ [decide, measure], ∀ operand ∈ stage.operands, Steady frame data state operand) ∧
      (∃ value after, (evalPipeline frame data (inner.piped [decide])).run state =
        (.ok value, after)) ∧
      pipeline.unplaced = (inner.piped [decide, measure]).unplaced ∧
      command.unplaced = (measure.applied (inner.nested [decide])).unplaced ∧
      ∃ result, LeadsTo frame result (evalPipeline frame data pipeline) state state ∧
        LeadsTo frame result (evalCommand frame data none command) state state := by
  intro frame data state inner decide measure pipeline command
  have hinner : Steady frame data state (.pipeline inner) :=
    .of_targets (fun assigning ↦ by cases assigning <;> rfl) rfl
  have htrue : Steady frame data state (.bool {} true) := .of_run rfl
  have hoperands : ∀ stage ∈ [decide] ++ [measure], ∀ operand ∈ stage.operands,
      Steady frame data state operand := by
    simp [decide, measure, htrue]
  have hfront : ∃ value after, (evalPipeline frame data (inner.piped [decide])).run state =
      (.ok value, after) := ⟨data, state, rfl⟩
  have hpipeline : pipeline.unplaced = (inner.piped ([decide] ++ [measure])).unplaced := rfl
  have hcommand : command.unplaced = (measure.applied (inner.nested [decide])).unplaced := rfl
  exact ⟨rfl, List.cons_ne_nil _ _, hinner, hoperands, hfront, hpipeline, hcommand,
    piped_alike rfl (List.cons_ne_nil _ _) hinner hoperands hfront hpipeline hcommand⟩

end Stages

end Exec

end Stencil
