import Mathlib
import Stencil.Proofs.Execution.Ends
import Stencil.Proofs.Grammar.Formed
import Stencil.Proofs.Variables.Mention

/-!
# What an execution can fail with

A tree of the shape that the parser gives it fails with no fault about the tree itself, and with a
fault about a variable only where it mentions one that not every execution has there. This is an
induction on trees, along which an execution keeps the variables it has and gets those that the
sight behind each part says (`Behind`); what a control structure or a template declares is gone
behind it. Which faults are allowed is a parameter, so the one induction serves for every kind of
fault.

For a source that is accepted it follows that malformed trees are never met (`execute_isFormed`).
-/

set_option autoImplicit false
set_option relaxedAutoImplicit false

namespace Stencil.Exec

open Syntax

/-! ### Sights and states -/

/-- That an execution has the variables that a sight promises. -/
def Covers (sight : Sight) (state : State) : Prop :=
  ∀ name ∈ sight.bound, name ∈ state.scope.names

/-- That some mentions in a tree are allowed: wherever a variable may be missing, the error about it
is allowed. -/
def AllAllowed (allowed : EvalError → Prop) (tree : Tree) (mentions : List Mention) : Prop :=
  ∀ mention ∈ mentions, ∀ name, mention.reference.name? = some name →
    name ∉ mention.sight.bound →
      allowed (errorAt tree (.var mention.reference) (.undefinedVariable name))

/-- That a state is one behind a part of a tree: no variable is lost, and those of the sight behind
the part are there. -/
structure Behind (sight : Sight) (state after : State) : Prop where
  grows : state.Grows after
  covers : Covers sight after

section Behind

variable {sight next : Sight} {state middle after : State} {allowed : EvalError → Prop}

theorem Covers.grow (hcovers : Covers sight state) (hgrows : state.Grows after) :
    Covers sight after :=
  fun name hname ↦ hgrows.subset (hcovers name hname)

theorem Covers.behind (hcovers : Covers sight state) : Behind sight state state :=
  ⟨.refl state, hcovers⟩

theorem Behind.trans (hfirst : Behind sight state middle) (hsecond : Behind next middle after) :
    Behind next state after :=
  ⟨hfirst.grows.trans hsecond.grows, hsecond.covers⟩

/-- What was there behind a part is still there behind further parts. -/
theorem Behind.grow (hfirst : Behind sight state middle) (hsecond : middle.Grows after) :
    Behind sight state after :=
  ⟨hfirst.grows.trans hsecond, hfirst.covers.grow hsecond⟩

theorem allAllowed_append {tree : Tree} {mentions others : List Mention} :
    AllAllowed allowed tree (mentions ++ others) ↔
      AllAllowed allowed tree mentions ∧ AllAllowed allowed tree others :=
  List.forall_mem_append

/-- A variable that is allowed where it is mentioned is allowed in every state that has what the
sight promises. -/
theorem AllAllowed.allowsVariable {frame : Frame} {mentions : List Mention}
    (hallowed : AllAllowed allowed frame.tree mentions) {sought : Variable}
    (hmention : ⟨sought, sight⟩ ∈ mentions) (hnamed : sought.IsNamed)
    (hcovers : Covers sight state) : AllowsVariable allowed frame sought state.scope.names where
  nameless := fun hnone ↦ absurd hnone hnamed
  undefined := fun name hname hmissing ↦
    hallowed ⟨sought, sight⟩ hmention name hname fun hbound ↦ hmissing (hcovers name hbound)

end Behind

/-! ### Commands -/

section Commands

variable {frame : Frame} {state : State} {allowed : EvalError → Prop}

/-- A step that ends in the state in which it starts is behind a part without declarations. -/
theorem Ends.behind {step : Exec Value} {sight : Sight} (hcovers : Covers sight state)
    (hends : Ends step state (fun _ after ↦ after = state) allowed) :
    Ends step state (fun _ after ↦ Behind sight state after) allowed :=
  hends.mono fun _ _ hafter ↦ hafter ▸ hcovers.behind

/-- A value that takes no arguments is refused some. -/
theorem notFunction_ends {ok : Value → State → Prop} (hregular : AllowsRegular allowed)
    {node : Node} {given : Bool} {step : Exec Value} (hstep : Ends step state ok allowed) :
    Ends (if given then fail frame node (.notFunction node.canonical) else step) state ok
      allowed := by
  cases given with
  | true => exact .fail (hregular.data _ rfl rfl nofun)
  | false => exact hstep

/-- A variable with fields is found, or the fault about it is allowed. -/
theorem evalVariable_behind (hregular : AllowsRegular allowed) (given : Bool) (operand : Node)
    {reference : Variable} {sight : Sight} (hnamed : reference.IsNamed)
    (hcovers : Covers sight state)
    (hallowed : AllAllowed allowed frame.tree [⟨reference, sight⟩]) :
    Ends (evalVariable frame given operand reference) state
      (fun _ after ↦ Behind sight state after) allowed :=
  (evalVariable_ends hregular given operand
    (hallowed.allowsVariable List.mem_cons_self hnamed hcovers)).behind hcovers

/-- A function is called once its operands are evaluated, or as many of them as decide. -/
theorem callNamed_ends (hregular : AllowsRegular allowed) {position : Position} {name : String}
    {last : Option Value} {operands : Operands} {ok : State → Prop}
    (hfunction : frame.functions.has name = true)
    (hvalues : frame.functions.stopsAt? name = none →
      Ends operands.values state (fun _ after ↦ ok after) allowed)
    (hdeciding : ∀ stop, frame.functions.stopsAt? name = some stop →
      Ends (operands.deciding stop) state (fun _ after ↦ ok after) allowed) :
    Ends (callNamed frame position name last operands) state (fun _ after ↦ ok after)
      allowed := by
  have hcall {function : Function} {node : Node}
      (hstops : frame.functions.stopsAt? name = none) :
      Ends (operands.values >>= fun arguments ↦
        callFunction frame node name function (arguments ++ last.toList)) state
        (fun _ after ↦ ok after) allowed := by
    refine (hvalues hstops).andThen fun arguments middle hmiddle ↦ ?_
    refine (callFunction_ends hregular node name function _).mono fun _ _ hafter ↦ ?_
    exact hafter ▸ hmiddle
  rw [FunctionTable.has, Option.isSome_iff_exists] at hfunction
  obtain ⟨resolved, hresolve⟩ := hfunction
  rw [callNamed, hresolve]
  cases resolved with
  | provided function =>
    have hstops : frame.functions.stopsAt? name = none := by
      rw [FunctionTable.stopsAt?, hresolve]
    exact hcall hstops
  | builtin builtin =>
    have hstops : frame.functions.stopsAt? name = builtin.stopsAt := by
      rw [FunctionTable.stopsAt?, hresolve]
    dsimp only
    cases hstop : builtin.stopsAt with
    | none => exact hcall (hstops.trans hstop)
    | some stop =>
      dsimp only
      split
      · exact .fail (hregular.data _ rfl rfl nofun)
      · refine (hdeciding stop (hstops.trans hstop)).andThen fun _ middle hmiddle ↦ ?_
        exact .pure hmiddle

/-- The variables of a pipeline get its value, or the fault about them is allowed. -/
theorem bindVariables_behind {isAssign : Bool} {targets : List Variable} {value : Value}
    {sight : Sight} (hnamed : ∀ target ∈ targets, target.IsNamed) (hcovers : Covers sight state)
    (hallowed : AllAllowed allowed frame.tree (assigned isAssign targets sight)) :
    Ends (bindVariables frame isAssign value targets) state
      (fun _ after ↦ Behind (sight.bind isAssign targets) state after) allowed := by
  cases isAssign with
  | true =>
    refine (bindVariables_assign_ends fun target htarget ↦ ?_).mono fun _ after hafter ↦ ?_
    · exact hallowed.allowsVariable (List.mem_map.mpr ⟨target, htarget, rfl⟩)
        (hnamed target htarget) hcovers
    · have hgrows := State.grows_of_eq hafter
      exact ⟨hgrows, hcovers.grow hgrows⟩
  | false =>
    refine (bindVariables_declare_ends fun target htarget hnone ↦
      absurd hnone (hnamed target htarget)).mono ?_
    rintro _ after ⟨-, hafter⟩
    refine ⟨?_, fun name hname ↦ ?_⟩
    · rw [State.Grows, hafter]
      exact List.suffix_append _ _
    · change name ∈ Parse.declareAll sight.bound targets at hname
      rw [Parse.declareAll_eq, List.mem_append] at hname
      rw [hafter, List.mem_append]
      exact hname.imp_right (hcovers name)

end Commands

mutual

/-- A pipeline that is formed fails with what is allowed, and declares its variables. -/
theorem evalPipeline_ends {allowed : EvalError → Prop} (hregular : AllowsRegular allowed)
    (frame : Frame) (dot : Value) :
    (pipeline : Pipeline) → (sight : Sight) → pipeline.IsFormed frame.functions.has →
      AllAllowed allowed frame.tree (pipeline.mentions frame.functions sight) →
      (state : State) → Covers sight state →
      Ends (evalPipeline frame dot pipeline) state
        (fun _ after ↦ Behind (pipeline.sightAfter frame.functions sight) state after) allowed
  | ⟨_, isAssign, targets, commands⟩, sight, hformed, hallowed, state, hcovers => by
    obtain ⟨hcommands, htargets⟩ := allAllowed_append.mp hallowed
    obtain ⟨hnamed, hformed⟩ := hformed
    rw [evalPipeline]
    refine (evalCommands_ends hregular frame dot none commands (sight.write targets) hformed
      hcommands state hcovers).andThen fun value middle hmiddle ↦ ?_
    refine (bindVariables_behind hnamed hmiddle.covers htargets).andThen fun _ after hafter ↦ ?_
    exact .pure (hmiddle.trans hafter)

/-- Commands that are formed fail with what is allowed. -/
theorem evalCommands_ends {allowed : EvalError → Prop} (hregular : AllowsRegular allowed)
    (frame : Frame) (dot : Value) (last : Option Value) :
    (commands : List Command) → (sight : Sight) →
      Command.AllFormed frame.functions.has commands →
      AllAllowed allowed frame.tree (Command.allMentions frame.functions sight commands) →
      (state : State) → Covers sight state →
      Ends (evalCommands frame dot last commands) state
        (fun _ after ↦ Behind (Command.sightAfterAll frame.functions sight commands) state after)
        allowed
  | [], _, _, _, _, hcovers => .pure hcovers.behind
  | command :: rest, sight, hformed, hallowed, state, hcovers => by
    obtain ⟨hcommand, hrest⟩ := allAllowed_append.mp hallowed
    rw [evalCommands]
    refine (evalCommand_ends hregular frame dot last command sight hformed.1 hcommand state
      hcovers).andThen fun value middle hmiddle ↦ ?_
    refine (evalCommands_ends hregular frame dot (some value) rest _ hformed.2 hrest middle
      hmiddle.covers).mono fun _ after hafter ↦ ?_
    exact hmiddle.trans hafter

/-- A command that is formed fails with what is allowed. -/
theorem evalCommand_ends {allowed : EvalError → Prop} (hregular : AllowsRegular allowed)
    (frame : Frame) (dot : Value) (last : Option Value) :
    (command : Command) → (sight : Sight) → command.IsFormed frame.functions.has →
      AllAllowed allowed frame.tree (command.mentions frame.functions sight) →
      (state : State) → Covers sight state →
      Ends (evalCommand frame dot last command) state
        (fun _ after ↦ Behind (command.sightAfter frame.functions sight) state after) allowed
  | ⟨_, []⟩, _, hformed, _, _, _ => absurd rfl hformed.1
  | ⟨_, .identifier position name :: rest⟩, sight, hformed, hallowed, state, hcovers => by
    obtain ⟨-, hfunction, hrest⟩ := hformed
    have hallowed : AllAllowed allowed frame.tree (Node.allMentions frame.functions sight rest) :=
      hallowed
    rw [evalCommand]
    refine callNamed_ends hregular hfunction (fun hstops ↦ ?_) (fun stop hstops ↦ ?_)
    · refine (evalOperands_ends hregular frame dot rest sight hrest hallowed state
        hcovers).mono fun _ after hafter ↦ ?_
      simp only [Command.sightAfter, Node.evaluates, hstops]
      exact hafter
    · refine (evalDeciding_ends hregular frame dot stop .null rest sight hrest hallowed state
        hcovers).mono fun _ after hafter ↦ ?_
      simp only [Command.sightAfter, Node.evaluates, hstops]
      exact ⟨hafter.grows, hafter.covers⟩
  | ⟨_, .field position path :: rest⟩, sight, _, _, state, hcovers =>
    (fieldPath_ends hregular _ _ _ _).behind hcovers
  | ⟨start, .chain position base path :: rest⟩, sight, hformed, hallowed, state, hcovers => by
    obtain ⟨-, ⟨hpath, hnil, hbase⟩, -⟩ := hformed
    rw [evalCommand_chain frame dot last start position rest hpath hnil]
    refine (evalOperand_ends hregular frame dot base sight hbase
      (allAllowed_append.mp hallowed).1 state hcovers).andThen fun receiver middle hmiddle ↦ ?_
    refine (fieldPath_ends hregular _ _ receiver path).mono fun _ after hafter ↦ ?_
    exact hafter ▸ ⟨hmiddle.grows, hmiddle.covers⟩
  | ⟨_, .var reference :: rest⟩, sight, hformed, hallowed, state, hcovers => by
    have hreference : AllAllowed allowed frame.tree [⟨reference, sight⟩] :=
      (allAllowed_append.mp hallowed).1
    refine (evalVariable_behind hregular _ _ hformed.2.1 hcovers hreference).mono ?_
    exact fun _ after hafter ↦ ⟨hafter.grows, hafter.covers⟩
  | ⟨_, .pipeline inner :: rest⟩, sight, hformed, hallowed, state, hcovers => by
    refine notFunction_ends hregular ?_
    refine (evalPipeline_ends hregular frame dot inner sight hformed.2.1
      (allAllowed_append.mp hallowed).1 state hcovers).mono fun _ after hafter ↦ ?_
    exact ⟨hafter.grows, hafter.covers⟩
  | ⟨_, .bool .. :: _⟩, _, _, _, _, hcovers =>
    notFunction_ends hregular (.pure ⟨.refl _, hcovers⟩)
  | ⟨_, .dot _ :: _⟩, _, _, _, _, hcovers =>
    notFunction_ends hregular (.pure ⟨.refl _, hcovers⟩)
  | ⟨_, .nil _ :: _⟩, _, _, _, _, _ =>
    notFunction_ends hregular (.fail (hregular.data _ rfl rfl nofun))
  | ⟨_, .number _ :: _⟩, _, _, _, _, hcovers =>
    notFunction_ends hregular (.pure ⟨.refl _, hcovers⟩)
  | ⟨_, .string .. :: _⟩, _, _, _, _, hcovers =>
    notFunction_ends hregular (.pure ⟨.refl _, hcovers⟩)
  | ⟨_, .text .. :: _⟩, _, hformed, _, _, _ => hformed.2.1.elim
  | ⟨_, .comment .. :: _⟩, _, hformed, _, _, _ => hformed.2.1.elim
  | ⟨_, .action .. :: _⟩, _, hformed, _, _, _ => hformed.2.1.elim
  | ⟨_, .command _ :: _⟩, _, hformed, _, _, _ => hformed.2.1.elim
  | ⟨_, .branch .. :: _⟩, _, hformed, _, _, _ => hformed.2.1.elim
  | ⟨_, .template .. :: _⟩, _, hformed, _, _, _ => hformed.2.1.elim
  | ⟨_, .breakLoop _ :: _⟩, _, hformed, _, _, _ => hformed.2.1.elim
  | ⟨_, .continueLoop _ :: _⟩, _, hformed, _, _, _ => hformed.2.1.elim

/-- Operands that are formed fail with what is allowed. -/
theorem evalOperands_ends {allowed : EvalError → Prop} (hregular : AllowsRegular allowed)
    (frame : Frame) (dot : Value) :
    (operands : List Node) → (sight : Sight) → Node.AllOperands frame.functions.has operands →
      AllAllowed allowed frame.tree (Node.allMentions frame.functions sight operands) →
      (state : State) → Covers sight state →
      Ends (evalOperands frame dot operands) state
        (fun _ after ↦ Behind (Node.sightAfterAll frame.functions sight operands) state after)
        allowed
  | [], _, _, _, _, hcovers => .pure hcovers.behind
  | operand :: rest, sight, hformed, hallowed, state, hcovers => by
    obtain ⟨hoperand, hrest⟩ := allAllowed_append.mp hallowed
    rw [evalOperands]
    refine (evalOperand_ends hregular frame dot operand sight hformed.1 hoperand state
      hcovers).andThen fun value middle hmiddle ↦ ?_
    refine (evalOperands_ends hregular frame dot rest _ hformed.2 hrest middle
      hmiddle.covers).andThen fun values after hafter ↦ ?_
    exact .pure (hmiddle.trans hafter)

/-- Operands that are evaluated up to the one that decides fail with what is allowed. Only the first
of them is surely evaluated. -/
theorem evalDeciding_ends {allowed : EvalError → Prop} (hregular : AllowsRegular allowed)
    (frame : Frame) (dot : Value) (stop : Bool) (value : Value) :
    (operands : List Node) → (sight : Sight) → Node.AllOperands frame.functions.has operands →
      AllAllowed allowed frame.tree (Node.allMentions frame.functions sight operands) →
      (state : State) → Covers sight state →
      Ends (evalDeciding frame dot stop value operands) state
        (fun _ after ↦ Behind (Node.sightAfterFirst frame.functions sight operands) state after)
        allowed
  | [], _, _, _, _, hcovers => .pure hcovers.behind
  | operand :: rest, sight, hformed, hallowed, state, hcovers => by
    obtain ⟨hoperand, hrest⟩ := allAllowed_append.mp hallowed
    rw [evalDeciding]
    refine (evalOperand_ends hregular frame dot operand sight hformed.1 hoperand state
      hcovers).andThen fun next middle hmiddle ↦ ?_
    split
    · exact .pure hmiddle
    · refine (evalDeciding_ends hregular frame dot stop next rest _ hformed.2 hrest middle
        hmiddle.covers).mono fun _ after hafter ↦ ?_
      exact hmiddle.grow hafter.grows

/-- An operand that is formed fails with what is allowed. -/
theorem evalOperand_ends {allowed : EvalError → Prop} (hregular : AllowsRegular allowed)
    (frame : Frame) (dot : Value) :
    (operand : Node) → (sight : Sight) → operand.IsOperand frame.functions.has →
      AllAllowed allowed frame.tree (operand.mentions frame.functions sight) →
      (state : State) → Covers sight state →
      Ends (evalOperand frame dot operand) state
        (fun _ after ↦ Behind (operand.sightAfter frame.functions sight) state after) allowed
  | .dot _, _, _, _, _, hcovers => .pure hcovers.behind
  | .nil _, _, _, _, _, hcovers => .pure hcovers.behind
  | .bool .., _, _, _, _, hcovers => .pure hcovers.behind
  | .number _, _, _, _, _, hcovers => .pure hcovers.behind
  | .string .., _, _, _, _, hcovers => .pure hcovers.behind
  | .field .., _, _, _, _, hcovers => (fieldPath_ends hregular _ _ _ _).behind hcovers
  | .var _, _, hformed, hallowed, _, hcovers =>
    evalVariable_behind hregular _ _ hformed hcovers hallowed
  | .pipeline inner, sight, hformed, hallowed, state, hcovers =>
    evalPipeline_ends hregular frame dot inner sight hformed hallowed state hcovers
  | .identifier _ _, _, hformed, _, _, hcovers =>
    callNamed_ends hregular hformed (fun _ ↦ .pure hcovers.behind)
      (fun _ _ ↦ .pure hcovers.behind)
  | .chain position base path, sight, hformed, hallowed, state, hcovers => by
    obtain ⟨hpath, hnil, hbase⟩ := hformed
    rw [evalOperand_chain frame dot position hpath hnil]
    refine (evalOperand_ends hregular frame dot base sight hbase hallowed state
      hcovers).andThen fun receiver middle hmiddle ↦ ?_
    refine (fieldPath_ends hregular _ _ receiver path).mono fun _ after hafter ↦ ?_
    exact hafter ▸ hmiddle

end

/-- The variables that a pipeline assigns are mentioned with what is seen behind it. -/
theorem allAllowed_assigned {functions : FunctionTable} {allowed : EvalError → Prop} {tree : Tree}
    {pipeline : Pipeline} {sight : Sight}
    (hallowed : AllAllowed allowed tree (pipeline.mentions functions sight)) :
    AllAllowed allowed tree
      (assigned pipeline.isAssign pipeline.targets (pipeline.sightAfter functions sight)) := by
  obtain ⟨_, isAssign, targets, commands⟩ := pipeline
  cases isAssign with
  | true => exact (allAllowed_append.mp hallowed).2
  | false => exact fun _ hnone ↦ absurd hnone List.not_mem_nil

/-! ### Loops -/

section Loops

variable {frame : Frame} {state : State} {allowed : EvalError → Prop}

/-- The variables of a loop get their values for a round, or the fault about them is allowed. -/
theorem bindRound_ends {head : Pipeline} {sight : Sight} {index item : Value}
    (hnamed : ∀ target ∈ head.targets, target.IsNamed) (hcovers : Covers sight state)
    (hallowed : AllAllowed allowed frame.tree (assigned head.isAssign head.targets sight)) :
    Ends (bindRound frame head index item) state
      (fun _ after ↦ after.scope.names = state.scope.names) allowed := by
  obtain ⟨_, isAssign, targets, _⟩ := head
  have hallows (htrue : isAssign = true) {target : Variable} (htarget : target ∈ targets) :
      AllowsVariable allowed frame target state.scope.names := by
    subst htrue
    exact hallowed.allowsVariable (List.mem_map.mpr ⟨target, htarget, rfl⟩)
      (hnamed target htarget) hcovers
  match targets, isAssign with
  | [], _ => exact .pure rfl
  | [target], true => exact assign_ends (hallows rfl List.mem_cons_self)
  | first :: second :: rest, true =>
    refine (assign_ends (hallows rfl List.mem_cons_self)).andThen fun _ middle hmiddle ↦ ?_
    have hsecond : second ∈ first :: second :: rest := List.mem_cons_of_mem first List.mem_cons_self
    refine (assign_ends (hmiddle ▸ hallows rfl hsecond)).mono ?_
    exact fun _ _ hafter ↦ hafter.trans hmiddle
  | [_], false => exact .bind (.scope (.setScope (Scope.names_setAt _ _ _)))
  | _ :: _ :: _, false =>
    exact .bind (.scope (.setScope ((Scope.names_setAt _ _ _).trans (Scope.names_setAt _ _ _))))

/-- The rounds of a loop keep the variables if each of them does. -/
theorem runRounds_ends {round : Value × Value → Exec Flow} {names : List String}
    (hround : ∀ pair state, state.scope.names = names →
      Ends (round pair) state (fun _ after ↦ after.scope.names = names) allowed)
    (pairs : List (Value × Value)) (hstate : state.scope.names = names) :
    Ends (runRounds round pairs) state (fun _ after ↦ after.scope.names = names) allowed := by
  induction pairs generalizing state with
  | nil => exact .pure hstate
  | cons pair rest ih =>
    rw [runRounds]
    refine (hround pair state hstate).andThen fun flow middle hmiddle ↦ ?_
    cases flow with
    | breaking => exact .pure hmiddle
    | normal | continuing => exact ih hmiddle

end Loops

/-! ### Statements -/

/-- That the templates that can be invoked fail with what is allowed and give back the variables. -/
def Invoker.Keeps (invoke : Invoker) (allowed : EvalError → Prop) : Prop :=
  ∀ name,
    match invoke name with
    | .error fault => ∀ (tree : Tree) (node : Node), allowed (errorAt tree node fault)
    | .ok run => ∀ data state,
      Ends (run data) state (fun _ after ↦ after.scope = state.scope) allowed

/-- A control structure fails with what is allowed if its parts do, and gives back the variables. -/
theorem branch_ends {allowed : EvalError → Prop} (hregular : AllowsRegular allowed) {frame : Frame}
    {invoke : Invoker} {dot : Value} {kind : BranchKind} {position : Position} {head : Pipeline}
    {body : Body} {otherwise : Option Body} {inside : Sight} {state : State}
    (hnamed : ∀ target ∈ head.targets, target.IsNamed)
    (hhead : Ends (evalPipeline frame dot head) state
      (fun _ after ↦ Behind inside state after) allowed)
    (hassigned : AllAllowed allowed frame.tree (assigned head.isAssign head.targets inside))
    (hbody : ∀ dot state, Covers inside state →
      Ends (runBody frame invoke dot body) state (fun _ after ↦ state.Grows after) allowed)
    (hother : ∀ other ∈ otherwise, ∀ state, Covers inside state →
      Ends (runBody frame invoke dot other) state (fun _ after ↦ state.Grows after) allowed) :
    Ends (runNode frame invoke dot (.branch kind position head body otherwise)) state
      (fun _ after ↦ after.scope.names = state.scope.names) allowed := by
  have hotherwise {state : State} (hcovers : Covers inside state) :
      Ends (runOtherwise frame invoke dot otherwise) state (fun _ after ↦ state.Grows after)
        allowed := by
    cases otherwise with
    | none => exact .pure (.refl state)
    | some other => exact hother other rfl state hcovers
  rw [runNode_branch]
  refine .withScope (hhead.andThen fun value middle hmiddle ↦ ?_)
  suffices hends : Ends _ middle (fun _ after ↦ middle.Grows after) allowed from
    hends.mono fun _ _ hafter ↦ (hmiddle.grows.trans hafter).names_keep
  cases kind with
  | conditional =>
    dsimp only
    split
    · exact hbody dot middle hmiddle.covers
    · exact hotherwise hmiddle.covers
  | context =>
    dsimp only
    split
    · exact hbody value middle hmiddle.covers
    · exact hotherwise hmiddle.covers
  | loop =>
    dsimp only
    refine (loopItems_ends hregular _ _ value).andThen fun rounds _ hsame ↦ ?_
    rw [hsame]
    split
    · exact hotherwise hmiddle.covers
    · refine (runRounds_ends (fun pair start hstart ↦ ?_) rounds rfl).andThen
        fun _ after hafter ↦ .pure (State.grows_of_eq hafter)
      have hcovers : Covers inside start := by
        intro name hname
        rw [hstart]
        exact hmiddle.covers name hname
      refine .withScope ((bindRound_ends hnamed hcovers hassigned).andThen ?_)
      intro _ bound hbound
      have hgrows := State.grows_of_eq hbound
      refine (hbody pair.2 bound (hcovers.grow hgrows)).mono fun _ after hafter ↦ ?_
      exact (hgrows.trans hafter).names_keep.trans hstart

mutual

/-- A statement that is formed fails with what is allowed, and declares its variables. -/
theorem runNode_ends {allowed : EvalError → Prop} (hregular : AllowsRegular allowed)
    (frame : Frame) {invoke : Invoker} (hinvoke : invoke.Keeps allowed) (dot : Value) :
    (node : Node) → (loops : Nat) → (sight : Sight) →
      node.IsStatement frame.functions.has loops →
      AllAllowed allowed frame.tree (node.mentions frame.functions sight) →
      (state : State) → Covers sight state →
      Ends (runNode frame invoke dot node) state
        (fun _ after ↦ Behind (node.sightAfter frame.functions sight) state after) allowed
  | .text _ text, _, _, _, _, state, hcovers =>
    .bind (.emit fun sink ↦ .pure ⟨.refl state, hcovers⟩)
  | .comment .., _, _, _, _, _, hcovers => .pure hcovers.behind
  | .breakLoop _, _, _, _, _, _, hcovers => .pure hcovers.behind
  | .continueLoop _, _, _, _, _, _, hcovers => .pure hcovers.behind
  | .action _ inner, _, sight, hformed, hallowed, state, hcovers => by
    rw [runNode]
    refine (evalPipeline_ends hregular frame dot inner sight hformed hallowed state
      hcovers).andThen fun value middle hmiddle ↦ ?_
    split
    · exact .bind (.emit fun sink ↦ .pure ⟨hmiddle.grows, hmiddle.covers⟩)
    · exact .pure hmiddle
  | .template position name none, _, sight, _, _, state, hcovers => by
    have hname := hinvoke name
    rw [runNode]
    split
    next fault hfault =>
      rw [hfault] at hname
      exact .fail (hname _ _)
    next run hrun =>
      rw [hrun] at hname
      refine (hname _ state).andThen fun _ after hafter ↦ .pure ?_
      have hgrows : state.Grows after := State.grows_of_eq (hafter ▸ rfl)
      exact ⟨hgrows, hcovers.grow hgrows⟩
  | .template position name (some inner), _, sight, hformed, hallowed, state, hcovers => by
    have hname := hinvoke name
    rw [runNode]
    split
    next fault hfault =>
      rw [hfault] at hname
      exact .fail (hname _ _)
    next run hrun =>
      rw [hrun] at hname
      refine (evalPipeline_ends hregular frame dot inner sight hformed hallowed state
        hcovers).andThen fun value middle hmiddle ↦ ?_
      refine (hname value middle).andThen fun _ after hafter ↦ .pure ?_
      exact hmiddle.grow (State.grows_of_eq (hafter ▸ rfl))
  | .branch kind position head body none, loops, sight, hformed, hallowed, state, hcovers => by
    obtain ⟨hparts, -⟩ := allAllowed_append.mp hallowed
    obtain ⟨hhead, hbody⟩ := allAllowed_append.mp hparts
    refine (branch_ends hregular hformed.1.isNamed
      (evalPipeline_ends hregular frame dot head sight hformed.1 hhead state hcovers)
      (allAllowed_assigned hhead)
      (fun dot ↦ runBody_ends hregular frame hinvoke dot body _ _ hformed.2.1 hbody)
      (by rintro _ ⟨⟩)).mono fun _ after hafter ↦ ?_
    exact hcovers.behind.grow (State.grows_of_eq hafter)
  | .branch kind position head body (some other), loops, sight, hformed, hallowed, state,
      hcovers => by
    obtain ⟨hparts, hother⟩ := allAllowed_append.mp hallowed
    obtain ⟨hhead, hbody⟩ := allAllowed_append.mp hparts
    have hotherwise : ∀ part ∈ some other, ∀ state,
        Covers (head.sightAfter frame.functions sight) state →
        Ends (runBody frame invoke dot part) state (fun _ after ↦ state.Grows after) allowed := by
      have hends := runBody_ends hregular frame hinvoke dot other _ _ hformed.2.2 hother
      rintro _ ⟨⟩
      exact hends
    refine (branch_ends hregular hformed.1.isNamed
      (evalPipeline_ends hregular frame dot head sight hformed.1 hhead state hcovers)
      (allAllowed_assigned hhead)
      (fun dot ↦ runBody_ends hregular frame hinvoke dot body _ _ hformed.2.1 hbody)
      hotherwise).mono fun _ after hafter ↦ ?_
    exact hcovers.behind.grow (State.grows_of_eq hafter)
  | .pipeline _, _, _, hformed, _, _, _ => hformed.elim
  | .command _, _, _, hformed, _, _, _ => hformed.elim
  | .identifier .., _, _, hformed, _, _, _ => hformed.elim
  | .var _, _, _, hformed, _, _, _ => hformed.elim
  | .dot _, _, _, hformed, _, _, _ => hformed.elim
  | .nil _, _, _, hformed, _, _, _ => hformed.elim
  | .field .., _, _, hformed, _, _, _ => hformed.elim
  | .chain .., _, _, hformed, _, _, _ => hformed.elim
  | .bool .., _, _, hformed, _, _, _ => hformed.elim
  | .number _, _, _, hformed, _, _, _ => hformed.elim
  | .string .., _, _, hformed, _, _, _ => hformed.elim

/-- Statements that are formed fail with what is allowed. -/
theorem runNodes_ends {allowed : EvalError → Prop} (hregular : AllowsRegular allowed)
    (frame : Frame) {invoke : Invoker} (hinvoke : invoke.Keeps allowed) (dot : Value) :
    (nodes : List Node) → (loops : Nat) → (sight : Sight) →
      Node.AllStatements frame.functions.has loops nodes →
      AllAllowed allowed frame.tree (Node.allMentions frame.functions sight nodes) →
      (state : State) → Covers sight state →
      Ends (runNodes frame invoke dot nodes) state (fun _ after ↦ state.Grows after) allowed
  | [], _, _, _, _, state, _ => .pure (.refl state)
  | node :: rest, loops, sight, hformed, hallowed, state, hcovers => by
    obtain ⟨hnode, hrest⟩ := allAllowed_append.mp hallowed
    rw [runNodes]
    refine (runNode_ends hregular frame hinvoke dot node loops sight hformed.1 hnode state
      hcovers).andThen fun flow middle hmiddle ↦ ?_
    cases flow with
    | normal =>
      refine (runNodes_ends hregular frame hinvoke dot rest loops _ hformed.2 hrest middle
        hmiddle.covers).mono fun _ after hafter ↦ ?_
      exact hmiddle.grows.trans hafter
    | breaking | continuing => exact .pure hmiddle.grows

/-- A body that is formed fails with what is allowed. -/
theorem runBody_ends {allowed : EvalError → Prop} (hregular : AllowsRegular allowed)
    (frame : Frame) {invoke : Invoker} (hinvoke : invoke.Keeps allowed) (dot : Value) :
    (body : Body) → (loops : Nat) → (sight : Sight) →
      body.IsFormed frame.functions.has loops →
      AllAllowed allowed frame.tree (body.mentions frame.functions sight) →
      (state : State) → Covers sight state →
      Ends (runBody frame invoke dot body) state (fun _ after ↦ state.Grows after) allowed
  | ⟨_, nodes⟩, loops, sight, hformed, hallowed, state, hcovers =>
    runNodes_ends hregular frame hinvoke dot nodes loops sight hformed hallowed state hcovers

end

/-! ### Templates -/

section Programs

variable {allowed : EvalError → Prop} {program : Program}

/-- That a tree has the shape that the parser gives it and mentions what is allowed. -/
structure Program.Admits (program : Program) (allowed : EvalError → Prop) (tree : Tree) : Prop where
  isFormed : tree.root.IsFormed program.functions.has 0
  allAllowed : AllAllowed allowed tree (tree.root.mentions program.functions .start)

/-- A tree that is admitted fails with what is allowed, and gives back the variables. -/
theorem runTree_ends (hregular : AllowsRegular allowed) {invoke : Invoker}
    (hinvoke : invoke.Keeps allowed) {tree : Tree} (htree : program.Admits allowed tree)
    (data : Value) (state : State) :
    Ends (runTree program invoke tree data) state (fun _ after ↦ after.scope = state.scope)
      allowed := by
  rw [runTree]
  refine .bind (.scope (.bind (.setScope ?_)))
  have hcovers : Covers .start { state with scope := Scope.initial data } :=
    fun name hname ↦ hname
  refine (runBody_ends hregular (program.frame tree) hinvoke data tree.root 0 .start
    htree.isFormed htree.allAllowed _ hcovers).andThen fun _ after _ ↦ ?_
  exact .setScope rfl

/-- Templates that are admitted can be invoked inside one another. -/
theorem invoker_keeps (hregular : AllowsRegular allowed)
    (hprogram : ∀ tree ∈ program.trees.trees, program.Admits allowed tree) (more : Nat) :
    (invoker program more).Keeps allowed := by
  induction more with
  | zero =>
    intro name
    rw [invoker]
    cases program.trees.find? name with
    | none => exact fun _ _ ↦ hregular.data _ rfl rfl nofun
    | some tree => exact fun _ _ ↦ hregular.data _ rfl rfl nofun
  | succ more ih =>
    intro name
    rw [invoker]
    cases hfind : program.trees.find? name with
    | none => exact fun _ _ ↦ hregular.data _ rfl rfl nofun
    | some tree => exact runTree_ends hregular ih (hprogram tree (List.mem_of_find?_eq_some hfind))

/-- An execution of templates that are admitted fails with what is allowed. -/
theorem execute_fault (hregular : AllowsRegular allowed)
    (hprogram : ∀ tree ∈ program.trees.trees, program.Admits allowed tree) {set name : String}
    {limit : Option Nat} {data : Value} {error : EvalError}
    (herror : (execute program set name limit data).error = some (.eval error)) :
    allowed error := by
  rw [execute] at herror
  split at herror
  next => cases herror
  next tree hfind =>
    have hends := runTree_ends hregular (invoker_keeps hregular hprogram maxInvocations)
      (hprogram tree (List.mem_of_find?_eq_some hfind)) data ⟨[], Sink.limited limit⟩
    dsimp only at herror
    split at herror
    next => cases herror
    next found after hrun =>
      obtain rfl : found = .eval error := Option.some.inj herror
      rw [Ends, hrun] at hends
      exact hends

end Programs

/-! ### Malformed trees -/

/-- An execution never meets a malformed tree: whatever the data and the meaning of missing keys,
each template of a source that the parser accepts with some functions is executed with them without
a fault about the tree itself. Every such fault ends the execution, so the branches that raise one
are never taken. -/
theorem execute_isFormed {name source : String} {delimiters : Delimiters}
    {functions : FunctionTable} {trees : TreeSet}
    (hparse : parse name delimiters functions.has source = .ok trees) (missingKey : MissingKey)
    {set entry : String} {limit : Option Nat} {data : Value} {error : EvalError}
    (herror : (execute ⟨trees, functions, missingKey⟩ set entry limit data).error =
      some (.eval error)) :
    error.fault.isMalformed = false := by
  have hregular : AllowsRegular fun error ↦ error.fault.isMalformed = false :=
    ⟨fun _ hfault _ _ ↦ hfault, fun _ _ _ _ ↦ rfl⟩
  refine execute_fault hregular (fun tree htree ↦ ?_) herror
  exact ⟨isFormed_of_parse hparse htree, fun _ _ _ _ _ ↦ rfl⟩

/-- A source with a template that is invoked. -/
def sizeSource : String := "[define \"size\"][len .][end][template \"size\" .]"

/-- The trees of the source. -/
def sizeTrees : TreeSet :=
  ⟨[⟨"size", "page", ⟨⟨15, 1⟩, [.action ⟨16, 1⟩ ⟨⟨16, 1⟩, false, [],
      [⟨⟨16, 1⟩, [.identifier ⟨16, 1⟩ "len", .dot ⟨20, 1⟩]⟩]⟩]⟩⟩,
    ⟨"page", "page", ⟨⟨0, 1⟩, [.template ⟨37, 1⟩ "size"
      (some ⟨⟨44, 1⟩, false, [], [⟨⟨44, 1⟩, [.dot ⟨44, 1⟩]⟩]⟩)]⟩⟩]⟩

/-- On a number, which has no length, the source fails inside the template that is invoked. -/
theorem execute_isFormed_size :
    ∃ error, parse "page" Delimiters.brackets (FunctionTable.has {}) sizeSource = .ok sizeTrees ∧
      (execute ⟨sizeTrees, {}, .default⟩ "page" "page" none (.int 3)).error =
        some (.eval error) ∧
      error.fault = .call "len" (.lengthOf "int") ∧ error.fault.isMalformed = false := by
  have hparse : parse "page" Delimiters.brackets (FunctionTable.has {}) sizeSource =
      .ok sizeTrees := by
    cbv
  have herror : (execute ⟨sizeTrees, {}, .default⟩ "page" "page" none (.int 3)).error =
      some (.eval ⟨"page", 1, "size", "len", .call "len" (.lengthOf "int")⟩) := by
    cbv
  exact ⟨_, hparse, herror, rfl, execute_isFormed hparse .default herror⟩

end Stencil.Exec
