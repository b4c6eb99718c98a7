import Stencil.Proofs.Execution.Ends
import Stencil.Proofs.Grammar.Formed

/-!
# What panics

An execution can panic at two places alone: where it looks for a variable that has no name, and
where it collects the rounds of a loop. A variable without a name is only in a tree that is built by
hand (`isNamed_of_parse`). If every variable has a name, each step of an execution is `Calm`: it
panics for nothing but the rounds of a loop, and only if they are more than can be held. Steps that
are made of calm ones are calm, so all that is evaluated and run is, and an execution of any set
of such trees panics for no other reason (`execute_calm`).
-/

set_option autoImplicit false
set_option relaxedAutoImplicit false

namespace Stencil

/-! ### Trees with names alone -/

namespace Syntax

mutual

/-- That every variable in a node has a name. -/
def Node.IsNamed : Node → Prop
  | .var reference => reference.IsNamed
  | .action _ inner | .pipeline inner => inner.IsNamed
  | .command inner => inner.IsNamed
  | .chain _ base _ => base.IsNamed
  | .branch _ _ head body otherwise =>
    head.IsNamed ∧ body.IsNamed ∧
      match otherwise with
      | none => True
      | some other => other.IsNamed
  | .template _ _ argument =>
    match argument with
    | none => True
    | some inner => inner.IsNamed
  | _ => True

/-- That every variable in a pipeline has a name. -/
def Pipeline.IsNamed : Pipeline → Prop
  | ⟨_, _, targets, commands⟩ => (∀ target ∈ targets, target.IsNamed) ∧ Command.AllNamed commands

/-- That every variable in some commands has a name. -/
def Command.AllNamed : List Command → Prop
  | [] => True
  | command :: rest => command.IsNamed ∧ Command.AllNamed rest

/-- That every variable in a command has a name. -/
def Command.IsNamed : Command → Prop
  | ⟨_, operands⟩ => Node.AllNamed operands

/-- That every variable in some nodes has a name. -/
def Node.AllNamed : List Node → Prop
  | [] => True
  | node :: rest => node.IsNamed ∧ Node.AllNamed rest

/-- That every variable in a body has a name. -/
def Body.IsNamed : Body → Prop
  | ⟨_, nodes⟩ => Node.AllNamed nodes

end

theorem Pipeline.IsNamed.targets {pipeline : Pipeline} (hnamed : pipeline.IsNamed) :
    ∀ target ∈ pipeline.targets, target.IsNamed := by
  obtain ⟨_, _, targets, commands⟩ := pipeline
  exact hnamed.1

section Parsed

variable {isFunction : String → Bool}

mutual

theorem Node.IsOperand.isNamed : {node : Node} → node.IsOperand isFunction → node.IsNamed
  | .var _, hnamed => hnamed
  | .pipeline _, hinner => Pipeline.IsFormed.allNamed hinner
  | .chain .., ⟨_, _, hbase⟩ => hbase.isNamed
  | .identifier .., _ | .dot _, _ | .nil _, _ | .field .., _ | .bool .., _ | .number _, _
  | .string .., _ => trivial

theorem Pipeline.IsFormed.allNamed :
    {pipeline : Pipeline} → pipeline.IsFormed isFunction → pipeline.IsNamed
  | ⟨_, _, _, _⟩, ⟨htargets, hcommands⟩ => ⟨htargets, Command.AllFormed.allNamed hcommands⟩

theorem Command.AllFormed.allNamed :
    {commands : List Command} → Command.AllFormed isFunction commands → Command.AllNamed commands
  | [], _ => trivial
  | ⟨_, _⟩ :: _, ⟨⟨_, hoperands⟩, hrest⟩ =>
    ⟨Node.AllOperands.allNamed hoperands, Command.AllFormed.allNamed hrest⟩

theorem Node.AllOperands.allNamed :
    {operands : List Node} → Node.AllOperands isFunction operands → Node.AllNamed operands
  | [], _ => trivial
  | _ :: _, ⟨hoperand, hrest⟩ => ⟨hoperand.isNamed, Node.AllOperands.allNamed hrest⟩

end

mutual

theorem Node.IsStatement.isNamed :
    {node : Node} → {loops : Nat} → node.IsStatement isFunction loops → node.IsNamed
  | .text .., _, _ | .comment .., _, _ | .breakLoop _, _, _ | .continueLoop _, _, _ => trivial
  | .action .., _, hinner => hinner.allNamed
  | .template _ _ none, _, _ => trivial
  | .template _ _ (some _), _, hinner => hinner.allNamed
  | .branch _ _ _ _ none, _, ⟨hhead, hbody, _⟩ => ⟨hhead.allNamed, hbody.isNamed, trivial⟩
  | .branch _ _ _ _ (some _), _, ⟨hhead, hbody, hother⟩ =>
    ⟨hhead.allNamed, hbody.isNamed, hother.isNamed⟩

theorem Node.AllStatements.allNamed :
    {nodes : List Node} → {loops : Nat} → Node.AllStatements isFunction loops nodes →
      Node.AllNamed nodes
  | [], _, _ => trivial
  | _ :: _, _, ⟨hnode, hrest⟩ => ⟨hnode.isNamed, Node.AllStatements.allNamed hrest⟩

theorem Body.IsFormed.isNamed :
    {body : Body} → {loops : Nat} → body.IsFormed isFunction loops → body.IsNamed
  | ⟨_, _⟩, _, hnodes => Node.AllStatements.allNamed hnodes

end

/-- A source gives no variable without a name. -/
theorem isNamed_of_parse {name source : String} {delimiters : Delimiters} {trees : TreeSet}
    (hparse : parse name delimiters isFunction source = .ok trees) {tree : Tree}
    (htree : tree ∈ trees.trees) : tree.root.IsNamed :=
  (isFormed_of_parse hparse htree).isNamed

end Parsed

end Syntax

namespace Exec

open Syntax

/-! ### Calm steps -/

/-- That an error is no panic but that of a loop with more rounds than can be held. -/
def PanicsForRounds (error : EvalError) : Prop :=
  error.fault.isPanic = true → ∃ count, maxRounds < count ∧ error.fault = .tooManyRounds count

theorem panicsForRounds_of_isPanic_eq_false {error : EvalError}
    (hfault : error.fault.isPanic = false) : PanicsForRounds error :=
  fun hpanic ↦ Bool.noConfusion (hfault.symm.trans hpanic)

theorem allowsRegular_panicsForRounds : AllowsRegular PanicsForRounds where
  data _ _ hfault _ := panicsForRounds_of_isPanic_eq_false hfault
  rounds _ _ count hmany _ := ⟨count, hmany, rfl⟩

/-- That a step panics for nothing but the rounds of a loop. -/
def Calm {α : Type} (step : Exec α) : Prop :=
  ∀ state, Ends step state (fun _ _ ↦ True) PanicsForRounds

/-- That the templates that can be invoked are calm, and the others refused without a panic. -/
def Invoker.IsCalm (invoke : Invoker) : Prop :=
  ∀ name,
    match invoke name with
    | .error fault => fault.isPanic = false
    | .ok run => ∀ data, Calm (run data)

namespace Calm

section Rules

variable {α β : Type} {frame : Frame}

theorem of_ends {step : Exec α} {ok : State → α → State → Prop}
    (hends : ∀ state, Ends step state (ok state) PanicsForRounds) : Calm step :=
  fun state ↦ (hends state).mono fun _ _ _ ↦ trivial

theorem pure (value : α) : Calm (return value) := fun _ ↦ .pure trivial

theorem fail {node : Node} {fault : EvalFault} (hfault : fault.isPanic = false) :
    Calm (fail (α := α) frame node fault) :=
  fun _ ↦ .fail (panicsForRounds_of_isPanic_eq_false hfault)

theorem bind {first : Exec α} {next : α → Exec β} (hfirst : Calm first)
    (hnext : ∀ value, Calm (next value)) : Calm (first >>= next) :=
  fun state ↦ (hfirst state).andThen fun value after _ ↦ hnext value after

theorem emit (text : String) : Calm (emit text) := fun _ ↦ .emit fun _ ↦ trivial

theorem scope : Calm scope := fun _ ↦ .scope trivial

theorem setScope (inner : Scope) : Calm (setScope inner) := fun _ ↦ .setScope trivial

theorem withScope {step : Exec α} (hstep : Calm step) : Calm (withScope step) :=
  fun state ↦ .withScope (hstep state)

theorem ite {condition : Prop} [Decidable condition] {first second : Exec α} (hthen : Calm first)
    (helse : Calm second) : Calm (if condition then first else second) := by
  split
  · exact hthen
  · exact helse

end Rules

/-! ### Fields, variables and calls -/

section Basic

variable (frame : Frame)

theorem fieldPath (node : Node) (given : Bool) (receiver : Value) (path : List String) :
    Calm (fieldPath frame node given receiver path) :=
  of_ends fun _ ↦ fieldPath_ends allowsRegular_panicsForRounds node given receiver path

theorem callFunction (node : Node) (name : String) (function : Function) (arguments : List Value) :
    Calm (callFunction frame node name function arguments) :=
  of_ends fun _ ↦ callFunction_ends allowsRegular_panicsForRounds node name function arguments

theorem loopItems (node : Node) (targets : Nat) (value : Value) :
    Calm (loopItems frame node targets value) :=
  of_ends fun _ ↦ loopItems_ends allowsRegular_panicsForRounds node targets value

/-- A variable with a name may be undefined, which is no panic. -/
theorem allowsVariable {sought : Variable} (hnamed : sought.IsNamed) (names : List String) :
    AllowsVariable PanicsForRounds frame sought names where
  nameless hnone := absurd hnone hnamed
  undefined _ _ _ := panicsForRounds_of_isPanic_eq_false rfl

theorem assign {target : Variable} (hnamed : target.IsNamed) (value : Value) :
    Calm (assign frame target value) :=
  of_ends fun _ ↦ assign_ends (allowsVariable frame hnamed _)

theorem evalVariable (given : Bool) (operand : Node) {reference : Variable}
    (hnamed : reference.IsNamed) : Calm (evalVariable frame given operand reference) :=
  of_ends fun _ ↦
    evalVariable_ends allowsRegular_panicsForRounds given operand (allowsVariable frame hnamed _)

theorem bindVariables (isAssign : Bool) (value : Value) {targets : List Variable}
    (hnamed : ∀ target ∈ targets, target.IsNamed) :
    Calm (bindVariables frame isAssign value targets) := by
  cases isAssign with
  | true =>
    exact of_ends fun _ ↦
      bindVariables_assign_ends fun target htarget ↦ allowsVariable frame (hnamed target htarget) _
  | false =>
    exact of_ends fun _ ↦
      bindVariables_declare_ends fun target htarget hnone ↦ absurd hnone (hnamed target htarget)

/-- A call is calm if its operands are in every way in which it evaluates them. -/
theorem callNamed (position : Position) (name : String) (last : Option Value) {operands : Operands}
    (hvalues : Calm operands.values) (hdeciding : ∀ stop, Calm (operands.deciding stop)) :
    Calm (callNamed frame position name last operands) := by
  unfold Exec.callNamed
  split
  · exact fail rfl
  · exact bind hvalues fun arguments ↦ callFunction frame _ _ _ _
  · split
    · exact ite (fail rfl) (bind (hdeciding _) fun _ ↦ pure _)
    · exact bind hvalues fun arguments ↦ callFunction frame _ _ _ _

end Basic

/-! ### Pipelines -/

mutual

theorem evalPipeline (frame : Frame) (dot : Value) :
    (pipeline : Pipeline) → pipeline.IsNamed → Calm (evalPipeline frame dot pipeline)
  | ⟨_, isAssign, _, commands⟩, ⟨htargets, hcommands⟩ =>
    bind (evalCommands frame dot none commands hcommands) fun _ ↦
      bind (bindVariables frame isAssign _ htargets) fun _ ↦ pure _

theorem evalCommands (frame : Frame) (dot : Value) (last : Option Value) :
    (commands : List Command) → Command.AllNamed commands →
      Calm (evalCommands frame dot last commands)
  | [], _ => pure last
  | command :: rest, ⟨hcommand, hrest⟩ =>
    bind (evalCommand frame dot last command hcommand) fun value ↦
      evalCommands frame dot (some value) rest hrest

theorem evalCommand (frame : Frame) (dot : Value) (last : Option Value) :
    (command : Command) → command.IsNamed → Calm (evalCommand frame dot last command)
  | ⟨_, []⟩, _ => fail rfl
  | ⟨_, .identifier position name :: rest⟩, ⟨_, hrest⟩ =>
    callNamed frame position name last (evalOperands frame dot rest hrest)
      fun stop ↦ evalDeciding frame dot stop .null rest hrest
  | ⟨_, .field position path :: _⟩, _ => fieldPath frame (.field position path) _ dot path
  | ⟨_, .chain _ _ [] :: _⟩, _ => fail rfl
  | ⟨start, .chain position base (name :: path) :: rest⟩, ⟨hbase, _⟩ => by
    by_cases hnil : ∃ position, base = .nil position
    · obtain ⟨spot, rfl⟩ := hnil
      exact fail rfl
    · rw [not_exists] at hnil
      rw [evalCommand_chain frame dot last start position rest (by simp) hnil]
      exact bind (evalOperand frame dot base hbase) fun receiver ↦ fieldPath frame _ _ receiver _
  | ⟨_, .var reference :: _⟩, ⟨hnamed, _⟩ => evalVariable frame _ (.var reference) hnamed
  | ⟨_, .pipeline inner :: _⟩, ⟨hinner, _⟩ => ite (fail rfl) (evalPipeline frame dot inner hinner)
  | ⟨_, .bool .. :: _⟩, _ | ⟨_, .dot _ :: _⟩, _ | ⟨_, .number _ :: _⟩, _
  | ⟨_, .string .. :: _⟩, _ => ite (fail rfl) (pure _)
  | ⟨_, .nil _ :: _⟩, _ | ⟨_, .text .. :: _⟩, _ | ⟨_, .comment .. :: _⟩, _
  | ⟨_, .action .. :: _⟩, _ | ⟨_, .command _ :: _⟩, _ | ⟨_, .branch .. :: _⟩, _
  | ⟨_, .template .. :: _⟩, _ | ⟨_, .breakLoop _ :: _⟩, _ | ⟨_, .continueLoop _ :: _⟩, _ =>
    ite (fail rfl) (fail rfl)

theorem evalOperands (frame : Frame) (dot : Value) :
    (operands : List Node) → Node.AllNamed operands → Calm (evalOperands frame dot operands)
  | [], _ => pure []
  | operand :: rest, ⟨hoperand, hrest⟩ =>
    bind (evalOperand frame dot operand hoperand) fun _ ↦
      bind (evalOperands frame dot rest hrest) fun _ ↦ pure _

theorem evalDeciding (frame : Frame) (dot : Value) (stop : Bool) (value : Value) :
    (operands : List Node) → Node.AllNamed operands →
      Calm (evalDeciding frame dot stop value operands)
  | [], _ => pure (false, value)
  | operand :: rest, ⟨hoperand, hrest⟩ =>
    bind (evalOperand frame dot operand hoperand) fun next ↦
      ite (pure _) (evalDeciding frame dot stop next rest hrest)

theorem evalOperand (frame : Frame) (dot : Value) :
    (operand : Node) → operand.IsNamed → Calm (evalOperand frame dot operand)
  | .dot _, _ | .nil _, _ | .bool .., _ | .number _, _ | .string .., _ => pure _
  | .field position path, _ => fieldPath frame (.field position path) false dot path
  | .var reference, hnamed => evalVariable frame false (.var reference) hnamed
  | .pipeline inner, hinner => evalPipeline frame dot inner hinner
  | .identifier position name, _ =>
    callNamed frame position name none (pure []) fun _ ↦ pure (false, Value.null)
  | .chain _ _ [], _ => fail rfl
  | .chain position base (name :: path), hbase => by
    by_cases hnil : ∃ position, base = .nil position
    · obtain ⟨spot, rfl⟩ := hnil
      exact fail rfl
    · rw [not_exists] at hnil
      rw [evalOperand_chain frame dot position (by simp) hnil]
      exact bind (evalOperand frame dot base hbase) fun receiver ↦ fieldPath frame _ _ receiver _
  | .text .., _ | .comment .., _ | .action .., _ | .command _, _ | .branch .., _
  | .template .., _ | .breakLoop _, _ | .continueLoop _, _ => fail rfl

end

/-! ### Loops -/

section Loops

variable {frame : Frame} {invoke : Invoker} {dot : Value}

theorem bindRound {head : Pipeline} (hnamed : ∀ target ∈ head.targets, target.IsNamed)
    (index item : Value) : Calm (bindRound frame head index item) := by
  obtain ⟨position, isAssign, targets, commands⟩ := head
  unfold Exec.bindRound
  match targets, isAssign with
  | [], _ => exact pure ()
  | [target], true => exact assign frame (hnamed target (by simp)) _
  | first :: second :: _, true =>
    exact bind (assign frame (hnamed first (by simp)) _) fun _ ↦
      assign frame (hnamed second (by simp)) _
  | [_], false => exact bind scope fun _ ↦ setScope _
  | _ :: _ :: _, false => exact bind scope fun _ ↦ setScope _

/-- Rounds are calm if each is, however many of them are run. -/
theorem runRounds {round : Value × Value → Exec Flow} (hround : ∀ pair, Calm (round pair))
    (pairs : List (Value × Value)) : Calm (runRounds round pairs) := by
  induction pairs with
  | nil => exact pure ()
  | cons pair rest ih =>
    refine bind (hround pair) fun flow ↦ ?_
    cases flow with
    | breaking => exact pure ()
    | normal | continuing => exact ih

/-- A control structure is calm if its parts are. -/
theorem runNode_branch {kind : BranchKind} {position : Position} {head : Pipeline} {body : Body}
    {otherwise : Option Body} (hhead : head.IsNamed)
    (hbody : ∀ dot, Calm (runBody frame invoke dot body))
    (hother : Calm (runOtherwise frame invoke dot otherwise)) :
    Calm (runNode frame invoke dot (.branch kind position head body otherwise)) := by
  rw [Exec.runNode_branch]
  refine withScope (bind (evalPipeline frame dot head hhead) fun value ↦ ?_)
  cases kind with
  | conditional => exact ite (hbody dot) hother
  | context => exact ite (hbody value) hother
  | loop =>
    refine bind (loopItems frame _ _ value) fun rounds ↦ ite hother ?_
    refine bind (runRounds (fun pair ↦ ?_) rounds) fun _ ↦ pure _
    exact withScope (bind (bindRound hhead.targets _ _) fun _ ↦ hbody _)

end Loops

/-! ### Statements -/

section Statements

variable (frame : Frame) {invoke : Invoker}

/-- An invocation is calm if its argument is. -/
theorem runNode_template (hinvoke : invoke.IsCalm) (dot : Value) (position : Position)
    (name : String) {argument : Option Pipeline} (hargument : ∀ inner ∈ argument, inner.IsNamed) :
    Calm (runNode frame invoke dot (.template position name argument)) := by
  have hname := hinvoke name
  rw [runNode]
  split
  next fault hfault =>
    rw [hfault] at hname
    exact fail hname
  next run hrun =>
    rw [hrun] at hname
    cases argument with
    | none => exact bind (pure _) fun data ↦ bind (hname data) fun _ ↦ pure _
    | some inner =>
      exact bind (evalPipeline frame dot inner (hargument inner rfl)) fun data ↦
        bind (hname data) fun _ ↦ pure _

mutual

theorem runNode (hinvoke : invoke.IsCalm) (dot : Value) :
    (node : Node) → node.IsNamed → Calm (runNode frame invoke dot node)
  | .text _ text, _ => bind (emit text) fun _ ↦ pure _
  | .comment .., _ | .breakLoop _, _ | .continueLoop _, _ => pure _
  | .action _ inner, hinner =>
    bind (evalPipeline frame dot inner hinner) fun _ ↦
      ite (bind (emit _) fun _ ↦ pure _) (pure _)
  | .template position name none, _ => runNode_template frame hinvoke dot position name nofun
  | .template position name (some inner), hinner =>
    runNode_template frame hinvoke dot position name fun _ hsome ↦ by
      cases hsome
      exact hinner
  | .branch _ _ _ body none, ⟨hhead, hbody, _⟩ =>
    runNode_branch hhead (fun dot ↦ runBody hinvoke dot body hbody) (pure _)
  | .branch _ _ _ body (some other), ⟨hhead, hbody, hother⟩ =>
    runNode_branch hhead (fun dot ↦ runBody hinvoke dot body hbody)
      (runBody hinvoke dot other hother)
  | .pipeline _, _ | .command _, _ | .identifier .., _ | .var _, _ | .dot _, _ | .nil _, _
  | .field .., _ | .chain .., _ | .bool .., _ | .number _, _ | .string .., _ => fail rfl

theorem runNodes (hinvoke : invoke.IsCalm) (dot : Value) :
    (nodes : List Node) → Node.AllNamed nodes → Calm (runNodes frame invoke dot nodes)
  | [], _ => pure _
  | node :: rest, ⟨hnode, hrest⟩ =>
    bind (runNode hinvoke dot node hnode) fun flow ↦ by
      cases flow with
      | normal => exact runNodes hinvoke dot rest hrest
      | breaking | continuing => exact pure _

theorem runBody (hinvoke : invoke.IsCalm) (dot : Value) :
    (body : Body) → body.IsNamed → Calm (runBody frame invoke dot body)
  | ⟨_, nodes⟩, hnodes => runNodes hinvoke dot nodes hnodes

end

end Statements

end Calm

/-! ### Executions -/

section Programs

variable {program : Program}

/-- A run of a tree is calm if the invocations in it are. -/
theorem calm_runTree {invoke : Invoker} (hinvoke : invoke.IsCalm)
    {tree : Tree} (hnamed : tree.root.IsNamed) (data : Value) :
    Calm (runTree program invoke tree data) :=
  .bind .scope fun _ ↦ .bind (.setScope _) fun _ ↦
    .bind (.runBody _ hinvoke data tree.root hnamed) fun _ ↦ .setScope _

theorem calm_invoker (hnamed : ∀ tree ∈ program.trees.trees, tree.root.IsNamed) (more : Nat) :
    (invoker program more).IsCalm := by
  induction more with
  | zero =>
    intro name
    rw [invoker]
    cases program.trees.find? name <;> rfl
  | succ more ih =>
    intro name
    rw [invoker]
    cases hfind : program.trees.find? name with
    | none => rfl
    | some tree => exact calm_runTree ih (hnamed tree (List.mem_of_find?_eq_some hfind))

/-- If every variable of a set has a name, an execution of it panics for nothing but the rounds of a
loop, of which there are then more than can be held. -/
theorem execute_calm (hnamed : ∀ tree ∈ program.trees.trees, tree.root.IsNamed)
    {set name : String} {limit : Option Nat} {data : Value} {error : EvalError}
    (herror : (execute program set name limit data).error = some (.eval error)) :
    PanicsForRounds error := by
  rw [execute] at herror
  split at herror
  next => cases herror
  next tree hfind =>
    have hinvoke := calm_invoker hnamed maxInvocations
    have hends : Ends (runTree program (invoker program maxInvocations) tree data)
        ⟨[], Sink.limited limit⟩ (fun _ _ ↦ True) PanicsForRounds :=
      calm_runTree hinvoke (hnamed tree (List.mem_of_find?_eq_some hfind)) data _
    dsimp only at herror
    split at herror
    next => cases herror
    next found after hrun =>
      obtain rfl : found = .eval error := Option.some.inj herror
      rwa [Ends, hrun] at hends

end Programs

end Exec

end Stencil
