import Stencil.Proofs.Execution.Steps
import Stencil.Proofs.Grammar.Positions

/-!
# Two executions side by side

Two executions of one template that differ in what surrounds them (the meaning of a missing key, the
variables below their own, the positions of the tree) go through the same steps. A `Coupling` says
what is true of their states as long as the first has not failed, and what is known of the second
once it has; `Coupled` says that two steps preserve this. Steps that are made of coupled steps are
coupled (`Coupled.bind`, `Coupled.withScope`), so it is enough to couple the few basic steps that
read or change the state (`Coupling.Holds`): then all that the evaluator and the runner make of them
is coupled, for every pipeline and every statement (`evalPipeline_coupled`, `runBody_coupled`).

The states are related by their innermost variables, so the relation carries a number: at least so
many of the innermost variables are shared. Declaring adds to it, and a loop needs it, because it
gives values to variables by their place and not by their name. A coupling need not survive every
declaration and assignment: it names the variables that it admits, and what is coupled is a pipeline
or a statement with such targets alone (`Pipeline.targetNames`, `Node.targetNames`).

The second execution may go on after the first has failed. What is known then has to survive further
writing, which is why `Coupled` also records that a step takes back nothing that was written.

Of two executions that are in the same state until both fail (`Coupling.sameState`), only the errors
remain to be compared: coupled steps end in the same state, with the same value or with errors that
belong together (`Coupled.run_sameState`).
-/

set_option autoImplicit false
set_option relaxedAutoImplicit false

namespace Stencil

namespace Syntax

/-! ### Targets -/

mutual

/-- The names of the variables that are declared or assigned in a node. -/
def Node.targetNames : Node → List String
  | .action _ inner | .pipeline inner => inner.targetNames
  | .command inner => inner.targetNames
  | .chain _ base _ => base.targetNames
  | .branch _ _ head body otherwise =>
    head.targetNames ++
      (body.targetNames ++
        match otherwise with
        | none => []
        | some other => other.targetNames)
  | .template _ _ argument =>
    match argument with
    | none => []
    | some inner => inner.targetNames
  | _ => []

/-- The names of the variables that are declared or assigned in a pipeline. -/
def Pipeline.targetNames : Pipeline → List String
  | ⟨_, _, targets, commands⟩ =>
    targets.filterMap Variable.name? ++ Command.allTargetNames commands

/-- The names of the variables that are declared or assigned in commands. -/
def Command.allTargetNames : List Command → List String
  | [] => []
  | command :: rest => command.targetNames ++ Command.allTargetNames rest

/-- The names of the variables that are declared or assigned in a command. -/
def Command.targetNames : Command → List String
  | ⟨_, operands⟩ => Node.allTargetNames operands

/-- The names of the variables that are declared or assigned in nodes. -/
def Node.allTargetNames : List Node → List String
  | [] => []
  | node :: rest => node.targetNames ++ Node.allTargetNames rest

/-- The names of the variables that are declared or assigned in a body. -/
def Body.targetNames : Body → List String
  | ⟨_, nodes⟩ => Node.allTargetNames nodes

end

/-! ### Invocations -/

mutual

/-- The names of the templates that running a node may invoke. -/
def Node.invocations : Node → List String
  | .branch _ _ _ body otherwise =>
    body.invocations ++
      match otherwise with
      | none => []
      | some other => other.invocations
  | .template _ name _ => [name]
  | _ => []

/-- The names of the templates that running nodes in a row may invoke. -/
def Node.allInvocations : List Node → List String
  | [] => []
  | node :: rest => node.invocations ++ Node.allInvocations rest

/-- The names of the templates that running a body may invoke. -/
def Body.invocations : Body → List String
  | ⟨_, nodes⟩ => Node.allInvocations nodes

end

end Syntax

namespace Exec

open Syntax

/-! ### Couplings -/

/-- The error that a step ended with, if it did. -/
def errorOf {α : Type} : Except ExecError α → Option ExecError
  | .ok _ => none
  | .error error => some error

/-- What two executions have to do with each other. -/
structure Coupling where
  /-- That two states belong together and share at least so many of their innermost variables. -/
  relates : Nat → State → State → Prop
  /-- What is known of the error and the state of the second execution once the first has failed
  with an error in a state. -/
  failed : ExecError → State → Option ExecError → State → Prop
  /-- The names that the executions may declare and assign. -/
  admits : String → Prop := fun _ ↦ True
  relates_of_succ : ∀ {count : Nat} {first second : State},
    relates (count + 1) first second → relates count first second
  failed_later : ∀ {error : ExecError} {first second after : State} {result : Option ExecError},
    failed error first none second → second.sink.writes <:+ after.sink.writes →
      failed error first result after

/-- That two steps preserve a coupling: from states that share `before` variables they reach states
that share `after`. -/
structure Coupled (coupling : Coupling) (before after : Nat) {α : Type} (first second : Exec α) :
    Prop where
  writes : ∀ state : State, state.sink.writes <:+ (second.run state).2.sink.writes
  agrees : ∀ {more : Nat} {state other : State}, coupling.relates (before + more) state other →
    match first.run state with
    | (.ok value, reached) =>
      ∃ otherReached, second.run other = (.ok value, otherReached) ∧
        coupling.relates (after + more) reached otherReached
    | (.error error, reached) =>
      coupling.failed error reached (errorOf (second.run other).1) (second.run other).2

/-! ### Rules -/

section Rules

variable {coupling : Coupling} {before middle after : Nat} {α β : Type}

/-- Fewer shared variables are shared as well. -/
theorem Coupling.relates_of_le {few many : Nat} (hle : few ≤ many) {state other : State}
    (hrelates : coupling.relates many state other) : coupling.relates few state other := by
  induction hle with
  | refl => exact hrelates
  | step _ ih => exact ih (coupling.relates_of_succ hrelates)

namespace Coupled

theorem pure (value : α) : Coupled coupling before before (return value) (return value) where
  writes := fun _ ↦ List.suffix_rfl
  agrees := fun hrelates ↦ ⟨_, rfl, hrelates⟩

/-- Coupled steps that are followed by coupled steps are coupled. -/
theorem bind {first second : Exec α} {firstNext secondNext : α → Exec β}
    (hsteps : Coupled coupling before middle first second)
    (hnext : ∀ value, Coupled coupling middle after (firstNext value) (secondNext value)) :
    Coupled coupling before after (first >>= firstNext) (second >>= secondNext) where
  writes := by
    intro state
    have hfirst := hsteps.writes state
    rw [run_bind]
    rcases hrun : second.run state with ⟨error | value, reached⟩
    · rw [hrun] at hfirst
      exact hfirst
    · rw [hrun] at hfirst
      exact hfirst.trans ((hnext value).writes reached)
  agrees := by
    intro more state other hrelates
    have hagrees := hsteps.agrees hrelates
    rw [run_bind, run_bind]
    rcases hfirst : first.run state with ⟨error | value, reached⟩
    · rw [hfirst] at hagrees
      dsimp only at hagrees ⊢
      rcases hsecond : second.run other with ⟨otherError | value, otherReached⟩
      · rw [hsecond] at hagrees
        exact hagrees
      · -- The first execution has failed and the second goes on.
        rw [hsecond] at hagrees
        exact coupling.failed_later hagrees ((hnext value).writes otherReached)
    · rw [hfirst] at hagrees
      obtain ⟨otherReached, hsecond, hreached⟩ := hagrees
      rw [hsecond]
      exact (hnext value).agrees hreached

/-- Steps preserve also the further variables that are shared. -/
theorem shift {first second : Exec α} (hsteps : Coupled coupling before after first second)
    (further : Nat) : Coupled coupling (before + further) (after + further) first second where
  writes := hsteps.writes
  agrees := by
    intro more state other hrelates
    rw [Nat.add_assoc] at hrelates
    have hagrees := hsteps.agrees hrelates
    rwa [← Nat.add_assoc] at hagrees

/-- Steps that leave the shared variables alone do so however many they are. -/
theorem neutral {first second : Exec α} (hsteps : Coupled coupling 0 0 first second)
    (count : Nat) : Coupled coupling count count first second := by
  have hshift := hsteps.shift count
  rwa [Nat.zero_add] at hshift

/-- What is shared at the end may be forgotten. -/
theorem forget {first second : Exec α} (hsteps : Coupled coupling before after first second)
    {fewer : Nat} (hle : fewer ≤ after) : Coupled coupling before fewer first second where
  writes := hsteps.writes
  agrees := by
    intro more state other hrelates
    have hagrees := hsteps.agrees hrelates
    rcases hfirst : first.run state with ⟨error | value, reached⟩
    · rwa [hfirst] at hagrees
    · rw [hfirst] at hagrees
      obtain ⟨otherReached, hsecond, hreached⟩ := hagrees
      exact ⟨otherReached, hsecond, coupling.relates_of_le (by omega) hreached⟩

theorem ite {condition : Prop} [Decidable condition] {first second firstElse secondElse : Exec α}
    (hthen : Coupled coupling before after first second)
    (helse : Coupled coupling before after firstElse secondElse) :
    Coupled coupling before after (if condition then first else firstElse)
      (if condition then second else secondElse) := by
  split
  · exact hthen
  · exact helse

end Coupled

end Rules

/-! ### Basic steps -/

/-- What a sink accepts is written after what it accepted before. -/
theorem Sink.writes_suffix {sink after : Sink} {text : String}
    (hwrite : sink.write text = some after) : sink.writes <:+ after.writes := by
  unfold write at hwrite
  by_cases hempty : text = ""
  · rw [if_pos hempty] at hwrite
    cases hwrite
    exact List.suffix_rfl
  · rw [if_neg hempty] at hwrite
    split at hwrite
    next =>
      cases hwrite
      exact List.suffix_cons text _
    next room _ =>
      by_cases hfits : text.utf8ByteSize ≤ room
      · rw [if_pos hfits] at hwrite
        cases hwrite
        exact List.suffix_cons text _
      · rw [if_neg hfits] at hwrite
        cases hwrite

/-- Writing a text takes nothing back, be the text accepted or not. -/
theorem emit_writes (text : String) (state : State) :
    state.sink.writes <:+ ((emit text).run state).2.sink.writes := by
  rw [run_emit]
  cases hwrite : state.sink.write text with
  | none => exact List.suffix_rfl
  | some sink => exact Sink.writes_suffix hwrite

/-- That the basic steps of two frames preserve a coupling, where the tree of the second frame has
positions of its own. -/
structure Coupling.Holds (coupling : Coupling) (first second : Frame)
    (place : Position → Position) : Prop where
  functions_eq : second.functions = first.functions
  fail : ∀ {count : Nat} {state other : State} (node : Node) (fault : EvalFault),
    coupling.relates count state other →
      coupling.failed (faultAt first node fault) state
        (some (faultAt second (node.mapPosition place) fault)) other
  field : ∀ (node : Node) (given : Bool) (receiver : Value) (name : String),
    Coupled coupling 0 0 (fieldOf first node given receiver name)
      (fieldOf second (node.mapPosition place) given receiver name)
  read : ∀ {reference : Variable} {name : String}, reference.name? = some name →
    Coupled coupling 0 0 (read first reference) (read second (reference.mapPosition place))
  assign : ∀ {target : Variable} {name : String} (value : Value), target.name? = some name →
    coupling.admits name →
      Coupled coupling 0 0 (assign first target value)
        (assign second (target.mapPosition place) value)
  emit : ∀ text : String, Coupled coupling 0 0 (emit text) (emit text)
  declare : ∀ {count : Nat} {state other : State} (name : String) (value : Value),
    coupling.admits name → coupling.relates count state other →
      coupling.relates (count + 1) { state with scope := (name, value) :: state.scope }
        { other with scope := (name, value) :: other.scope }
  setAt : ∀ {count index : Nat} {state other : State} (value : Value), index < count →
    coupling.relates count state other →
      coupling.relates count { state with scope := state.scope.setAt index value }
        { other with scope := other.scope.setAt index value }
  keep : ∀ {count : Nat} {state other reached otherReached : State},
    coupling.relates count state other →
      (∀ many, coupling.relates many state other → coupling.relates many reached otherReached) →
      coupling.relates count
        { reached with scope := reached.scope.keep state.scope.length }
        { otherReached with scope := otherReached.scope.keep other.scope.length }

section Steps

variable {coupling : Coupling} {first second : Frame} {place : Position → Position}
  {before after : Nat}

/-- A fault is coupled with the same fault. -/
theorem Coupling.Holds.fault (hholds : coupling.Holds first second place) {α : Type} (node : Node)
    (fault : EvalFault) :
    Coupled coupling before after (Exec.fail (α := α) first node fault)
      (Exec.fail second (node.mapPosition place) fault) where
  writes := fun _ ↦ List.suffix_rfl
  agrees := fun hrelates ↦ hholds.fail node fault hrelates

/-- A fault that quotes its node is coupled with the same fault. -/
theorem Coupling.Holds.quote (hholds : coupling.Holds first second place) {α : Type} (node : Node)
    (fault : String → EvalFault) :
    Coupled coupling before after (Exec.fail (α := α) first node (fault node.canonical))
      (Exec.fail second (node.mapPosition place)
        (fault (node.mapPosition place).canonical)) := by
  rw [show (node.mapPosition place).canonical = node.canonical from
    Node.write_mapPosition place false node]
  exact hholds.fault node (fault node.canonical)

/-- That a coupling admits names. -/
def Coupling.AdmitsAll (coupling : Coupling) (names : List String) : Prop :=
  ∀ name ∈ names, coupling.admits name

theorem Coupling.admitsAll_append {names others : List String} :
    coupling.AdmitsAll (names ++ others) ↔
      coupling.AdmitsAll names ∧ coupling.AdmitsAll others :=
  List.forall_mem_append

/-- The names of variables are admitted if that of the first is and those of the rest are. -/
theorem Coupling.admitsAll_names {target : Variable} {rest : List Variable}
    (hadmits : coupling.AdmitsAll ((target :: rest).filterMap Variable.name?)) :
    (∀ name, target.name? = some name → coupling.admits name) ∧
      coupling.AdmitsAll (rest.filterMap Variable.name?) := by
  constructor
  · intro name hname
    exact hadmits name (List.mem_filterMap.mpr ⟨target, List.mem_cons_self, hname⟩)
  · intro name hname
    obtain ⟨other, hother, hnamed⟩ := List.mem_filterMap.mp hname
    exact hadmits name (List.mem_filterMap.mpr ⟨other, List.mem_cons_of_mem target hother, hnamed⟩)

/-- What starts with the name of a variable is coupled if it is once there is a name. -/
theorem Coupling.Holds.named (hholds : coupling.Holds first second place) {α : Type}
    (sought : Variable) {next other : String → Exec α}
    (hnext : ∀ name, sought.name? = some name → Coupled coupling before after
      (nameOf first sought >>= next) (nameOf second (sought.mapPosition place) >>= other)) :
    Coupled coupling before after (nameOf first sought >>= next)
      (nameOf second (sought.mapPosition place) >>= other) := by
  cases hname : sought.name? with
  | some name => exact hnext name hname
  | none =>
    have hmapped : (sought.mapPosition place).name? = none := hname
    rw [nameOf, nameOf, hname, hmapped]
    exact hholds.fault (.var sought) .namelessVariable

/-- Every variable is read alike. -/
theorem Coupling.Holds.reads (hholds : coupling.Holds first second place) (reference : Variable) :
    Coupled coupling 0 0 (Exec.read first reference)
      (Exec.read second (reference.mapPosition place)) :=
  hholds.named reference fun _ hname ↦ hholds.read hname

/-- Every variable is assigned alike, if its name is admitted. -/
theorem Coupling.Holds.assigns (hholds : coupling.Holds first second place) {target : Variable}
    (hadmits : ∀ name, target.name? = some name → coupling.admits name) (value : Value) :
    Coupled coupling 0 0 (Exec.assign first target value)
      (Exec.assign second (target.mapPosition place) value) :=
  hholds.named target fun name hname ↦ hholds.assign value hname (hadmits name hname)

/-- Every variable is declared alike, if its name is admitted. -/
theorem Coupling.Holds.declares (hholds : coupling.Holds first second place) {target : Variable}
    (hadmits : ∀ name, target.name? = some name → coupling.admits name) (value : Value) :
    Coupled coupling before (before + 1) (Exec.declare first target value)
      (Exec.declare second (target.mapPosition place) value) := by
  refine hholds.named target fun name hname ↦ ?_
  have hmapped : (target.mapPosition place).name? = some name := hname
  rw [nameOf_eq hname, nameOf_eq hmapped]
  constructor
  · exact fun _ ↦ List.suffix_rfl
  · intro more state other hrelates
    refine ⟨_, rfl, ?_⟩
    rw [Nat.add_right_comm]
    exact hholds.declare name value (hadmits name hname) hrelates

/-- Steps in a scope of their own share what was shared before them. -/
theorem Coupling.Holds.withScope (hholds : coupling.Holds first second place) {α : Type}
    {step other : Exec α} (hsteps : Coupled coupling before before step other) :
    Coupled coupling before before (Exec.withScope step) (Exec.withScope other) := by
  constructor
  · intro state
    have hwrites := hsteps.writes state
    rw [run_withScope]
    rcases hinner : other.run state with ⟨error | value, reached⟩ <;>
      · rw [hinner] at hwrites
        exact hwrites
  · intro more state otherState hrelates
    have hagrees := hsteps.agrees hrelates
    rw [run_withScope, run_withScope]
    rcases hfirst : step.run state with ⟨error | value, reached⟩
    · rw [hfirst] at hagrees
      dsimp only at hagrees ⊢
      rcases hsecond : other.run otherState with ⟨otherError | value, otherReached⟩
      · rw [hsecond] at hagrees
        exact hagrees
      · rw [hsecond] at hagrees
        exact coupling.failed_later hagrees List.suffix_rfl
    · rw [hfirst] at hagrees
      obtain ⟨otherReached, hsecond, hreached⟩ := hagrees
      rw [hsecond]
      refine ⟨_, rfl, hholds.keep hrelates fun many hmany ↦ ?_⟩
      -- All that was shared is shared: beyond `before` by the steps, and below it with that.
      by_cases hle : before ≤ many
      · obtain ⟨further, rfl⟩ := Nat.exists_eq_add_of_le hle
        have hmore := hsteps.agrees hmany
        rw [hfirst] at hmore
        obtain ⟨reachedToo, hsecondToo, hshared⟩ := hmore
        rw [hsecond] at hsecondToo
        cases hsecondToo
        exact hshared
      · exact coupling.relates_of_le (by omega) hreached

/-! ### Fields, variables and calls -/

/-- The field of a value does not depend on the state. -/
theorem fieldOf_coupled (hmissing : second.missingKey = first.missingKey) {node otherNode : Node}
    (hfail : ∀ fault : EvalFault, Coupled coupling 0 0 (Exec.fail (α := Value) first node fault)
      (Exec.fail second otherNode fault)) (given : Bool) (receiver : Value) (name : String) :
    Coupled coupling 0 0 (fieldOf first node given receiver name)
      (fieldOf second otherNode given receiver name) := by
  unfold fieldOf
  rw [hmissing]
  split
  · refine .ite (hfail _) ?_
    split
    · exact .pure _
    · exact hfail _
    · exact .pure _
  · split
    · exact hfail _
    · exact .pure _
  · exact hfail _

/-- The fields of a path. -/
theorem fieldPath_coupled (hholds : coupling.Holds first second place) (node : Node) (given : Bool)
    (receiver : Value) (path : List String) :
    Coupled coupling 0 0 (fieldPath first node given receiver path)
      (fieldPath second (node.mapPosition place) given receiver path) := by
  induction path generalizing receiver with
  | nil => exact .pure receiver
  | cons name rest ih =>
    simp only [fieldPath]
    exact .bind (hholds.field node _ receiver name) ih

/-- A value that takes no arguments. -/
theorem notFunction_coupled (hholds : coupling.Holds first second place) (node : Node)
    {given other : Bool} (hgiven : other = given) {value otherValue : Exec Value}
    (hvalue : Coupled coupling before after value otherValue) :
    Coupled coupling before after
      (if given then fail first node (.notFunction node.canonical) else value)
      (if other then fail second (node.mapPosition place)
        (.notFunction (node.mapPosition place).canonical) else otherValue) := by
  rw [hgiven]
  exact .ite (hholds.quote node .notFunction) hvalue

theorem evalVariable_coupled (hholds : coupling.Holds first second place) (given : Bool)
    (operand : Node) (reference : Variable) :
    Coupled coupling 0 0 (evalVariable first given operand reference)
      (evalVariable second given (operand.mapPosition place) (reference.mapPosition place)) := by
  unfold evalVariable
  refine .bind (hholds.reads reference) fun value ↦ ?_
  have hpath := fieldPath_coupled hholds (.var reference) given value
  obtain ⟨position, path⟩ := reference
  match path with
  | [_] => exact notFunction_coupled hholds operand rfl (.pure value)
  | [] => exact hpath []
  | _ :: name :: rest => exact hpath (name :: rest)

theorem callFunction_coupled (hholds : coupling.Holds first second place) (node : Node)
    (name : String) (function : Function) (arguments : List Value) :
    Coupled coupling 0 0 (callFunction first node name function arguments)
      (callFunction second (node.mapPosition place) name function arguments) := by
  unfold callFunction
  split
  · exact .pure _
  · exact hholds.fault node _

/-- That operands are as many and are coupled in every way in which a call evaluates them. -/
structure OperandsCoupled (coupling : Coupling) (operands others : Operands) : Prop where
  isEmpty_eq : others.isEmpty = operands.isEmpty
  values : Coupled coupling 0 0 operands.values others.values
  deciding : ∀ stop, Coupled coupling 0 0 (operands.deciding stop) (others.deciding stop)

theorem callNamed_coupled (hholds : coupling.Holds first second place) (position : Position)
    (name : String) (last : Option Value) {operands others : Operands}
    (hoperands : OperandsCoupled coupling operands others) :
    Coupled coupling 0 0 (callNamed first position name last operands)
      (callNamed second (place position) name last others) := by
  have hcall (function : Function) : Coupled coupling 0 0
      (operands.values >>= fun arguments ↦
        callFunction first (.identifier position name) name function (arguments ++ last.toList))
      (others.values >>= fun arguments ↦
        callFunction second (.identifier (place position) name) name function
          (arguments ++ last.toList)) :=
    .bind hoperands.values fun arguments ↦
      callFunction_coupled hholds (.identifier position name) name function _
  unfold callNamed
  rw [hholds.functions_eq, hoperands.isEmpty_eq]
  cases first.functions.resolve? name with
  | none => exact hholds.fault (.identifier position name) _
  | some resolved =>
    cases resolved with
    | provided function => exact hcall function
    | builtin builtin =>
      dsimp only
      cases builtin.stopsAt with
      | none => exact hcall builtin.call
      | some stop =>
        refine .ite (hholds.fault (.identifier position name) _) ?_
        exact .bind (hoperands.deciding stop) fun _ ↦ .pure _

/-- How many variables a pipeline declares. -/
def declaredCount (isAssign : Bool) (targets : List Variable) : Nat :=
  if isAssign then 0 else targets.length

theorem bindVariables_coupled (hholds : coupling.Holds first second place) (isAssign : Bool)
    (value : Value) {targets : List Variable}
    (hadmits : coupling.AdmitsAll (targets.filterMap Variable.name?)) (count : Nat) :
    Coupled coupling count (count + declaredCount isAssign targets)
      (bindVariables first isAssign value targets)
      (bindVariables second isAssign value (targets.map (Variable.mapPosition place))) := by
  induction targets generalizing count with
  | nil =>
    have hnone : declaredCount isAssign [] = 0 := by cases isAssign <;> rfl
    rw [hnone]
    exact .pure ()
  | cons target rest ih =>
    obtain ⟨htarget, hrest⟩ := coupling.admitsAll_names hadmits
    cases isAssign with
    | true =>
      exact .bind ((hholds.assigns htarget value).neutral count) fun _ ↦ ih hrest count
    | false =>
      refine .bind (hholds.declares htarget value) fun _ ↦ ?_
      have hcount : count + declaredCount false (target :: rest) =
          count + 1 + declaredCount false rest := by
        simp only [declaredCount, Bool.false_eq_true, if_false, List.length_cons]
        omega
      rw [hcount]
      exact ih hrest (count + 1)

theorem isEmpty_mapPositions (nodes : List Node) :
    (Node.mapPositions place nodes).isEmpty = nodes.isEmpty := by
  cases nodes <;> rfl

/-- Whether a command has arguments does not depend on positions. -/
theorem given_mapPositions (last : Option Value) (nodes : List Node) :
    (!(Node.mapPositions place nodes).isEmpty || last.isSome) =
      (!nodes.isEmpty || last.isSome) := by
  rw [isEmpty_mapPositions]

/-- A node is nil at another position exactly if it is nil. -/
theorem mapPosition_ne_nil {node : Node} (hnode : ∀ position, node ≠ .nil position)
    (position : Position) : node.mapPosition place ≠ .nil position := by
  intro hplaced
  cases node with
  | nil start => exact absurd rfl (hnode start)
  | branch _ _ _ _ otherwise => cases otherwise <;> cases hplaced
  | template _ _ argument => cases argument <;> cases hplaced
  | _ => cases hplaced

end Steps

/-! ### Pipelines -/

mutual

/-- A pipeline is coupled with itself at other positions, and its variables are shared. -/
theorem evalPipeline_coupled {coupling : Coupling} {first second : Frame}
    {place : Position → Position} (hholds : coupling.Holds first second place) (dot : Value) :
    (pipeline : Pipeline) → coupling.AdmitsAll pipeline.targetNames →
      Coupled coupling 0 (declaredCount pipeline.isAssign pipeline.targets)
        (evalPipeline first dot pipeline) (evalPipeline second dot (pipeline.mapPosition place))
  | ⟨_, isAssign, targets, commands⟩, hadmits => by
    obtain ⟨htargets, hinner⟩ := coupling.admitsAll_append.mp hadmits
    have hcommands := evalCommands_coupled hholds dot none commands hinner
    have hbind (value : Value) := bindVariables_coupled hholds isAssign value htargets 0
    rw [Nat.zero_add] at hbind
    rw [Pipeline.mapPosition, evalPipeline, evalPipeline]
    exact .bind hcommands fun value ↦ .bind (hbind (value.getD .null)) fun _ ↦ .pure _

/-- Commands are coupled with themselves at other positions. -/
theorem evalCommands_coupled {coupling : Coupling} {first second : Frame}
    {place : Position → Position} (hholds : coupling.Holds first second place) (dot : Value)
    (last : Option Value) : (commands : List Command) →
      coupling.AdmitsAll (Command.allTargetNames commands) →
      Coupled coupling 0 0 (evalCommands first dot last commands)
        (evalCommands second dot last (Command.mapPositions place commands))
  | [], _ => .pure last
  | command :: rest, hadmits => by
    obtain ⟨hcommand, hrest⟩ := coupling.admitsAll_append.mp hadmits
    rw [Command.mapPositions, evalCommands, evalCommands]
    exact .bind (evalCommand_coupled hholds dot last command hcommand) fun value ↦
      evalCommands_coupled hholds dot (some value) rest hrest

/-- A command is coupled with itself at another position. -/
theorem evalCommand_coupled {coupling : Coupling} {first second : Frame}
    {place : Position → Position} (hholds : coupling.Holds first second place) (dot : Value)
    (last : Option Value) : (command : Command) → coupling.AdmitsAll command.targetNames →
      Coupled coupling 0 0 (evalCommand first dot last command)
        (evalCommand second dot last (command.mapPosition place))
  | ⟨position, []⟩, _ => hholds.fault (.command ⟨position, []⟩) .emptyCommand
  | ⟨_, .identifier position name :: rest⟩, hadmits => by
    simp only [Command.mapPosition, Node.mapPositions, Node.mapPosition, evalCommand]
    exact callNamed_coupled hholds position name last
      ⟨isEmpty_mapPositions rest, evalOperands_coupled hholds dot rest hadmits,
        fun stop ↦ evalDeciding_coupled hholds dot stop .null rest hadmits⟩
  | ⟨_, .field position path :: rest⟩, _ => by
    simp only [Command.mapPosition, Node.mapPositions, Node.mapPosition, evalCommand,
      isEmpty_mapPositions]
    exact fieldPath_coupled hholds (.field position path) _ dot path
  | ⟨_, .chain position base [] :: _⟩, _ => hholds.fault (.chain position base []) .emptyChain
  | ⟨start, .chain position base (name :: path) :: rest⟩, hadmits => by
    by_cases hbase : ∃ position, base = .nil position
    · obtain ⟨spot, rfl⟩ := hbase
      exact hholds.quote (.chain position (.nil spot) (name :: path)) .nilChain
    · rw [not_exists] at hbase
      simp only [Command.mapPosition, Node.mapPositions, Node.mapPosition]
      rw [evalCommand_chain first dot last start position rest (by simp) hbase,
        evalCommand_chain second dot last _ (place position) _ (by simp)
          (mapPosition_ne_nil hbase), isEmpty_mapPositions]
      have hoperand := (coupling.admitsAll_append.mp hadmits).1
      exact .bind (evalOperand_coupled hholds dot base hoperand) fun receiver ↦
        fieldPath_coupled hholds (.chain position base (name :: path)) _ receiver (name :: path)
  | ⟨_, .var reference :: rest⟩, _ => by
    simp only [Command.mapPosition, Node.mapPositions, Node.mapPosition, evalCommand,
      isEmpty_mapPositions]
    exact evalVariable_coupled hholds _ (.var reference) reference
  | ⟨_, .pipeline inner :: rest⟩, hadmits =>
    notFunction_coupled hholds (.pipeline inner) (given_mapPositions last rest)
      ((evalPipeline_coupled hholds dot inner (coupling.admitsAll_append.mp hadmits).1).forget
        (Nat.zero_le _))
  | ⟨_, .bool position value :: rest⟩, _ =>
    notFunction_coupled hholds (.bool position value) (given_mapPositions last rest) (.pure _)
  | ⟨_, .dot position :: rest⟩, _ =>
    notFunction_coupled hholds (.dot position) (given_mapPositions last rest) (.pure _)
  | ⟨_, .nil position :: rest⟩, _ =>
    notFunction_coupled hholds (.nil position) (given_mapPositions last rest)
      (hholds.fault (.nil position) .nilCommand)
  | ⟨_, .number literal :: rest⟩, _ =>
    notFunction_coupled hholds (.number literal) (given_mapPositions last rest)
      (.pure (numberValue literal))
  | ⟨_, .string position quoted text :: rest⟩, _ =>
    notFunction_coupled hholds (.string position quoted text) (given_mapPositions last rest)
      (.pure _)
  | ⟨_, .text position text :: rest⟩, _ =>
    notFunction_coupled hholds (.text position text) (given_mapPositions last rest)
      (hholds.quote (.text position text) .unknownCommand)
  | ⟨_, .comment position text :: rest⟩, _ =>
    notFunction_coupled hholds (.comment position text) (given_mapPositions last rest)
      (hholds.quote (.comment position text) .unknownCommand)
  | ⟨_, .action position inner :: rest⟩, _ =>
    notFunction_coupled hholds (.action position inner) (given_mapPositions last rest)
      (hholds.quote (.action position inner) .unknownCommand)
  | ⟨_, .command inner :: rest⟩, _ =>
    notFunction_coupled hholds (.command inner) (given_mapPositions last rest)
      (hholds.quote (.command inner) .unknownCommand)
  | ⟨_, .branch kind position head body otherwise :: rest⟩, _ =>
    notFunction_coupled hholds (.branch kind position head body otherwise)
      (given_mapPositions last rest)
      (hholds.quote (.branch kind position head body otherwise) .unknownCommand)
  | ⟨_, .template position name argument :: rest⟩, _ =>
    notFunction_coupled hholds (.template position name argument) (given_mapPositions last rest)
      (hholds.quote (.template position name argument) .unknownCommand)
  | ⟨_, .breakLoop position :: rest⟩, _ =>
    notFunction_coupled hholds (.breakLoop position) (given_mapPositions last rest)
      (hholds.quote (.breakLoop position) .unknownCommand)
  | ⟨_, .continueLoop position :: rest⟩, _ =>
    notFunction_coupled hholds (.continueLoop position) (given_mapPositions last rest)
      (hholds.quote (.continueLoop position) .unknownCommand)

/-- Operands are coupled with themselves at other positions. -/
theorem evalOperands_coupled {coupling : Coupling} {first second : Frame}
    {place : Position → Position} (hholds : coupling.Holds first second place) (dot : Value) :
    (operands : List Node) → coupling.AdmitsAll (Node.allTargetNames operands) →
      Coupled coupling 0 0 (evalOperands first dot operands)
        (evalOperands second dot (Node.mapPositions place operands))
  | [], _ => .pure []
  | operand :: rest, hadmits => by
    obtain ⟨hoperand, hrest⟩ := coupling.admitsAll_append.mp hadmits
    rw [Node.mapPositions, evalOperands, evalOperands]
    exact .bind (evalOperand_coupled hholds dot operand hoperand) fun _ ↦
      .bind (evalOperands_coupled hholds dot rest hrest) fun _ ↦ .pure _

/-- Operands up to the one that decides are coupled with themselves at other positions. -/
theorem evalDeciding_coupled {coupling : Coupling} {first second : Frame}
    {place : Position → Position} (hholds : coupling.Holds first second place) (dot : Value)
    (stop : Bool) (value : Value) : (operands : List Node) →
      coupling.AdmitsAll (Node.allTargetNames operands) →
      Coupled coupling 0 0 (evalDeciding first dot stop value operands)
        (evalDeciding second dot stop value (Node.mapPositions place operands))
  | [], _ => .pure (false, value)
  | operand :: rest, hadmits => by
    obtain ⟨hoperand, hrest⟩ := coupling.admitsAll_append.mp hadmits
    rw [Node.mapPositions, evalDeciding, evalDeciding]
    exact .bind (evalOperand_coupled hholds dot operand hoperand) fun next ↦
      .ite (.pure _) (evalDeciding_coupled hholds dot stop next rest hrest)

/-- An operand is coupled with itself at another position. -/
theorem evalOperand_coupled {coupling : Coupling} {first second : Frame}
    {place : Position → Position} (hholds : coupling.Holds first second place) (dot : Value) :
    (operand : Node) → coupling.AdmitsAll operand.targetNames →
      Coupled coupling 0 0 (evalOperand first dot operand)
        (evalOperand second dot (operand.mapPosition place))
  | .dot _, _ => .pure dot
  | .nil _, _ => .pure Value.null
  | .bool _ value, _ => .pure (Value.bool value)
  | .number literal, _ => .pure (numberValue literal)
  | .string _ _ text, _ => .pure (Value.string text)
  | .field position path, _ => fieldPath_coupled hholds (.field position path) false dot path
  | .var reference, _ => evalVariable_coupled hholds false (.var reference) reference
  | .pipeline inner, hadmits =>
    (evalPipeline_coupled hholds dot inner hadmits).forget (Nat.zero_le _)
  | .identifier position name, _ =>
    callNamed_coupled hholds position name none ⟨rfl, .pure [], fun _ ↦ .pure (false, Value.null)⟩
  | .chain position base [], _ => hholds.fault (.chain position base []) .emptyChain
  | .chain position base (name :: path), hadmits => by
    by_cases hbase : ∃ position, base = .nil position
    · obtain ⟨spot, rfl⟩ := hbase
      exact hholds.quote (.chain position (.nil spot) (name :: path)) .nilChain
    · rw [not_exists] at hbase
      rw [Node.mapPosition, evalOperand_chain first dot position (by simp) hbase,
        evalOperand_chain second dot (place position) (by simp) (mapPosition_ne_nil hbase)]
      exact .bind (evalOperand_coupled hholds dot base hadmits) fun receiver ↦
        fieldPath_coupled hholds (.chain position base (name :: path)) false receiver
          (name :: path)
  | .text position text, _ => hholds.quote (.text position text) .unknownArgument
  | .comment position text, _ => hholds.quote (.comment position text) .unknownArgument
  | .action position inner, _ => hholds.quote (.action position inner) .unknownArgument
  | .command inner, _ => hholds.quote (.command inner) .unknownArgument
  | .branch kind position head body otherwise, _ =>
    hholds.quote (.branch kind position head body otherwise) .unknownArgument
  | .template position name argument, _ =>
    hholds.quote (.template position name argument) .unknownArgument
  | .breakLoop position, _ => hholds.quote (.breakLoop position) .unknownArgument
  | .continueLoop position, _ => hholds.quote (.continueLoop position) .unknownArgument

end

/-! ### Loops -/

section Loops

variable {coupling : Coupling} {first second : Frame} {place : Position → Position}

/-- Rounds are collected alike. -/
theorem collect_coupled (hholds : coupling.Holds first second place) (node : Node) (count : Nat)
    (rounds : Unit → List (Value × Value)) :
    Coupled coupling 0 0 (collect first node count rounds)
      (collect second (node.mapPosition place) count rounds) :=
  .ite (hholds.fault node _) (.pure _)

theorem loopItems_coupled (hholds : coupling.Holds first second place) (node : Node) (targets : Nat)
    (value : Value) :
    Coupled coupling 0 0 (loopItems first node targets value)
      (loopItems second (node.mapPosition place) targets value) := by
  unfold loopItems
  split
  · exact collect_coupled hholds node _ _
  · exact collect_coupled hholds node _ _
  · exact .pure _
  · split
    · exact .ite (hholds.fault node _) (collect_coupled hholds node _ _)
    · exact hholds.fault node _

/-- The variables of a loop are shared when they get their values for a round. -/
theorem bindRound_coupled (hholds : coupling.Holds first second place) {head : Pipeline}
    (hadmits : coupling.AdmitsAll head.targetNames) (index item : Value) :
    Coupled coupling (declaredCount head.isAssign head.targets)
      (declaredCount head.isAssign head.targets) (bindRound first head index item)
      (bindRound second (head.mapPosition place) index item) := by
  obtain ⟨_, isAssign, targets, _⟩ := head
  have htargets := (coupling.admitsAll_append.mp hadmits).1
  have hshared {index more : Nat} {targets : List Variable} (hlt : index < targets.length) :
      index < declaredCount false targets + more :=
    Nat.lt_add_right more hlt
  match targets, isAssign with
  | [], _ => exact .pure ()
  | [_], true => exact hholds.assigns (coupling.admitsAll_names htargets).1 item
  | _ :: _ :: _, true =>
    obtain ⟨hone, hmore⟩ := coupling.admitsAll_names htargets
    exact .bind (hholds.assigns hone index) fun _ ↦
      hholds.assigns (coupling.admitsAll_names hmore).1 item
  | [_], false =>
    constructor
    · exact fun _ ↦ List.suffix_rfl
    · intro more state other hrelates
      exact ⟨_, rfl, hholds.setAt item (hshared Nat.one_pos) hrelates⟩
  | _ :: _ :: rest, false =>
    constructor
    · exact fun _ ↦ List.suffix_rfl
    · intro more state other hrelates
      have hitem := hholds.setAt item (hshared (Nat.succ_pos _)) hrelates
      exact ⟨_, rfl, hholds.setAt index (hshared (Nat.succ_lt_succ (Nat.succ_pos _))) hitem⟩

/-- Rounds that are coupled one by one are coupled in a row. -/
theorem runRounds_coupled {count : Nat} {round other : Value × Value → Exec Flow}
    (hround : ∀ pair, Coupled coupling count count (round pair) (other pair))
    (pairs : List (Value × Value)) :
    Coupled coupling count count (runRounds round pairs) (runRounds other pairs) := by
  induction pairs with
  | nil => exact .pure ()
  | cons pair rest ih =>
    rw [runRounds, runRounds]
    refine .bind (hround pair) fun flow ↦ ?_
    cases flow with
    | breaking => exact .pure ()
    | normal | continuing => exact ih

end Loops

/-! ### Statements -/

/-- That a template which is invoked cannot be run, for the same reason, or is run by coupled steps.
-/
inductive SameRuns (coupling : Coupling) :
    Except EvalFault (Value → Exec Unit) → Except EvalFault (Value → Exec Unit) → Prop
  | refused (fault : EvalFault) : SameRuns coupling (.error fault) (.error fault)
  | runs {run other : Value → Exec Unit}
    (hruns : ∀ data, Coupled coupling 0 0 (run data) (other data)) :
    SameRuns coupling (.ok run) (.ok other)

/-- That two invokers run the templates of the given names alike. -/
def SameInvocations (coupling : Coupling) (invoke other : Invoker) (names : List String) : Prop :=
  ∀ name ∈ names, SameRuns coupling (invoke name) (other name)

/-- A control structure is coupled if its parts are. -/
theorem branch_coupled {coupling : Coupling} {first second : Frame} {place : Position → Position}
    (hholds : coupling.Holds first second place) {invoke other : Invoker} (dot : Value)
    (kind : BranchKind) (position : Position) {head : Pipeline} {body : Body}
    {otherwise : Option Body} (hadmits : coupling.AdmitsAll head.targetNames)
    (hbody : ∀ dot, Coupled coupling 0 0 (runBody first invoke dot body)
      (runBody second other dot (body.mapPosition place)))
    (hother : Coupled coupling 0 0 (runOtherwise first invoke dot otherwise)
      (runOtherwise second other dot (otherwise.map (Body.mapPosition place)))) :
    Coupled coupling 0 0 (runNode first invoke dot (.branch kind position head body otherwise))
      (runNode second other dot
        ((Node.branch kind position head body otherwise).mapPosition place)) := by
  have hnode : (Node.branch kind position head body otherwise).mapPosition place =
      .branch kind (place position) (head.mapPosition place) (body.mapPosition place)
        (otherwise.map (Body.mapPosition place)) := by
    cases otherwise <;> rfl
  have hlength : (head.mapPosition place).targets.length = head.targets.length := by
    obtain ⟨_, _, targets, _⟩ := head
    exact List.length_map _
  have hhead := evalPipeline_coupled hholds dot head hadmits
  have hitems := loopItems_coupled hholds (.branch kind position head body otherwise)
    head.targets.length
  rw [hnode] at hitems ⊢
  rw [runNode_branch, runNode_branch]
  refine hholds.withScope ?_
  cases kind with
  | conditional =>
    refine .bind (hhead.forget (Nat.zero_le _)) fun value ↦ ?_
    exact .ite (hbody dot) hother
  | context =>
    refine .bind (hhead.forget (Nat.zero_le _)) fun value ↦ ?_
    exact .ite (hbody value) hother
  | loop =>
    rw [hlength]
    -- The rounds need the variables of the head, which its pipeline declares.
    have hforget {step other : Exec Flow}
        (hsteps : Coupled coupling 0 (declaredCount head.isAssign head.targets) step other) :
        Coupled coupling 0 0 step other :=
      hsteps.forget (Nat.zero_le _)
    refine hforget (.bind hhead fun value ↦ ?_)
    refine .bind ((hitems value).neutral _) fun rounds ↦ .ite (hother.neutral _) ?_
    refine .bind (runRounds_coupled (fun pair ↦ ?_) rounds) fun _ ↦ .pure _
    refine hholds.withScope (.bind (bindRound_coupled hholds hadmits pair.1 pair.2) fun _ ↦ ?_)
    exact (hbody pair.2).neutral _

mutual

/-- A statement is coupled with itself at another position. -/
theorem runNode_coupled {coupling : Coupling} {first second : Frame} {place : Position → Position}
    (hholds : coupling.Holds first second place) {invoke other : Invoker} (dot : Value) :
    (node : Node) → coupling.AdmitsAll node.targetNames →
      SameInvocations coupling invoke other node.invocations →
      Coupled coupling 0 0 (runNode first invoke dot node)
        (runNode second other dot (node.mapPosition place))
  | .text _ text, _, _ => .bind (hholds.emit text) fun _ ↦ .pure _
  | .comment .., _, _ | .breakLoop _, _, _ | .continueLoop _, _, _ => .pure _
  | .action _ inner, hadmits, _ => by
    have htargets : (inner.mapPosition place).targets.isEmpty = inner.targets.isEmpty := by
      obtain ⟨_, _, targets, _⟩ := inner
      cases targets <;> rfl
    have hinner := evalPipeline_coupled hholds dot inner hadmits
    rw [Node.mapPosition, runNode, runNode, htargets]
    refine .bind (hinner.forget (Nat.zero_le _)) fun value ↦ ?_
    split
    · exact .bind (hholds.emit value.output) fun _ ↦ .pure _
    · exact .pure _
  | .branch kind position head body none, hadmits, hinvoke => by
    obtain ⟨hhead, hadmits⟩ := coupling.admitsAll_append.mp hadmits
    have hbody := (coupling.admitsAll_append.mp hadmits).1
    exact branch_coupled hholds dot kind position hhead
      (fun dot ↦ runBody_coupled hholds dot body hbody fun name hname ↦
        hinvoke name (List.mem_append_left _ hname))
      (.pure Flow.normal)
  | .branch kind position head body (some otherwise), hadmits, hinvoke => by
    obtain ⟨hhead, hadmits⟩ := coupling.admitsAll_append.mp hadmits
    obtain ⟨hbody, hotherwise⟩ := coupling.admitsAll_append.mp hadmits
    exact branch_coupled hholds dot kind position hhead
      (fun dot ↦ runBody_coupled hholds dot body hbody fun name hname ↦
        hinvoke name (List.mem_append_left _ hname))
      (runBody_coupled hholds dot otherwise hotherwise fun name hname ↦
        hinvoke name (List.mem_append_right _ hname))
  | .template position name none, _, hinvoke => by
    have hname := hinvoke name (List.mem_singleton_self name)
    rw [Node.mapPosition, runNode, runNode]
    generalize invoke name = run, other name = otherRun at hname
    cases hname with
    | refused fault => exact hholds.fault (.template position name none) fault
    | runs hruns => exact .bind (.pure Value.null) fun data ↦ .bind (hruns data) fun _ ↦ .pure _
  | .template position name (some inner), hadmits, hinvoke => by
    have hname := hinvoke name (List.mem_singleton_self name)
    have hinner := (evalPipeline_coupled hholds dot inner hadmits).forget (Nat.zero_le _)
    rw [Node.mapPosition, runNode, runNode]
    generalize invoke name = run, other name = otherRun at hname
    cases hname with
    | refused fault => exact hholds.fault (.template position name (some inner)) fault
    | runs hruns => exact .bind hinner fun data ↦ .bind (hruns data) fun _ ↦ .pure _
  | .pipeline inner, _, _ => hholds.quote (.pipeline inner) .unknownStatement
  | .command inner, _, _ => hholds.quote (.command inner) .unknownStatement
  | .identifier position name, _, _ => hholds.quote (.identifier position name) .unknownStatement
  | .var reference, _, _ => hholds.quote (.var reference) .unknownStatement
  | .dot position, _, _ => hholds.quote (.dot position) .unknownStatement
  | .nil position, _, _ => hholds.quote (.nil position) .unknownStatement
  | .field position path, _, _ => hholds.quote (.field position path) .unknownStatement
  | .chain position base path, _, _ => hholds.quote (.chain position base path) .unknownStatement
  | .bool position value, _, _ => hholds.quote (.bool position value) .unknownStatement
  | .number literal, _, _ => hholds.quote (.number literal) .unknownStatement
  | .string position quoted text, _, _ =>
    hholds.quote (.string position quoted text) .unknownStatement

/-- Statements in a row are coupled with themselves at other positions. -/
theorem runNodes_coupled {coupling : Coupling} {first second : Frame} {place : Position → Position}
    (hholds : coupling.Holds first second place) {invoke other : Invoker} (dot : Value) :
    (nodes : List Node) → coupling.AdmitsAll (Node.allTargetNames nodes) →
      SameInvocations coupling invoke other (Node.allInvocations nodes) →
      Coupled coupling 0 0 (runNodes first invoke dot nodes)
        (runNodes second other dot (Node.mapPositions place nodes))
  | [], _, _ => .pure Flow.normal
  | node :: rest, hadmits, hinvoke => by
    obtain ⟨hadmits, hadmitsRest⟩ := coupling.admitsAll_append.mp hadmits
    have hnode := runNode_coupled hholds dot node hadmits fun name hname ↦
      hinvoke name (List.mem_append_left _ hname)
    have hrest := runNodes_coupled hholds dot rest hadmitsRest fun name hname ↦
      hinvoke name (List.mem_append_right _ hname)
    rw [Node.mapPositions, runNodes, runNodes]
    refine .bind hnode fun flow ↦ ?_
    cases flow with
    | normal => exact hrest
    | breaking | continuing => exact .pure _

/-- A body is coupled with itself at another position. -/
theorem runBody_coupled {coupling : Coupling} {first second : Frame} {place : Position → Position}
    (hholds : coupling.Holds first second place) {invoke other : Invoker} (dot : Value) :
    (body : Body) → coupling.AdmitsAll body.targetNames →
      SameInvocations coupling invoke other body.invocations →
      Coupled coupling 0 0 (runBody first invoke dot body)
        (runBody second other dot (body.mapPosition place))
  | ⟨_, nodes⟩, hadmits, hinvoke => runNodes_coupled hholds dot nodes hadmits hinvoke

end

/-! ### States with the same variables -/

/-- That related states have the same variables, whatever these are and whatever they are called.
-/
structure Coupling.SharesScope (coupling : Coupling) : Prop where
  admits : ∀ name : String, coupling.admits name
  scope_eq : ∀ {count : Nat} {state other : State}, coupling.relates count state other →
    other.scope = state.scope
  setScope : ∀ {count : Nat} {state other : State} (many : Nat) (scope : Scope),
    coupling.relates count state other →
      coupling.relates many { state with scope := scope } { other with scope := scope }

section SharesScope

variable {coupling : Coupling} {first second : Frame}

/-- The variables are read alike. -/
theorem Coupling.SharesScope.scope (hshares : coupling.SharesScope) {α : Type} {before after : Nat}
    {next otherNext : Scope → Exec α}
    (hnext : ∀ scope, Coupled coupling before after (next scope) (otherNext scope)) :
    Coupled coupling before after (Exec.scope >>= next) (Exec.scope >>= otherNext) where
  writes := fun state ↦ (hnext state.scope).writes state
  agrees := by
    intro more state other hrelates
    have hrun (step : Scope → Exec α) (state : State) :
        (Exec.scope >>= step).run state = (step state.scope).run state := by
      rw [run_bind]
      rfl
    rw [hrun, hrun, hshares.scope_eq hrelates]
    exact (hnext state.scope).agrees hrelates

/-- The variables are replaced alike. -/
theorem Coupling.SharesScope.replace (hshares : coupling.SharesScope) {before after : Nat}
    (scope : Scope) :
    Coupled coupling before after (Exec.setScope scope) (Exec.setScope scope) where
  writes := fun _ ↦ List.suffix_rfl
  agrees := fun hrelates ↦ ⟨_, rfl, hshares.setScope _ scope hrelates⟩

/-- A fault is told alike at two nodes. -/
theorem Coupling.SharesScope.fault {α : Type} {before after : Nat} {node otherNode : Node}
    {fault : EvalFault}
    (hfail : ∀ {count : Nat} {state other : State}, coupling.relates count state other →
      coupling.failed (faultAt first node fault) state (some (faultAt second otherNode fault))
        other) :
    Coupled coupling before after (Exec.fail (α := α) first node fault)
      (Exec.fail second otherNode fault) where
  writes := fun _ ↦ List.suffix_rfl
  agrees := fun hrelates ↦ hfail hrelates

/-- Where the variables are the same, only faults, fields and writing remain to be coupled. -/
theorem Coupling.SharesScope.holds (hshares : coupling.SharesScope)
    {place : Position → Position} (hfunctions : second.functions = first.functions)
    (hfail : ∀ {count : Nat} {state other : State} (node : Node) (fault : EvalFault),
      coupling.relates count state other →
        coupling.failed (faultAt first node fault) state
          (some (faultAt second (node.mapPosition place) fault)) other)
    (hfield : ∀ (node : Node) (given : Bool) (receiver : Value) (name : String),
      Coupled coupling 0 0 (fieldOf first node given receiver name)
        (fieldOf second (node.mapPosition place) given receiver name))
    (hemit : ∀ text : String, Coupled coupling 0 0 (emit text) (emit text)) :
    coupling.Holds first second place where
  functions_eq := hfunctions
  fail := hfail
  field := hfield
  read := by
    intro reference name hname
    have hmapped : (reference.mapPosition place).name? = some name := hname
    rw [read, read, nameOf_eq hname, nameOf_eq hmapped, pure_bind, pure_bind]
    refine hshares.scope fun scope ↦ ?_
    cases scope.find? name with
    | some value => exact .pure value
    | none => exact Coupling.SharesScope.fault (hfail (.var reference) _)
  assign := by
    intro target name value hname _
    have hmapped : (target.mapPosition place).name? = some name := hname
    rw [assign, assign, nameOf_eq hname, nameOf_eq hmapped, pure_bind, pure_bind]
    refine hshares.scope fun scope ↦ ?_
    cases scope.assign name value with
    | some changed => exact hshares.replace changed
    | none => exact Coupling.SharesScope.fault (hfail (.var target) _)
  emit := hemit
  declare := by
    intro count state other name value _ hrelates
    rw [hshares.scope_eq hrelates]
    exact hshares.setScope _ _ hrelates
  setAt := by
    intro count index state other value _ hrelates
    rw [hshares.scope_eq hrelates]
    exact hshares.setScope _ _ hrelates
  keep := by
    intro count state other reached otherReached hrelates hreached
    have hshared := hreached count hrelates
    rw [hshares.scope_eq hrelates, hshares.scope_eq hshared]
    exact hshares.setScope _ _ hshared

/-- A tree is run by coupled steps if its body is. -/
theorem runTree_coupled (hshares : coupling.SharesScope) {program other : Program}
    {invoke otherInvoke : Invoker} {place : Position → Position} {tree : Tree}
    (hholds : coupling.Holds (program.frame tree) (other.frame (tree.mapPosition place)) place)
    (hinvoke : ∀ name, SameRuns coupling (invoke name) (otherInvoke name)) (data : Value) :
    Coupled coupling 0 0 (runTree program invoke tree data)
      (runTree other otherInvoke (tree.mapPosition place) data) := by
  have hbody := runBody_coupled hholds data tree.root (fun name _ ↦ hshares.admits name)
    fun name _ ↦ hinvoke name
  unfold runTree
  refine hshares.scope fun saved ↦ ?_
  exact .bind (hshares.replace (Scope.initial data)) fun _ ↦
    .bind hbody fun _ ↦ hshares.replace saved

/-- The templates of one set are run by coupled steps, whatever number of them is nested. -/
theorem invoker_coupled (hshares : coupling.SharesScope) {program other : Program}
    {place : Position → Position} (htrees : other.trees = program.trees.mapPosition place)
    (hholds : ∀ tree, coupling.Holds (program.frame tree)
      (other.frame (tree.mapPosition place)) place) (more : Nat) (name : String) :
    SameRuns coupling (invoker program more name) (invoker other more name) := by
  induction more generalizing name with
  | zero =>
    rw [invoker, invoker, htrees, TreeSet.find?_mapPosition]
    cases program.trees.find? name with
    | none => exact .refused _
    | some tree => exact .refused _
  | succ more ih =>
    rw [invoker, invoker, htrees, TreeSet.find?_mapPosition]
    cases program.trees.find? name with
    | none => exact .refused _
    | some tree => exact .runs fun data ↦ runTree_coupled hshares (hholds tree) ih data

end SharesScope

/-! ### States that are the same -/

/-- Two executions that are in the same state, until both fail with errors of which the second is
one that may be `told` for the first. -/
def Coupling.sameState (told : ExecError → ExecError → Prop) : Coupling where
  relates := fun _ state other ↦ state = other
  failed := fun error state result other ↦ state = other ∧
    ∃ otherError, result = some otherError ∧ told error otherError
  relates_of_succ := id
  failed_later := by
    intro error first second after result hfailed
    obtain ⟨-, otherError, hnone, -⟩ := hfailed
    cases hnone

section SameState

variable {told : ExecError → ExecError → Prop}

theorem Coupling.sameState_sharesScope : (Coupling.sameState told).SharesScope where
  admits := fun _ ↦ trivial
  scope_eq := by
    intro count state other hsame
    exact (congrArg State.scope hsame).symm
  setScope := by
    intro count state other many scope hsame
    exact congrArg (fun state : State ↦ { state with scope := scope }) hsame

/-- A write is coupled with itself where a full sink is told as such. -/
theorem Coupling.sameState_emit (hfull : told .sinkFull .sinkFull) (text : String) :
    Coupled (.sameState told) 0 0 (emit text) (emit text) where
  writes := emit_writes text
  agrees := by
    intro more state other hsame
    obtain rfl : state = other := hsame
    rw [run_emit]
    cases state.sink.write text with
    | some sink => exact ⟨_, rfl, rfl⟩
    | none => exact ⟨rfl, _, rfl, hfull⟩

/-- Where the functions and the mode are the same, only the faults remain to be told. -/
theorem Coupling.sameState_holds {first second : Frame} {place : Position → Position}
    (hfunctions : second.functions = first.functions)
    (hmode : second.missingKey = first.missingKey) (hfull : told .sinkFull .sinkFull)
    (htold : ∀ (node : Node) (fault : EvalFault),
      told (faultAt first node fault) (faultAt second (node.mapPosition place) fault)) :
    (Coupling.sameState told).Holds first second place := by
  have hfail {count : Nat} {state other : State} (node : Node) (fault : EvalFault)
      (hsame : (Coupling.sameState told).relates count state other) :
      (Coupling.sameState told).failed (faultAt first node fault) state
        (some (faultAt second (node.mapPosition place) fault)) other :=
    ⟨hsame, _, rfl, htold node fault⟩
  refine sameState_sharesScope.holds hfunctions hfail ?_ (sameState_emit hfull)
  exact fun node given receiver name ↦ fieldOf_coupled hmode
    (fun fault ↦ Coupling.SharesScope.fault (hfail node fault)) given receiver name

/-- Steps coupled so end alike in every state: in the same state, and in the same value or in errors
of which the second is told for the first. -/
theorem Coupled.run_sameState {α : Type} {first second : Exec α} {before after : Nat}
    (hcoupled : Coupled (.sameState told) before after first second) (state : State) :
    (∃ value reached, first.run state = (.ok value, reached) ∧
      second.run state = (.ok value, reached)) ∨
    ∃ error otherError reached, first.run state = (.error error, reached) ∧
      second.run state = (.error otherError, reached) ∧ told error otherError := by
  have hagrees := @Coupled.agrees _ _ _ _ _ _ hcoupled 0 state state rfl
  rcases hfirst : first.run state with ⟨error | value, reached⟩
  · rw [hfirst] at hagrees
    obtain ⟨hreached, otherError, herror, htold⟩ := hagrees
    rcases hsecond : second.run state with ⟨other | value, otherReached⟩
    · rw [hsecond] at hreached herror
      obtain rfl : reached = otherReached := hreached
      cases herror
      exact .inr ⟨error, otherError, reached, rfl, rfl, htold⟩
    · rw [hsecond] at herror
      cases herror
  · rw [hfirst] at hagrees
    obtain ⟨otherReached, hsecond, hreached⟩ := hagrees
    obtain rfl : reached = otherReached := hreached
    exact .inl ⟨value, reached, rfl, hsecond⟩

end SameState

end Exec

end Stencil
