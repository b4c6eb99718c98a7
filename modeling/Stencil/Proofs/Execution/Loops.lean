import Mathlib
import Stencil.Proofs.Execution.Ends
import Stencil.Proofs.Grammar.Formed

/-!
# Loop control

A break and a continue leave the statements around them, and the first loop that is left takes
notice. Nothing in an execution says which loop is meant: a statement only tells how it is left
(`Flow`), and conditions, contexts, else parts and scopes pass that on.

Here the loop is named. The loops in whose bodies a statement stands are numbered from the outermost
one, which has the number one, to the innermost one. `runBodyIn` runs a body like `runBody`, but a
break and a continue give the number of the innermost of their loops, and a loop heeds its own
number alone: any other one goes through it. The two runs are the same (`runBodyIn_eq`), so a break
ends the loop that it names and nothing else, and a continue ends a round of the loop that it names.

In a parsed tree a break or a continue stands in the body of a loop of that tree, and a statement
outside of such bodies is left normally. With what a template does to the flow of its invocation,
which is nothing, loop control is confined to the loops (`confinesLoops_of_parse`).
-/

set_option autoImplicit false
set_option relaxedAutoImplicit false

namespace Stencil.Syntax

/-! ### Places -/

/-- A node of a tree with the number of loops in whose bodies it stands. -/
structure Place where
  loops : Nat
  node : Node

/-- Whether a node is a break or a continue. -/
def Node.isLoopControl : Node → Bool
  | .breakLoop _ | .continueLoop _ => true
  | _ => false

/-- Whether a node is neither a control structure nor a break or a continue. -/
def Node.goesOn : Node → Bool
  | .branch .. => false
  | node => !node.isLoopControl

mutual

/-- The places in a node that stands in so many loops, the node itself first. The else part of a
loop is not in the body of that loop. -/
def Node.places (loops : Nat) : Node → List Place
  | .action position inner => ⟨loops, .action position inner⟩ :: inner.places loops
  | .pipeline inner => ⟨loops, .pipeline inner⟩ :: inner.places loops
  | .command inner => ⟨loops, .command inner⟩ :: inner.places loops
  | .chain position base path => ⟨loops, .chain position base path⟩ :: base.places loops
  | .branch kind position head body otherwise =>
    ⟨loops, .branch kind position head body otherwise⟩ ::
      (head.places loops ++ body.places (loops + Parse.loopsOf kind) ++
        match otherwise with
        | none => []
        | some other => other.places loops)
  | .template position name argument =>
    ⟨loops, .template position name argument⟩ ::
      match argument with
      | none => []
      | some inner => inner.places loops
  | node => [⟨loops, node⟩]

/-- The places in a pipeline that stands in so many loops. -/
def Pipeline.places (loops : Nat) : Pipeline → List Place
  | ⟨_, _, _, commands⟩ => Command.allPlaces loops commands

/-- The places in commands that stand in so many loops. -/
def Command.allPlaces (loops : Nat) : List Command → List Place
  | [] => []
  | command :: rest => command.places loops ++ Command.allPlaces loops rest

/-- The places in a command that stands in so many loops. -/
def Command.places (loops : Nat) : Command → List Place
  | ⟨_, operands⟩ => Node.allPlaces loops operands

/-- The places in nodes in a row that stand in so many loops. -/
def Node.allPlaces (loops : Nat) : List Node → List Place
  | [] => []
  | node :: rest => node.places loops ++ Node.allPlaces loops rest

/-- The places in a body that stands in so many loops. -/
def Body.places (loops : Nat) : Body → List Place
  | ⟨_, nodes⟩ => Node.allPlaces loops nodes

end

section Places

variable (isFunction : String → Bool)

/-- That a node may stand where it stands: in a command, or in a body inside so many loops. -/
def Place.IsFormed (place : Place) : Prop :=
  place.node.IsOperand isFunction ∨ place.node.IsStatement isFunction place.loops

mutual

/-- What stands in an operand may stand there. -/
theorem Node.isFormed_places_operand (loops : Nat) : (node : Node) → node.IsOperand isFunction →
    ∀ place ∈ node.places loops, place.IsFormed isFunction
  | .pipeline inner, hformed =>
    List.forall_mem_cons.mpr ⟨.inl hformed, inner.isFormed_places loops hformed⟩
  | .chain _ base _, hformed =>
    List.forall_mem_cons.mpr ⟨.inl hformed, base.isFormed_places_operand loops hformed.2.2⟩
  | .identifier .., hformed | .var _, hformed | .dot _, hformed | .nil _, hformed
  | .field .., hformed | .bool .., hformed | .number _, hformed | .string .., hformed =>
    List.forall_mem_singleton.mpr (.inl hformed)
  | .text .., hformed | .comment .., hformed | .action .., hformed | .command _, hformed
  | .branch .., hformed | .template .., hformed | .breakLoop _, hformed
  | .continueLoop _, hformed => hformed.elim

/-- What stands in a pipeline may stand there. -/
theorem Pipeline.isFormed_places (loops : Nat) : (pipeline : Pipeline) →
    pipeline.IsFormed isFunction → ∀ place ∈ pipeline.places loops, place.IsFormed isFunction
  | ⟨_, _, _, commands⟩, hformed => Command.isFormed_allPlaces loops commands hformed.2

/-- What stands in commands may stand there. -/
theorem Command.isFormed_allPlaces (loops : Nat) : (commands : List Command) →
    Command.AllFormed isFunction commands →
    ∀ place ∈ Command.allPlaces loops commands, place.IsFormed isFunction
  | [], _ => List.forall_mem_nil _
  | command :: rest, hformed =>
    List.forall_mem_append.mpr
      ⟨command.isFormed_places loops hformed.1, Command.isFormed_allPlaces loops rest hformed.2⟩

/-- What stands in a command may stand there. -/
theorem Command.isFormed_places (loops : Nat) : (command : Command) →
    command.IsFormed isFunction → ∀ place ∈ command.places loops, place.IsFormed isFunction
  | ⟨_, operands⟩, hformed => Node.isFormed_allPlaces_operands loops operands hformed.2

/-- What stands in operands may stand there. -/
theorem Node.isFormed_allPlaces_operands (loops : Nat) : (operands : List Node) →
    Node.AllOperands isFunction operands →
    ∀ place ∈ Node.allPlaces loops operands, place.IsFormed isFunction
  | [], _ => List.forall_mem_nil _
  | operand :: rest, hformed =>
    List.forall_mem_append.mpr ⟨operand.isFormed_places_operand loops hformed.1,
      Node.isFormed_allPlaces_operands loops rest hformed.2⟩

end

mutual

/-- What stands in a statement may stand there. -/
theorem Node.isFormed_places_statement (loops : Nat) : (node : Node) →
    node.IsStatement isFunction loops → ∀ place ∈ node.places loops, place.IsFormed isFunction
  | .action _ inner, hformed =>
    List.forall_mem_cons.mpr ⟨.inr hformed, inner.isFormed_places isFunction loops hformed⟩
  | .branch kind _ head body none, hformed =>
    have hhead := head.isFormed_places isFunction loops hformed.1
    have hbody := body.isFormed_places (loops + Parse.loopsOf kind) hformed.2.1
    List.forall_mem_cons.mpr ⟨.inr hformed, List.forall_mem_append.mpr
      ⟨List.forall_mem_append.mpr ⟨hhead, hbody⟩, List.forall_mem_nil _⟩⟩
  | .branch kind _ head body (some other), hformed =>
    have hhead := head.isFormed_places isFunction loops hformed.1
    have hbody := body.isFormed_places (loops + Parse.loopsOf kind) hformed.2.1
    have hother := other.isFormed_places loops hformed.2.2
    List.forall_mem_cons.mpr ⟨.inr hformed, List.forall_mem_append.mpr
      ⟨List.forall_mem_append.mpr ⟨hhead, hbody⟩, hother⟩⟩
  | .template _ _ none, hformed => List.forall_mem_singleton.mpr (.inr hformed)
  | .template _ _ (some inner), hformed =>
    List.forall_mem_cons.mpr ⟨.inr hformed, inner.isFormed_places isFunction loops hformed⟩
  | .text .., hformed | .comment .., hformed | .breakLoop _, hformed | .continueLoop _, hformed =>
    List.forall_mem_singleton.mpr (.inr hformed)
  | .pipeline _, hformed | .command _, hformed | .identifier .., hformed | .var _, hformed
  | .dot _, hformed | .nil _, hformed | .field .., hformed | .chain .., hformed | .bool .., hformed
  | .number _, hformed | .string .., hformed => hformed.elim

/-- What stands in statements may stand there. -/
theorem Node.isFormed_allPlaces_statements (loops : Nat) : (nodes : List Node) →
    Node.AllStatements isFunction loops nodes →
    ∀ place ∈ Node.allPlaces loops nodes, place.IsFormed isFunction
  | [], _ => List.forall_mem_nil _
  | node :: rest, hformed =>
    List.forall_mem_append.mpr ⟨node.isFormed_places_statement loops hformed.1,
      Node.isFormed_allPlaces_statements loops rest hformed.2⟩

/-- What stands in a body may stand there. -/
theorem Body.isFormed_places (loops : Nat) : (body : Body) → body.IsFormed isFunction loops →
    ∀ place ∈ body.places loops, place.IsFormed isFunction
  | ⟨_, nodes⟩, hformed => Node.isFormed_allPlaces_statements loops nodes hformed

end

variable {isFunction} {place : Place}

/-- A break or a continue that may stand where it stands is in the body of a loop. -/
theorem Place.IsFormed.loops_pos (hformed : place.IsFormed isFunction)
    (hcontrol : place.node.isLoopControl = true) : 0 < place.loops := by
  obtain ⟨loops, node⟩ := place
  cases node with
  | breakLoop | continueLoop => exact hformed.resolve_left id
  | _ => cases hcontrol

end Places

end Stencil.Syntax

namespace Stencil.Exec

open Syntax

/-! ### Statements that go on -/

section GoesOn

variable (frame : Frame) (invoke : Invoker) (dot : Value)

/-- A statement that is no control structure and does not leave a loop goes on to the next one. So
does the invocation of a template, whatever the template does. -/
theorem exists_runNode_eq {node : Node} (hnode : node.goesOn = true) :
    ∃ step : Exec Unit, runNode frame invoke dot node = do
      step
      return .normal := by
  cases node with
  | text position text => exact ⟨emit text, rfl⟩
  | comment => exact ⟨return (), rfl⟩
  | action position inner =>
    refine ⟨do
      let value ← evalPipeline frame dot inner
      if inner.targets.isEmpty then emit value.output else return (), ?_⟩
    rw [runNode, bind_assoc]
    refine bind_congr fun value ↦ ?_
    split
    · rfl
    · rfl
  | template position name argument =>
    rw [runNode]
    cases invoke name with
    | error fault => exact ⟨fail frame (.template position name argument) fault, rfl⟩
    | ok run =>
      cases argument with
      | none => exact ⟨run .null, rfl⟩
      | some inner => exact ⟨evalPipeline frame dot inner >>= run, (bind_assoc ..).symm⟩
  | branch | breakLoop | continueLoop => cases hnode
  | _ => exact ⟨fail frame _ (.unknownStatement _), rfl⟩

end GoesOn

/-! ### Statements outside of loops -/

section Leaves

variable {loops : Nat} {frame : Frame} {invoke : Invoker}

/-- That a step which stands in so many loops is left normally, if it ends, unless there are any. -/
def Leaves (loops : Nat) (step : Exec Flow) : Prop :=
  ∀ state, Ends step state (fun flow _ ↦ flow = .normal ∨ 0 < loops) fun _ ↦ True

/-- A step that ends, ends somehow. -/
theorem Ends.somehow {α : Type} (step : Exec α) (state : State) :
    Ends step state (fun _ _ ↦ True) fun _ ↦ True := by
  unfold Ends
  split <;> trivial

namespace Leaves

theorem normal : Leaves loops (return .normal) := fun _ ↦ .pure (.inl rfl)

/-- What is left does not depend on what was done before. -/
theorem bind {α : Type} {first : Exec α} {next : α → Exec Flow}
    (hnext : ∀ value, Leaves loops (next value)) : Leaves loops (first >>= next) :=
  fun state ↦ (Ends.somehow first state).andThen fun value after _ ↦ hnext value after

theorem withScope {step : Exec Flow} (hstep : Leaves loops step) :
    Leaves loops (withScope step) :=
  fun state ↦ .withScope (hstep state)

theorem ite {condition : Prop} [Decidable condition] {first second : Exec Flow}
    (hfirst : Leaves loops first) (hsecond : Leaves loops second) :
    Leaves loops (if condition then first else second) := by
  split
  · exact hfirst
  · exact hsecond

/-- A step that stands in no loop is left normally. -/
theorem flow_eq {step : Exec Flow} (hstep : Leaves 0 step) {state after : State} {flow : Flow}
    (hrun : step.run state = (.ok flow, after)) : flow = .normal :=
  ((hstep state).of_run hrun).resolve_right (Nat.lt_irrefl 0)

end Leaves

/-- A statement that goes on is left normally. -/
theorem leaves_of_goesOn {dot : Value} {node : Node} (hnode : node.goesOn = true) :
    Leaves loops (runNode frame invoke dot node) := by
  obtain ⟨step, hstep⟩ := exists_runNode_eq frame invoke dot hnode
  rw [hstep]
  exact .bind fun _ ↦ .normal

/-- A control structure is left like its parts. How the body of a loop is left does not matter. -/
theorem leaves_branch {dot : Value} {kind : BranchKind} {position : Position} {head : Pipeline}
    {body : Body} {otherwise : Option Body}
    (hbody : ∀ dot, Leaves (loops + Parse.loopsOf kind) (runBody frame invoke dot body))
    (hother : ∀ other ∈ otherwise, Leaves loops (runBody frame invoke dot other)) :
    Leaves loops (runNode frame invoke dot (.branch kind position head body otherwise)) := by
  have hother : Leaves loops (runOtherwise frame invoke dot otherwise) := by
    cases otherwise with
    | none => exact .normal
    | some other => exact hother other rfl
  rw [runNode_branch]
  refine .withScope (.bind fun value ↦ ?_)
  cases kind with
  | conditional => exact .ite (hbody dot) hother
  | context => exact .ite (hbody value) hother
  | loop => exact .bind fun _ ↦ .ite hother (.bind fun _ ↦ .normal)

end Leaves

section Formed

variable (isFunction : String → Bool) (frame : Frame) (invoke : Invoker)

mutual

/-- A statement that is formed is left normally outside of loops. -/
theorem runNode_leaves (dot : Value) (loops : Nat) : (node : Node) →
    node.IsStatement isFunction loops → Leaves loops (runNode frame invoke dot node)
  | .branch kind _ _ body none, hformed =>
    leaves_branch (fun dot ↦ runBody_leaves dot (loops + Parse.loopsOf kind) body hformed.2.1)
      nofun
  | .branch kind _ _ body (some other), hformed => by
    have hother := runBody_leaves dot loops other hformed.2.2
    refine leaves_branch
      (fun dot ↦ runBody_leaves dot (loops + Parse.loopsOf kind) body hformed.2.1) ?_
    rintro _ ⟨⟩
    exact hother
  | .breakLoop _, hformed | .continueLoop _, hformed => fun _ ↦ .pure (.inr hformed)
  | .text .., _ | .comment .., _ | .action .., _ | .template .., _ | .pipeline _, _ | .command _, _
  | .identifier .., _ | .var _, _ | .dot _, _ | .nil _, _ | .field .., _ | .chain .., _
  | .bool .., _ | .number _, _ | .string .., _ => leaves_of_goesOn rfl

/-- Statements that are formed are left normally outside of loops. -/
theorem runNodes_leaves (dot : Value) (loops : Nat) : (nodes : List Node) →
    Node.AllStatements isFunction loops nodes → Leaves loops (runNodes frame invoke dot nodes)
  | [], _ => .normal
  | node :: rest, hformed => by
    intro state
    rw [runNodes]
    refine (runNode_leaves dot loops node hformed.1 state).andThen fun flow middle hflow ↦ ?_
    cases flow with
    | normal => exact runNodes_leaves dot loops rest hformed.2 middle
    | breaking | continuing => exact .pure hflow

/-- A body that is formed is left normally outside of loops. -/
theorem runBody_leaves (dot : Value) (loops : Nat) : (body : Body) →
    body.IsFormed isFunction loops → Leaves loops (runBody frame invoke dot body)
  | ⟨_, nodes⟩, hformed => runNodes_leaves dot loops nodes hformed

end

end Formed

/-! ### Loops by number -/

/-- How a statement leaves the body it stands in, with the number of the loop that it means. -/
inductive Exit
  | normal
  | breaking (loop : Nat)
  | continuing (loop : Nat)
deriving DecidableEq, Repr

/-- What a flow means for the loop of a number. -/
def Exit.ofFlow (loop : Nat) : Flow → Exit
  | .normal => .normal
  | .breaking => .breaking loop
  | .continuing => .continuing loop

/-- Runs the rounds of the loop of a number. What means another loop ends them and goes on to it. -/
def runRoundsIn (loop : Nat) (round : Value × Value → Exec Exit) :
    List (Value × Value) → Exec Exit
  | [] => return .normal
  | pair :: rest => do
    match ← round pair with
    | .normal => runRoundsIn loop round rest
    | .breaking meant => if meant = loop then return .normal else return .breaking meant
    | .continuing meant =>
      if meant = loop then runRoundsIn loop round rest else return .continuing meant

mutual

/-- Runs a statement that stands in so many loops. A break or a continue means the innermost of
them, and the body of a loop is one loop further in. -/
def runNodeIn (frame : Frame) (invoke : Invoker) (loops : Nat) (dot : Value) : Node → Exec Exit
  | .branch kind position head body otherwise => withScope do
    let value ← evalPipeline frame dot head
    let other : Exec Exit :=
      match otherwise with
      | none => return .normal
      | some body => runBodyIn frame invoke loops dot body
    match kind with
    | .conditional => if value.isTrue then runBodyIn frame invoke loops dot body else other
    | .context => if value.isTrue then runBodyIn frame invoke loops value body else other
    | .loop => do
      let rounds ← loopItems frame (.branch kind position head body otherwise)
        head.targets.length value
      if rounds.isEmpty then other
      else
        runRoundsIn (loops + 1) (fun (index, item) => withScope do
          bindRound frame head index item
          runBodyIn frame invoke (loops + 1) item body) rounds
  | .breakLoop _ => return .breaking loops
  | .continueLoop _ => return .continuing loops
  | node => do
    let _ ← runNode frame invoke dot node
    return .normal

/-- Runs statements that stand in so many loops until one of them leaves their body. -/
def runNodesIn (frame : Frame) (invoke : Invoker) (loops : Nat) (dot : Value) :
    List Node → Exec Exit
  | [] => return .normal
  | node :: rest => do
    match ← runNodeIn frame invoke loops dot node with
    | .normal => runNodesIn frame invoke loops dot rest
    | exit => return exit

/-- Runs a body that stands in so many loops. -/
def runBodyIn (frame : Frame) (invoke : Invoker) (loops : Nat) (dot : Value) : Body → Exec Exit
  | ⟨_, nodes⟩ => runNodesIn frame invoke loops dot nodes

end

/-- In the rounds of a loop whose body means that loop, nothing leaves the loop. -/
theorem runRoundsIn_ofFlow (loop : Nat) (round : Value × Value → Exec Flow)
    (rounds : List (Value × Value)) :
    runRoundsIn loop (fun pair ↦ Exit.ofFlow loop <$> round pair) rounds = do
      runRounds round rounds
      return .normal := by
  induction rounds with
  | nil => rfl
  | cons pair rest ih =>
    rw [runRoundsIn, runRounds, bind_map_left, bind_assoc]
    refine bind_congr fun flow ↦ ?_
    cases flow with
    | normal => exact ih
    | breaking => exact if_pos rfl
    | continuing => exact (if_pos rfl).trans ih

section Numbered

variable (frame : Frame) (invoke : Invoker) (loops : Nat) (dot : Value)

/-- Runs the else part of a control structure that stands in so many loops, if it has one. -/
def runOtherwiseIn : Option Body → Exec Exit
  | none => return .normal
  | some body => runBodyIn frame invoke loops dot body

/-- Runs a round of a loop that stands in so many others. -/
def runRoundIn (head : Pipeline) (body : Body) (pair : Value × Value) : Exec Exit :=
  withScope do
    bindRound frame head pair.1 pair.2
    runBodyIn frame invoke (loops + 1) pair.2 body

/-- A control structure evaluates its head and then runs one of its parts, or rounds of the first.
-/
theorem runNodeIn_branch (kind : BranchKind) (position : Position) (head : Pipeline) (body : Body)
    (otherwise : Option Body) :
    runNodeIn frame invoke loops dot (.branch kind position head body otherwise) = withScope (do
      let value ← evalPipeline frame dot head
      match kind with
      | .conditional =>
        if value.isTrue then runBodyIn frame invoke loops dot body
        else runOtherwiseIn frame invoke loops dot otherwise
      | .context =>
        if value.isTrue then runBodyIn frame invoke loops value body
        else runOtherwiseIn frame invoke loops dot otherwise
      | .loop => do
        let rounds ← loopItems frame (.branch kind position head body otherwise)
          head.targets.length value
        if rounds.isEmpty then runOtherwiseIn frame invoke loops dot otherwise
        else runRoundsIn (loops + 1) (runRoundIn frame invoke loops head body) rounds) := by
  cases otherwise <;> rfl

variable {frame invoke loops}

/-- A step in a scope of its own gives what it gives. -/
theorem map_withScope {α β : Type} (f : α → β) (step : Exec α) :
    f <$> withScope step = withScope (f <$> step) := by
  simp [withScope]

/-- A choice gives what is chosen. -/
theorem map_ite {α β : Type} (f : α → β) (condition : Prop) [Decidable condition]
    (first second : Exec α) :
    f <$> (if condition then first else second) =
      if condition then f <$> first else f <$> second := by
  split <;> rfl

/-- That a body which stands in so many loops is run alike with the loops by number. -/
def Numbered (frame : Frame) (invoke : Invoker) (loops : Nat) (body : Body) : Prop :=
  ∀ dot, runBodyIn frame invoke loops dot body =
    Exit.ofFlow loops <$> runBody frame invoke dot body

/-- Rounds of a loop are run alike with the loops by number. -/
theorem runRoundIn_eq {body : Body} (hbody : Numbered frame invoke (loops + 1) body)
    (head : Pipeline) :
    runRoundIn frame invoke loops head body =
      fun pair ↦ Exit.ofFlow (loops + 1) <$> runRound frame invoke head body pair := by
  funext pair
  rw [runRoundIn, runRound, map_withScope, map_bind, hbody]

/-- A control structure means the loops that its parts mean. -/
theorem branch_numbered {kind : BranchKind} (position : Position) (head : Pipeline) {body : Body}
    {otherwise : Option Body} (hbody : Numbered frame invoke (loops + Parse.loopsOf kind) body)
    (hother : ∀ other ∈ otherwise, Numbered frame invoke loops other) :
    runNodeIn frame invoke loops dot (.branch kind position head body otherwise) =
      Exit.ofFlow loops <$>
        runNode frame invoke dot (.branch kind position head body otherwise) := by
  have hother : runOtherwiseIn frame invoke loops dot otherwise =
      Exit.ofFlow loops <$> runOtherwise frame invoke dot otherwise := by
    cases otherwise with
    | none => rfl
    | some other => exact hother other rfl dot
  rw [runNodeIn_branch, runNode_branch, map_withScope, map_bind]
  refine congrArg withScope (bind_congr fun value ↦ ?_)
  cases kind with
  | conditional =>
    have hbody : Numbered frame invoke loops body := hbody
    dsimp only
    rw [map_ite, hother, hbody]
  | context =>
    have hbody : Numbered frame invoke loops body := hbody
    dsimp only
    rw [map_ite, hother, hbody]
  | loop =>
    dsimp only
    rw [map_bind]
    refine bind_congr fun rounds ↦ ?_
    rw [map_ite, hother, runRoundIn_eq hbody, runRoundsIn_ofFlow, map_bind]
    rfl

/-- A statement that goes on means no loop. -/
theorem runNodeIn_of_goesOn {node : Node} (hnode : node.goesOn = true) :
    runNodeIn frame invoke loops dot node =
      Exit.ofFlow loops <$> runNode frame invoke dot node := by
  have hrun : runNodeIn frame invoke loops dot node = do
      let _ ← runNode frame invoke dot node
      return .normal := by
    cases node with
    | branch | breakLoop | continueLoop => cases hnode
    | _ => rfl
  obtain ⟨step, hstep⟩ := exists_runNode_eq frame invoke dot hnode
  rw [hrun, hstep, bind_assoc, map_bind]
  rfl

mutual

/-- A statement that stands in so many loops is run alike with the loops by number. -/
theorem runNodeIn_eq (loops : Nat) (dot : Value) : (node : Node) →
    runNodeIn frame invoke loops dot node = Exit.ofFlow loops <$> runNode frame invoke dot node
  | .branch kind position head body none =>
    branch_numbered dot position head (runBodyIn_eq (loops + Parse.loopsOf kind) body) nofun
  | .branch kind position head body (some other) => by
    have hother := runBodyIn_eq loops other
    refine branch_numbered dot position head (runBodyIn_eq (loops + Parse.loopsOf kind) body) ?_
    rintro _ ⟨⟩
    exact hother
  | .breakLoop _ | .continueLoop _ => rfl
  | .text .. | .comment .. | .action .. | .template .. | .pipeline _ | .command _
  | .identifier .. | .var _ | .dot _ | .nil _ | .field .. | .chain .. | .bool .. | .number _
  | .string .. => runNodeIn_of_goesOn dot rfl

/-- Statements that stand in so many loops are run alike with the loops by number. -/
theorem runNodesIn_eq (loops : Nat) (dot : Value) : (nodes : List Node) →
    runNodesIn frame invoke loops dot nodes =
      Exit.ofFlow loops <$> runNodes frame invoke dot nodes
  | [] => rfl
  | node :: rest => by
    rw [runNodesIn, runNodes, runNodeIn_eq loops dot node, bind_map_left, map_bind]
    refine bind_congr fun flow ↦ ?_
    cases flow with
    | normal => exact runNodesIn_eq loops dot rest
    | breaking | continuing => rfl

/-- A body that stands in so many loops is run alike with the loops by number. -/
theorem runBodyIn_eq (loops : Nat) : (body : Body) → Numbered frame invoke loops body
  | ⟨_, nodes⟩ => fun dot ↦ runNodesIn_eq loops dot nodes

end

end Numbered

/-! ### Loops of a source -/

/-- That the breaks and continues of a tree are confined to its loops. -/
structure ConfinesLoops (root : Body) : Prop where
  /-- A break or a continue is in the body of a loop. -/
  inside : ∀ place ∈ root.places 0, place.node.isLoopControl = true → 0 < place.loops
  /-- A break or a continue means the innermost loop in whose body it is, and a loop heeds only
  those that mean it. -/
  numbered : ∀ place ∈ root.places 0, ∀ frame invoke dot,
    runNodeIn frame invoke place.loops dot place.node =
      Exit.ofFlow place.loops <$> runNode frame invoke dot place.node
  /-- What is in the body of no loop is left normally. -/
  outside : ∀ place ∈ root.places 0, place.loops = 0 → ∀ frame invoke dot state flow after,
    (runNode frame invoke dot place.node).run state = (.ok flow, after) → flow = .normal
  /-- The invocation of a template is left normally, however many loops it is in. -/
  invoked : ∀ loops position name argument, ⟨loops, .template position name argument⟩ ∈
    root.places 0 → ∀ frame invoke dot state flow after,
    (runNode frame invoke dot (.template position name argument)).run state = (.ok flow, after) →
      flow = .normal
  /-- The whole tree is run alike with the loops by number, and it is left normally. -/
  returns : ∀ frame invoke dot,
    runBodyIn frame invoke 0 dot root = Exit.ofFlow 0 <$> runBody frame invoke dot root ∧
      ∀ state flow after,
        (runBody frame invoke dot root).run state = (.ok flow, after) → flow = .normal

/-- What may stand where it stands is left normally outside of loops. -/
theorem leaves_of_isFormed {isFunction : String → Bool} {place : Place}
    (hformed : place.IsFormed isFunction) (frame : Frame) (invoke : Invoker) (dot : Value) :
    Leaves place.loops (runNode frame invoke dot place.node) := by
  obtain ⟨loops, node⟩ := place
  rcases hformed with hoperand | hstatement
  · refine leaves_of_goesOn ?_
    cases node with
    | branch | breakLoop | continueLoop => exact hoperand.elim
    | _ => rfl
  · exact runNode_leaves isFunction frame invoke dot loops node hstatement

/-- In each tree of a source, breaks and continues are confined to the loops of the tree. -/
theorem confinesLoops_of_parse {name source : String} {delimiters : Delimiters}
    {isFunction : String → Bool} {set : TreeSet}
    (hparse : parse name delimiters isFunction source = .ok set) {tree : Tree}
    (htree : tree ∈ set.trees) : ConfinesLoops tree.root := by
  have hroot := isFormed_of_parse hparse htree
  have hplaces := tree.root.isFormed_places isFunction 0 hroot
  refine ⟨fun place hplace ↦ (hplaces place hplace).loops_pos, ?_, ?_, ?_, ?_⟩
  · exact fun place _ frame invoke dot ↦ runNodeIn_eq place.loops dot place.node
  · intro place hplace hloops frame invoke dot state flow after
    have hleaves := leaves_of_isFormed (hplaces place hplace) frame invoke dot
    exact (hloops ▸ hleaves).flow_eq
  · intro _ position name argument _ frame invoke dot state flow after
    exact (leaves_of_goesOn rfl).flow_eq
  · intro frame invoke dot
    have hleaves := runBody_leaves isFunction frame invoke dot 0 tree.root hroot
    exact ⟨runBodyIn_eq 0 tree.root dot, fun state flow after ↦ hleaves.flow_eq⟩

/-- The tree of a source with a break in a loop. -/
def breakTree : Tree :=
  ⟨"page", "page", ⟨⟨0, 1⟩, [.branch .loop ⟨7, 1⟩
    ⟨⟨7, 1⟩, false, [], [⟨⟨7, 1⟩, [.dot ⟨7, 1⟩]⟩]⟩
    ⟨⟨9, 1⟩, [.branch .conditional ⟨13, 1⟩
      ⟨⟨13, 1⟩, false, [], [⟨⟨13, 1⟩, [.dot ⟨13, 1⟩]⟩]⟩
      ⟨⟨15, 1⟩, [.breakLoop ⟨16, 1⟩]⟩ none]⟩ none]⟩⟩

/-- The source is accepted, and its break is confined to the loop. -/
theorem confinesLoops_breakTree :
    parse "page" Delimiters.brackets (FunctionTable.has {}) "[range .][if .][break][end][end]" =
        .ok ⟨[breakTree]⟩ ∧
      ConfinesLoops breakTree.root := by
  have hparse : parse "page" Delimiters.brackets (FunctionTable.has {})
      "[range .][if .][break][end][end]" = .ok ⟨[breakTree]⟩ := by
    cbv
  exact ⟨hparse, confinesLoops_of_parse hparse (List.mem_singleton_self breakTree)⟩

end Stencil.Exec
