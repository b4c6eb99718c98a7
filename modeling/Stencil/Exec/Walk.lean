import Stencil.Data.Print
import Stencil.Exec.Evaluate

/-!
# Running statements

A body is run statement by statement until one of them leaves it (`Flow`). Texts and the values of
actions are written; control structures run their bodies, and the variables they declare are gone
after them. A loop runs its body once for each item, a break ends the innermost loop and a continue
one round of it. The rounds of a loop are collected before the first of them is run (`loopItems`).

The invocation of another template is a parameter (`Invoker`), so a run recurses on the tree alone.
`invoker` supplies it with as many nested invocations as are left, and `maxInvocations` of them are
allowed in all (`runTree`).
-/

set_option autoImplicit false
set_option relaxedAutoImplicit false

namespace Stencil.Exec

open Syntax

/-- How a statement leaves the body it stands in. -/
inductive Flow
  | normal
  | breaking
  | continuing
deriving DecidableEq, Repr

/-- How a template of a given name is run on data, or why it cannot be. -/
abbrev Invoker : Type := String → Except EvalFault (Value → Exec Unit)

/-! ### Loops -/

/-- As many rounds as counted, unless they are too many to be held. -/
def collect (frame : Frame) (node : Node) (count : Nat) (rounds : Unit → List (Value × Value)) :
    Exec (List (Value × Value)) :=
  if maxRounds < count then fail frame node (.tooManyRounds count) else return rounds ()

/-- The rounds of a loop over a value: an index and an item for each. -/
def loopItems (frame : Frame) (node : Node) (targets : Nat) (value : Value) :
    Exec (List (Value × Value)) :=
  match value with
  | .array items =>
    collect frame node items.length fun _ =>
      items.zipIdx.map fun (item, i) => (.int i, item)
  | .object members =>
    collect frame node members.length fun _ => members.map fun (key, item) => (.string key, item)
  | .null => return []
  | _ =>
    match value.signed? with
    | some count =>
      if 1 < targets then fail frame node (.integerLoop count)
      else
        collect frame node count.toNat fun _ =>
          (List.range count.toNat).map fun (i : Nat) => (.int i, .int i)
    | none => fail frame node (.notIterable value.output)

/-- Gives the variables of a loop their values for a round. Declared ones are the innermost. -/
def bindRound (frame : Frame) (head : Pipeline) (index item : Value) : Exec Unit := do
  match head.targets, head.isAssign with
  | [], _ => return ()
  | [target], true => assign frame target item
  | first :: second :: _, true =>
    assign frame first index
    assign frame second item
  | [_], false => setScope ((← scope).setAt 0 item)
  | _, false => setScope (((← scope).setAt 0 item).setAt 1 index)

/-- Runs the rounds of a loop until one of them breaks. -/
def runRounds (round : Value × Value → Exec Flow) : List (Value × Value) → Exec Unit
  | [] => return ()
  | pair :: rest => do
    match ← round pair with
    | .breaking => return ()
    | _ => runRounds round rest

/-! ### Statements -/

mutual

/-- Runs a statement. -/
def runNode (frame : Frame) (invoke : Invoker) (dot : Value) : Node → Exec Flow
  | .text _ text => do
    emit text
    return .normal
  | .comment .. => return .normal
  | .action _ inner => do
    let value ← evalPipeline frame dot inner
    if inner.targets.isEmpty then emit value.output
    return .normal
  | .branch kind position head body otherwise => withScope do
    let value ← evalPipeline frame dot head
    let other : Exec Flow :=
      match otherwise with
      | none => return .normal
      | some body => runBody frame invoke dot body
    match kind with
    | .conditional => if value.isTrue then runBody frame invoke dot body else other
    | .context => if value.isTrue then runBody frame invoke value body else other
    | .loop => do
      let rounds ← loopItems frame (.branch kind position head body otherwise)
        head.targets.length value
      if rounds.isEmpty then other
      else do
        runRounds (fun (index, item) => withScope do
          bindRound frame head index item
          runBody frame invoke item body) rounds
        return .normal
  | .template position name argument => do
    match invoke name with
    | .error fault => fail frame (.template position name argument) fault
    | .ok run =>
      let data ←
        match argument with
        | none => pure .null
        | some inner => evalPipeline frame dot inner
      run data
      return .normal
  | .breakLoop _ => return .breaking
  | .continueLoop _ => return .continuing
  | node => fail frame node (.unknownStatement node.canonical)

/-- Runs statements until one of them leaves their body. -/
def runNodes (frame : Frame) (invoke : Invoker) (dot : Value) : List Node → Exec Flow
  | [] => return .normal
  | node :: rest => do
    match ← runNode frame invoke dot node with
    | .normal => runNodes frame invoke dot rest
    | flow => return flow

/-- Runs a body. -/
def runBody (frame : Frame) (invoke : Invoker) (dot : Value) : Body → Exec Flow
  | ⟨_, nodes⟩ => runNodes frame invoke dot nodes

end

/-! ### Templates -/

/-- What a run of any template of a set needs. -/
structure Program where
  trees : TreeSet
  functions : FunctionTable
  missingKey : MissingKey

/-- The frame in which a tree runs. -/
def Program.frame (program : Program) (tree : Tree) : Frame :=
  ⟨tree, program.functions, program.missingKey⟩

/-- Runs a tree on data. It sees its data alone, and the variables from before it are back after it.
-/
def runTree (program : Program) (invoke : Invoker) (tree : Tree) (data : Value) : Exec Unit := do
  let saved ← scope
  setScope (Scope.initial data)
  let _ ← runBody (program.frame tree) invoke data tree.root
  setScope saved

/-- Invocations of the templates of a set, of which the given number may be nested. -/
def invoker (program : Program) : Nat → Invoker
  | 0, name =>
    match program.trees.find? name with
    | none => .error (.undefinedTemplate name)
    | some _ => .error .tooManyInvocations
  | more + 1, name =>
    match program.trees.find? name with
    | none => .error (.undefinedTemplate name)
    | some tree => .ok (runTree program (invoker program more) tree)

/-- How an execution ended: what the sink accepted, and the error if there was one. -/
structure Outcome where
  output : String
  error : Option ExecError

/-- Executes the template of a name on data, into a sink with the given room. -/
def execute (program : Program) (set name : String) (limit : Option Nat) (data : Value) : Outcome :=
  match program.trees.find? name with
  | none => ⟨"", some (.noTemplate name set)⟩
  | some tree =>
    let start : State := ⟨[], Sink.limited limit⟩
    match (runTree program (invoker program maxInvocations) tree data).run start with
    | (.ok _, after) => ⟨after.sink.output, none⟩
    | (.error error, after) => ⟨after.sink.output, some error⟩

end Stencil.Exec
