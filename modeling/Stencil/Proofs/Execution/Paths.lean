import Mathlib.Data.List.Basic
import Stencil.Proofs.Execution.Steps

/-!
# The spellings of a path

A path of names is followed from a value one name at a time (`Value.follow`). A template has several
spellings for it: fields of the dot, on their own or in a chain, fields of a variable, fields of a
pipeline in parentheses, and parentheses around every field but the last (`Nested`). Each evaluates
its start in its own way, and each follows the same path from the same value (`Spells`), so they
give the same value or fail with the same fault (`spellings_agree`).

A chain goes on from where its base has led (`LeadsTo.chain`), which is the one step that the proofs
of all spellings share.
-/

set_option autoImplicit false
set_option relaxedAutoImplicit false

namespace Stencil

/-! ### Following a path -/

namespace Value

/-- What a name leads to from a value: a member, or what a missing key gives. -/
def named (missingKey : MissingKey) (receiver : Value) (name : String) : Except EvalFault Value :=
  match receiver with
  | object members =>
    match lookup name members, missingKey with
    | some value, _ => .ok value
    | none, .error => .error (.missingKey name)
    | none, .default => .ok null
  | null =>
    match missingKey with
    | .error => .error (.nullData name)
    | .default => .ok null
  | _ => .error (.noFields name receiver.typeName)

/-- What a path leads to from a value. -/
def follow (missingKey : MissingKey) (value : Value) (path : List String) :
    Except EvalFault Value :=
  path.foldlM (named missingKey) value

/-- A path is followed from where its first part leads. -/
theorem follow_concat (missingKey : MissingKey) (value : Value) (first second : List String) :
    value.follow missingKey (first ++ second) =
      value.follow missingKey first >>= fun middle ↦ middle.follow missingKey second :=
  List.foldlM_append

/-- The member of an object, or null where there is none. Null has null for every member, and other
values have no members. -/
def memberOrNull? : Value → String → Option Value
  | object members, name => some ((lookup name members).getD null)
  | null, _ => some null
  | _, _ => none

/-- Where a missing key gives null, a name leads to the member or to null. -/
theorem toOption_named (value : Value) (name : String) :
    (value.named .default name).toOption = value.memberOrNull? name := by
  cases value with
  | object members =>
    simp only [named, memberOrNull?]
    cases lookup name members <;> rfl
  | _ => rfl

/-- Where a missing key gives null, a path leads to the member or to null at each of its names. -/
theorem toOption_follow (value : Value) (path : List String) :
    (value.follow .default path).toOption = path.foldlM memberOrNull? value := by
  induction path generalizing value with
  | nil => rfl
  | cons name rest ih =>
    rw [follow, List.foldlM_cons, List.foldlM_cons, ← toOption_named]
    cases value.named .default name with
    | error fault => rfl
    | ok next => exact ih next

end Value

namespace Exec

open Syntax

section Steps

variable {frame : Frame} {state after : State} {result : Except EvalFault Value}

/-- That a step gives a value, or fails with a fault at whichever node, and ends in a state. -/
def LeadsTo (frame : Frame) (result : Except EvalFault Value) (step : Exec Value)
    (state after : State) : Prop :=
  match result with
  | .ok value => step.run state = (.ok value, after)
  | .error fault => ∃ node, step.run state = (.error (faultAt frame node fault), after)

/-- A field without arguments is what its name leads to. -/
theorem leadsTo_fieldOf (node : Node) (receiver : Value) (name : String) :
    LeadsTo frame (receiver.named frame.missingKey name) (fieldOf frame node false receiver name)
      state state := by
  cases receiver with
  | object members =>
    simp only [fieldOf, Value.named, Bool.false_eq_true, if_false]
    cases Value.lookup name members with
    | some value => exact rfl
    | none =>
      cases frame.missingKey with
      | error => exact ⟨node, rfl⟩
      | default => exact rfl
  | null =>
    simp only [fieldOf, Value.named]
    cases frame.missingKey with
    | error => exact ⟨node, rfl⟩
    | default => exact rfl
  | _ => exact ⟨node, rfl⟩

/-- A step is followed by another, from the value that the first one gives. -/
theorem LeadsTo.bind {first : Exec Value} {next : Value → Exec Value}
    {further : Value → Except EvalFault Value} (hfirst : LeadsTo frame result first state after)
    (hnext : ∀ value, LeadsTo frame (further value) (next value) after after) :
    LeadsTo frame (result >>= further) (first >>= next) state after := by
  cases result with
  | error fault =>
    obtain ⟨node, hrun⟩ := hfirst
    refine ⟨node, ?_⟩
    rw [run_bind, hrun]
  | ok value =>
    have hrun : first.run state = (.ok value, after) := hfirst
    have hrest := hnext value
    have hboth : (first >>= next).run state = (next value).run after := by rw [run_bind, hrun]
    change LeadsTo frame (further value) (first >>= next) state after
    unfold LeadsTo at hrest ⊢
    rwa [hboth]

/-- The fields of a path without arguments are what the path leads to. -/
theorem leadsTo_fieldPath (node : Node) (receiver : Value) (path : List String) :
    LeadsTo frame (receiver.follow frame.missingKey path)
      (fieldPath frame node false receiver path) state state := by
  induction path generalizing receiver with
  | nil => exact rfl
  | cons name rest ih =>
    rw [fieldPath, Bool.false_and]
    exact (leadsTo_fieldOf node receiver name).bind fun value ↦ ih value

/-- A chain goes on from where its base has led. -/
theorem LeadsTo.chain {value dot : Value} {position : Position} {base : Node}
    {front back : List String} (hback : back ≠ []) (hbase : ∀ position, base ≠ .nil position)
    (hfront : LeadsTo frame (value.follow frame.missingKey front) (evalOperand frame dot base) state
      after) :
    LeadsTo frame (value.follow frame.missingKey (front ++ back))
      (evalOperand frame dot (.chain position base back)) state after := by
  rw [evalOperand_chain frame dot position hback hbase, Value.follow_concat]
  exact hfront.bind fun middle ↦ leadsTo_fieldPath _ middle back

end Steps

/-! ### Spellings -/

/-- That a node is a path with parentheses around every part of it that a field is taken of. -/
inductive Nested : List String → Node → Prop
  | field {position : Position} {name : String} : Nested [name] (.field position [name])
  | chain {position start inner : Position} {isAssign : Bool} {path : List String} {base : Node}
      {name : String} (hbase : Nested path base) :
      Nested (path ++ [name])
        (.chain position (.pipeline ⟨start, isAssign, [], [⟨inner, [base]⟩]⟩) [name])

/-- That a node, evaluated for a dot in a state, is a spelling of a path from a value. The state
behind it is that behind its start. -/
inductive Spells (frame : Frame) (value : Value) (path : List String) :
    Value → State → State → Node → Prop
  /-- Fields of the dot. -/
  | field {state : State} {position : Position} :
      Spells frame value path value state state (.field position path)
  /-- Fields of the dot, of which further fields are taken. -/
  | chain {state : State} {position start : Position} {front back : List String}
      (hback : back ≠ []) (hpath : front ++ back = path) :
      Spells frame value path value state state (.chain position (.field start front) back)
  /-- Fields of a variable. -/
  | var {dot : Value} {state : State} {position : Position} {name : String}
      (hname : state.scope.find? name = some value) :
      Spells frame value path dot state state (.var ⟨position, name :: path⟩)
  /-- Fields of a pipeline in parentheses. -/
  | parenthesized {dot : Value} {state after : State} {position : Position} {inner : Pipeline}
      (hinner : (evalPipeline frame dot inner).run state = (.ok value, after)) :
      Spells frame value path dot state after (.chain position (.pipeline inner) path)
  /-- Fields of the dot, each but the last in parentheses. -/
  | nested {state : State} {node : Node} (hnested : Nested path node) :
      Spells frame value path value state state node

/-- That a node leads to a result, as a command of its own and as an operand. -/
def Denotes (frame : Frame) (dot : Value) (node : Node) (result : Except EvalFault Value)
    (state after : State) : Prop :=
  (∀ position, LeadsTo frame result (evalCommand frame dot none ⟨position, [node]⟩) state after) ∧
    LeadsTo frame result (evalOperand frame dot node) state after

section Spellings

variable {frame : Frame} {value dot : Value} {path : List String} {state after : State}
  {node : Node} {result : Except EvalFault Value}

/-- A chain is evaluated in the same way as a command and as an operand. -/
theorem denotes_chain {position : Position} {base : Node} {fields : List String}
    (hchain : LeadsTo frame result (evalOperand frame dot (.chain position base fields)) state
      after) :
    Denotes frame dot (.chain position base fields) result state after := by
  refine ⟨fun start ↦ ?_, hchain⟩
  have hsame : evalCommand frame dot none ⟨start, [.chain position base fields]⟩ =
      evalOperand frame dot (.chain position base fields) := by
    cases fields with
    | nil => rfl
    | cons name rest => cases base <;> rfl
  rwa [hsame]

/-- Fields of the dot lead where their path does. -/
theorem denotes_field (position : Position) (path : List String) :
    Denotes frame value (.field position path) (value.follow frame.missingKey path) state state :=
  ⟨fun _ ↦ leadsTo_fieldPath (.field position path) value path,
    leadsTo_fieldPath (.field position path) value path⟩

/-- Fields of a variable lead where their path does from its value. -/
theorem denotes_var {position : Position} {name : String} (hpath : path ≠ [])
    (hname : state.scope.find? name = some value) :
    Denotes frame dot (.var ⟨position, name :: path⟩) (value.follow frame.missingKey path) state
      state := by
  obtain ⟨first, rest, rfl⟩ := List.exists_cons_of_ne_nil hpath
  have hread : (read frame ⟨position, name :: first :: rest⟩).run state = (.ok value, state) := by
    rw [run_read state frame rfl, hname]
  have hstart : LeadsTo frame (.ok value) (read frame ⟨position, name :: first :: rest⟩) state
      state := hread
  have hvariable : LeadsTo frame (value.follow frame.missingKey (first :: rest))
      (evalVariable frame false (.var ⟨position, name :: first :: rest⟩)
        ⟨position, name :: first :: rest⟩) state state :=
    hstart.bind fun found ↦
      leadsTo_fieldPath (.var ⟨position, name :: first :: rest⟩) found (first :: rest)
  exact ⟨fun _ ↦ hvariable, hvariable⟩

/-- A pipeline of one command and without variables is its command. -/
theorem evalPipeline_single (frame : Frame) (dot : Value) (start : Position) (isAssign : Bool)
    (command : Command) :
    evalPipeline frame dot ⟨start, isAssign, [], [command]⟩ =
      evalCommand frame dot none command := by
  simp [evalPipeline, evalCommands, bindVariables]

/-- A path with parentheses around its parts leads where the path does.
By induction on the parentheses: what stands in them leads where the path without its last name
does. -/
theorem denotes_nested (hnested : Nested path node) :
    Denotes frame value node (value.follow frame.missingKey path) state state := by
  induction hnested with
  | field => exact denotes_field _ _
  | @chain position start inner isAssign path base name _ ih =>
    have hbase : LeadsTo frame (value.follow frame.missingKey path)
        (evalOperand frame value (.pipeline ⟨start, isAssign, [], [⟨inner, [base]⟩]⟩)) state
        state := by
      rw [evalOperand, evalPipeline_single]
      exact ih.1 inner
    exact denotes_chain (hbase.chain (List.cons_ne_nil name []) nofun)

/-- A spelling of a path leads where the path does. -/
theorem Spells.denotes (hpath : path ≠ [])
    (hspells : Spells frame value path dot state after node) :
    Denotes frame dot node (value.follow frame.missingKey path) state after := by
  cases hspells with
  | field => exact denotes_field _ path
  | @chain _ position start front back hback hboth =>
    subst hboth
    have hbase : LeadsTo frame (value.follow frame.missingKey front)
        (evalOperand frame value (.field start front)) state state :=
      leadsTo_fieldPath (.field start front) value front
    exact denotes_chain (hbase.chain hback nofun)
  | var hname => exact denotes_var hpath hname
  | @parenthesized _ _ _ position inner hinner =>
    have hbase : LeadsTo frame (value.follow frame.missingKey [])
        (evalOperand frame dot (.pipeline inner)) state after := hinner
    have hnil (start : Position) : Node.pipeline inner ≠ .nil start := nofun
    exact denotes_chain (hbase.chain hpath hnil)
  | nested hnested => exact denotes_nested hnested

/-- All spellings of a path agree: whatever the dot, the state and the start, each gives the value
that the path leads to from the value that it starts with, or each fails with the same fault. Where
a missing key gives null, that is the member of an object or null, null for null, and a fault for
any other value. -/
theorem spellings_agree (frame : Frame) (value : Value) {path : List String} (hpath : path ≠ []) :
    (∀ {dot : Value} {state after : State} {node : Node},
      Spells frame value path dot state after node →
        Denotes frame dot node (value.follow frame.missingKey path) state after) ∧
    (frame.missingKey = .default →
      (value.follow frame.missingKey path).toOption = path.foldlM Value.memberOrNull? value) := by
  refine ⟨fun hspells ↦ hspells.denotes hpath, fun hmissing ↦ ?_⟩
  rw [hmissing]
  exact Value.toOption_follow value path

/-- A member of a member, with parentheses around the first field, and of a variable. A key that is
missing there is an error. -/
theorem spellings_agree_member :
    let frame : Frame := ⟨⟨"page", "page", ⟨{}, []⟩⟩, {}, .error⟩
    let data : Value := .object [("a", .object [("b", .int 1)])]
    let state : State := ⟨[("$x", data), ("$", data)], {}⟩
    ["a", "b"] ≠ [] ∧
      Denotes frame data
        (.chain {} (.pipeline ⟨{}, false, [], [⟨{}, [.field {} ["a"]]⟩]⟩) ["b"]) (.ok (.int 1))
        state state ∧
      Denotes frame .null (.var ⟨{}, ["$x", "a", "b"]⟩) (.ok (.int 1)) state state := by
  intro frame data state
  have hpath : ["a", "b"] ≠ [] := List.cons_ne_nil "a" ["b"]
  have hresult : data.follow frame.missingKey ["a", "b"] = .ok (.int 1) := by rfl
  have hnested : Nested ["a", "b"]
      (.chain {} (.pipeline ⟨{}, false, [], [⟨{}, [.field {} ["a"]]⟩]⟩) ["b"]) :=
    @Nested.chain {} {} {} false ["a"] _ "b" .field
  rw [← hresult]
  exact ⟨hpath, (spellings_agree frame data hpath).1 (.nested hnested),
    (spellings_agree frame data hpath).1 (.var rfl)⟩

end Spellings

end Exec

end Stencil
