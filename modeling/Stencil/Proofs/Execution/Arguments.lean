import Mathlib.Data.List.Basic
import Stencil.Proofs.Execution.Steps

/-!
# Arguments of what is no function

Only functions take arguments. A command that starts with anything else refuses them, be they
further operands or a value passed on: a value without fields refuses them itself, and a path leaves
it to its last field (`evalCommand_of_lastReceiver`). That field refuses them of an object, and any
other value has no fields; but null has every field where a missing key gives null, and takes it
without a look at the arguments. So a command gives a value in spite of its arguments exactly if its
last field is taken of null (`arguments_refused`).

A field that names nothing is no field, and no parsed template has one. It is the dot, whatever
follows. Neither has a parsed template a variable without a name, which panics and so gives no value
either.
-/

set_option autoImplicit false
set_option relaxedAutoImplicit false

namespace Stencil.Exec

open Syntax

section Arguments

variable {frame : Frame} {dot value : Value} {state after : State} {first : Node}
  {step : Exec Value}

/-- That a step evaluates what the last field of an operand is taken of. -/
inductive LastReceiver (frame : Frame) (dot : Value) : Node → Exec Value → Prop
  | field {position : Position} {front : List String} {name : String} :
      LastReceiver frame dot (.field position (front ++ [name]))
        (fieldPath frame (.field position (front ++ [name])) false dot front)
  | chain {position : Position} {base : Node} {front : List String} {name : String}
      (hbase : ∀ position, base ≠ .nil position) :
      LastReceiver frame dot (.chain position base (front ++ [name]))
        (evalOperand frame dot base >>= fun receiver ↦
          fieldPath frame (.chain position base (front ++ [name])) false receiver front)
  | var {position : Position} {root : String} {front : List String} {name : String} :
      LastReceiver frame dot (.var ⟨position, root :: (front ++ [name])⟩)
        (read frame ⟨position, root :: (front ++ [name])⟩ >>= fun receiver ↦
          fieldPath frame (.var ⟨position, root :: (front ++ [name])⟩) false receiver front)

/-- That a command which starts with an operand gives a value in spite of its arguments. -/
inductive IgnoresArguments (frame : Frame) (dot : Value) (state : State) :
    Node → Value → State → Prop
  /-- The last field is taken of null. -/
  | ofNull {first : Node} {step : Exec Value} {after : State}
      (hmissing : frame.missingKey = .default) (hreceiver : LastReceiver frame dot first step)
      (hnull : step.run state = (.ok .null, after)) :
      IgnoresArguments frame dot state first .null after
  /-- There is no field to refuse them. -/
  | nameless {position : Position} :
      IgnoresArguments frame dot state (.field position []) dot state

/-! ### Fields -/

/-- The last field of a path is taken of what the others lead to, and the arguments are its. -/
theorem fieldPath_concat (node : Node) (given : Bool) (receiver : Value) (front : List String)
    (name : String) :
    fieldPath frame node given receiver (front ++ [name]) =
      fieldPath frame node false receiver front >>= fun last ↦
        fieldOf frame node given last name := by
  induction front generalizing receiver with
  | nil => simp [fieldPath]
  | cons next front ih =>
    have hmore : (given && (front ++ [name]).isEmpty) = false := by simp
    rw [List.cons_append, fieldPath, fieldPath, hmore, Bool.false_and, bind_assoc]
    exact congrArg (fieldOf frame node false receiver next >>= ·) (funext ih)

/-- A field with arguments gives a value only of null, and then null. -/
theorem run_fieldOf_given (node : Node) (receiver : Value) (name : String) :
    (fieldOf frame node true receiver name).run state = (.ok value, after) ↔
      frame.missingKey = .default ∧ value = .null ∧ receiver = .null ∧ after = state := by
  cases receiver with
  | null =>
    unfold fieldOf
    cases frame.missingKey with
    | error => exact ⟨nofun, fun h ↦ nomatch h.1⟩
    | default =>
      constructor
      · rintro ⟨⟩
        exact ⟨rfl, rfl, rfl, rfl⟩
      · rintro ⟨-, rfl, -, rfl⟩
        rfl
  | _ => exact ⟨nofun, fun h ↦ nomatch h.2.2.1⟩

/-- A field with arguments, taken of what a step gives, gives a value only if the step gives null.
-/
theorem run_bind_fieldOf_given (node : Node) (name : String) :
    (step >>= fun receiver ↦ fieldOf frame node true receiver name).run state =
        (.ok value, after) ↔
      frame.missingKey = .default ∧ value = .null ∧ step.run state = (.ok .null, after) := by
  rw [run_bind]
  rcases step.run state with ⟨error | receiver, middle⟩
  · exact ⟨nofun, fun h ↦ nomatch h.2.2⟩
  · dsimp only
    rw [run_fieldOf_given]
    constructor
    · rintro ⟨hmissing, hvalue, rfl, rfl⟩
      exact ⟨hmissing, hvalue, rfl⟩
    · rintro ⟨hmissing, hvalue, hnull⟩
      cases hnull
      exact ⟨hmissing, hvalue, rfl, rfl⟩

/-! ### Refusals -/

/-- That a step fails in every state. -/
def Fails (step : Exec Value) : Prop :=
  ∀ state, ∃ error after, step.run state = (.error error, after)

theorem fails_fail (frame : Frame) (node : Node) (fault : EvalFault) :
    Fails (fail frame node fault) :=
  fun state ↦ ⟨faultAt frame node fault, state, rfl⟩

/-- A step fails if what follows it does. -/
theorem fails_bind {next : Value → Exec Value} (hnext : ∀ value, Fails (next value)) :
    Fails (step >>= next) := by
  intro state
  rw [run_bind]
  rcases step.run state with ⟨error | value, middle⟩
  · exact ⟨error, middle, rfl⟩
  · exact hnext value middle

/-! ### Commands -/

section Commands

variable {position : Position} {rest : List Node} {last : Option Value}

/-- A path with arguments leaves them to its last field. -/
theorem evalCommand_of_lastReceiver (position : Position)
    (hgiven : (!rest.isEmpty || last.isSome) = true)
    (hreceiver : LastReceiver frame dot first step) :
    ∃ name, evalCommand frame dot last ⟨position, first :: rest⟩ =
      step >>= fun receiver ↦ fieldOf frame first true receiver name := by
  cases hreceiver with
  | @field start front name =>
    refine ⟨name, ?_⟩
    rw [← fieldPath_concat, ← hgiven]
    rfl
  | @chain start base front name hbase =>
    refine ⟨name, ?_⟩
    rw [evalCommand_chain frame dot last position start rest (by simp) hbase, hgiven, bind_assoc]
    exact congrArg (evalOperand frame dot base >>= ·) (funext fun receiver ↦
      fieldPath_concat _ true receiver front name)
  | @var start root front name =>
    refine ⟨name, ?_⟩
    have hpath : evalCommand frame dot last
        ⟨position, .var ⟨start, root :: (front ++ [name])⟩ :: rest⟩ =
        read frame ⟨start, root :: (front ++ [name])⟩ >>= fun receiver ↦
          fieldPath frame (.var ⟨start, root :: (front ++ [name])⟩)
            (!rest.isEmpty || last.isSome) receiver (front ++ [name]) := by
      cases front <;> rfl
    rw [hpath, hgiven, bind_assoc]
    exact congrArg (read frame ⟨start, root :: (front ++ [name])⟩ >>= ·) (funext fun receiver ↦
      fieldPath_concat _ true receiver front name)

/-- A variable without fields refuses arguments. -/
theorem fails_bareVariable (hgiven : (!rest.isEmpty || last.isSome) = true) (start : Position)
    (root : String) :
    Fails (evalCommand frame dot last ⟨position, .var ⟨start, [root]⟩ :: rest⟩) := by
  have hbare : evalCommand frame dot last ⟨position, .var ⟨start, [root]⟩ :: rest⟩ =
      read frame ⟨start, [root]⟩ >>= fun value ↦
        if (!rest.isEmpty || last.isSome) = true then
          fail frame (.var ⟨start, [root]⟩) (.notFunction (Node.var ⟨start, [root]⟩).canonical)
        else return value := rfl
  rw [hbare, hgiven]
  exact fails_bind fun value ↦ fails_fail frame _ _

/-- What starts a command and is no function is a path, names nothing, or fails with arguments. -/
theorem lastReceiver_or_fails (hgiven : (!rest.isEmpty || last.isSome) = true)
    (hname : ∀ start name, first ≠ .identifier start name) :
    (∃ step, LastReceiver frame dot first step) ∨ (∃ start, first = .field start []) ∨
      Fails (evalCommand frame dot last ⟨position, first :: rest⟩) := by
  have hrefused (hnode : evalCommand frame dot last ⟨position, first :: rest⟩ =
      fail frame first (.notFunction first.canonical)) :
      Fails (evalCommand frame dot last ⟨position, first :: rest⟩) := by
    rw [hnode]
    exact fails_fail frame _ _
  cases first with
  | identifier start name => exact absurd rfl (hname start name)
  | field start path =>
    rcases List.eq_nil_or_concat' path with rfl | ⟨front, name, rfl⟩
    · exact .inr (.inl ⟨start, rfl⟩)
    · exact .inl ⟨_, .field⟩
  | chain start base path =>
    rcases List.eq_nil_or_concat' path with rfl | ⟨front, name, rfl⟩
    · exact .inr (.inr (fails_fail frame (.chain start base []) .emptyChain))
    · by_cases hnil : ∃ inner, base = .nil inner
      · obtain ⟨inner, rfl⟩ := hnil
        have hchain : evalCommand frame dot last
            ⟨position, .chain start (.nil inner) (front ++ [name]) :: rest⟩ =
            fail frame (.chain start (.nil inner) (front ++ [name]))
              (.nilChain (Node.chain start (.nil inner) (front ++ [name])).canonical) := by
          cases front <;> rfl
        rw [hchain]
        exact .inr (.inr (fails_fail frame _ _))
      · exact .inl ⟨_, .chain fun inner hbase ↦ hnil ⟨inner, hbase⟩⟩
  | var reference =>
    obtain ⟨start, path⟩ := reference
    rcases path with - | ⟨root, fields⟩
    · exact .inr (.inr (fails_fail frame (.var ⟨start, []⟩) .namelessVariable))
    · rcases List.eq_nil_or_concat' fields with rfl | ⟨front, name, rfl⟩
      · exact .inr (.inr (fails_bareVariable hgiven start root))
      · exact .inl ⟨_, .var⟩
  | _ => exact .inr (.inr (hrefused (if_pos hgiven)))

/-- A command with arguments that starts with anything but the name of a function gives a value
exactly if it ignores them. -/
theorem run_evalCommand_given (hgiven : (!rest.isEmpty || last.isSome) = true)
    (hname : ∀ start name, first ≠ .identifier start name) :
    (evalCommand frame dot last ⟨position, first :: rest⟩).run state = (.ok value, after) ↔
      IgnoresArguments frame dot state first value after := by
  constructor
  · intro hrun
    rcases lastReceiver_or_fails hgiven hname with ⟨step, hreceiver⟩ | ⟨start, rfl⟩ | hfails
    · obtain ⟨name, hcommand⟩ := evalCommand_of_lastReceiver position hgiven hreceiver
      rw [hcommand, run_bind_fieldOf_given] at hrun
      obtain ⟨hmissing, rfl, hnull⟩ := hrun
      exact .ofNull hmissing hreceiver hnull
    · cases hrun
      exact .nameless
    · obtain ⟨error, reached, herror⟩ := hfails state
      rw [herror] at hrun
      cases hrun
  · intro hignores
    cases hignores with
    | ofNull hmissing hreceiver hnull =>
      obtain ⟨name, hcommand⟩ := evalCommand_of_lastReceiver position hgiven hreceiver
      rw [hcommand, run_bind_fieldOf_given]
      exact ⟨hmissing, rfl, hnull⟩
    | nameless => rfl

/-- A command that starts with anything but the name of a function, and has further operands or a
value passed on to it, fails; and if it does not, then it is a path whose last field is taken of
null, where a missing key gives null, or a field that names nothing. -/
theorem arguments_refused (hgiven : rest ≠ [] ∨ last ≠ none)
    (hname : ∀ start name, first ≠ .identifier start name) (state : State) :
    (∀ value after,
      (evalCommand frame dot last ⟨position, first :: rest⟩).run state = (.ok value, after) ↔
        IgnoresArguments frame dot state first value after) ∧
    ((∀ value after, ¬ IgnoresArguments frame dot state first value after) →
      ∃ error after,
        (evalCommand frame dot last ⟨position, first :: rest⟩).run state =
          (.error error, after)) := by
  have hflag : (!rest.isEmpty || last.isSome) = true := by
    rcases hgiven with hrest | hlast
    · simp [hrest]
    · simp [Option.isSome_iff_ne_none.mpr hlast]
  refine ⟨fun value after ↦ run_evalCommand_given hflag hname, fun hnone ↦ ?_⟩
  rcases hrun : (evalCommand frame dot last ⟨position, first :: rest⟩).run state with
    ⟨error | value, after⟩
  · exact ⟨error, after, rfl⟩
  · exact absurd ((run_evalCommand_given hflag hname).mp hrun) (hnone value after)

/-- A member of an object refuses an operand, and so does a member of a text, which has none. -/
theorem arguments_refused_member :
    let frame : Frame := ⟨⟨"page", "page", ⟨{}, []⟩⟩, {}, .default⟩
    let data : Value := .object [("a", .object [("b", .null)])]
    let first : Node := .field {} ["a", "b"]
    [Node.dot {}] ≠ [] ∧ (∀ start name, first ≠ .identifier start name) ∧
      ∃ error after,
        (evalCommand frame data none ⟨{}, [first, .dot {}]⟩).run ⟨Scope.initial data, {}⟩ =
          (.error error, after) := by
  intro frame data first
  have hrest : [Node.dot {}] ≠ [] := List.cons_ne_nil _ _
  have hname (start : Position) (name : String) : first ≠ .identifier start name := nofun
  refine ⟨hrest, hname, ?_⟩
  refine (@arguments_refused frame data first {} [.dot {}] none (.inl hrest) hname
    ⟨Scope.initial data, {}⟩).2 fun value after hignores ↦ ?_
  have hpath : first = .field {} (["a"] ++ ["b"]) := rfl
  rw [hpath] at hignores
  cases hignores with
  | ofNull _ hreceiver hnull =>
    generalize hfields : ["a"] ++ ["b"] = path at hreceiver
    cases hreceiver with
    | field =>
      obtain ⟨rfl, -⟩ := List.append_inj' hfields rfl
      cases hnull

/-- Null takes arguments for a member, be they operands or a value passed on, and is null. -/
theorem null_takes_arguments :
    let frame : Frame := ⟨⟨"page", "page", ⟨{}, []⟩⟩, {}, .default⟩
    let state : State := ⟨Scope.initial .null, {}⟩
    (evalCommand frame .null none ⟨{}, [.field {} ["a"], .bool {} true]⟩).run state =
        (.ok .null, state) ∧
      (evalCommand frame .null (some (.bool true)) ⟨{}, [.field {} ["a"]]⟩).run state =
        (.ok .null, state) :=
  ⟨rfl, rfl⟩

end Commands

end Arguments

end Stencil.Exec
