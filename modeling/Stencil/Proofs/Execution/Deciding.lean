import Mathlib.Data.List.Basic
import Stencil.Proofs.Execution.Steps

/-!
# Calls that may decide early

The operands of a call are evaluated in turn, each in the state that the one before it has left
(`InTurn`). An evaluation that stops at an operand has come as far as that one, and what stands
behind it is not evaluated at all (`AsFarAs`).

A call of `and` or `or` that no other function of the name takes the place of stops at the first
operand that decides the matter or fails, and if there is none it gives the value that was passed on
to it, or else that of its last operand (`ShortCircuits`). Any other function is called with all
values once they are there (`Applies`), also one that takes the place of `and` or `or`.
`deciding_call` says that a call does that and nothing else. Where no operand fails, the value is
the one that the function gives for all of them (`ShortCircuits.exists_call`), so the evaluation
that stops early differs in its effects alone.
-/

set_option autoImplicit false
set_option relaxedAutoImplicit false

namespace Stencil.Exec

open Syntax

/-! ### Operands in turn -/

section Operands

variable {frame : Frame} {dot : Value}

/-- That operands give values in turn, each in the state that the one before it has left. -/
inductive InTurn (frame : Frame) (dot : Value) : List Node → State → List Value → State → Prop
  | nil {state : State} : InTurn frame dot [] state [] state
  | cons {operand : Node} {rest : List Node} {state middle after : State} {value : Value}
      {values : List Value}
      (hoperand : (evalOperand frame dot operand).run state = (.ok value, middle))
      (hrest : InTurn frame dot rest middle values after) :
      InTurn frame dot (operand :: rest) state (value :: values) after

/-- That operands give values in turn up to one that ends with a result. Nothing is said of those
behind it. -/
inductive AsFarAs (frame : Frame) (dot : Value) :
    List Node → State → List Value → Except ExecError Value → State → Prop
  | intro {before behind : List Node} {operand : Node} {state middle after : State}
      {values : List Value} {result : Except ExecError Value}
      (hbefore : InTurn frame dot before state values middle)
      (hoperand : (evalOperand frame dot operand).run middle = (result, after)) :
      AsFarAs frame dot (before ++ operand :: behind) state values result after

/-- Operands all give values that let the evaluation go on, or one of them stops it: by its value or
by its failure. -/
theorem inTurn_or_asFarAs (goesOn : Value → Prop) [DecidablePred goesOn] (operands : List Node)
    (state : State) :
    (∃ values after, InTurn frame dot operands state values after ∧
      ∀ value ∈ values, goesOn value) ∨
    ∃ values result after, AsFarAs frame dot operands state values result after ∧
      (∀ value ∈ values, goesOn value) ∧ ∀ value, result = .ok value → ¬ goesOn value := by
  induction operands generalizing state with
  | nil => exact .inl ⟨[], state, .nil, List.forall_mem_nil _⟩
  | cons operand rest ih =>
    rcases hrun : (evalOperand frame dot operand).run state with ⟨error | value, middle⟩
    · exact .inr ⟨[], .error error, middle, @AsFarAs.intro _ _ [] rest _ _ _ _ _ _ .nil hrun,
        List.forall_mem_nil _, nofun⟩
    · by_cases hvalue : goesOn value
      · rcases ih middle with ⟨values, after, hrest, hvalues⟩ |
          ⟨values, result, after, hrest, hvalues, hresult⟩
        · exact .inl ⟨value :: values, after, .cons hrun hrest,
            List.forall_mem_cons.mpr ⟨hvalue, hvalues⟩⟩
        · refine .inr ⟨value :: values, result, after, ?_,
            List.forall_mem_cons.mpr ⟨hvalue, hvalues⟩, hresult⟩
          obtain ⟨hbefore, hoperand⟩ := hrest
          exact @AsFarAs.intro _ _ (operand :: _) _ _ _ _ _ _ _ (.cons hrun hbefore) hoperand
      · refine .inr ⟨[], .ok value, middle, @AsFarAs.intro _ _ [] rest _ _ _ _ _ _ .nil hrun,
          List.forall_mem_nil _, ?_⟩
        rintro _ ⟨⟩
        exact hvalue

/-- What the first operands of a row give does not depend on those behind them. -/
theorem InTurn.exists_append {before behind : List Node} {state middle after : State}
    {first values : List Value} (hbefore : InTurn frame dot before state first middle)
    (hall : InTurn frame dot (before ++ behind) state values after) :
    ∃ second, values = first ++ second ∧ InTurn frame dot behind middle second after := by
  induction hbefore generalizing values with
  | nil => exact ⟨values, rfl, hall⟩
  | cons hoperand _ ih =>
    cases hall with
    | cons hagain hrest =>
      rw [hoperand] at hagain
      cases hagain
      obtain ⟨second, rfl, hbehind⟩ := ih hrest
      exact ⟨second, rfl, hbehind⟩

/-- All operands are evaluated behind the first ones, from the state that these have left. -/
theorem InTurn.run_evalOperands_append {before : List Node} {state middle : State}
    {values : List Value} (hbefore : InTurn frame dot before state values middle)
    (behind : List Node) :
    (evalOperands frame dot (before ++ behind)).run state =
      ((evalOperands frame dot behind >>= fun more ↦ return values ++ more : Exec _).run
        middle) := by
  induction hbefore with
  | nil => simp
  | @cons operand rest state middle after value values hoperand _ ih =>
    rw [List.cons_append, evalOperands, run_bind, hoperand]
    dsimp only
    rw [run_bind, ih, run_bind, run_bind]
    rcases (evalOperands frame dot behind).run after with ⟨error | more, last⟩ <;> rfl

/-- The values of operands are those that they give in turn. -/
theorem InTurn.run_evalOperands {operands : List Node} {state after : State} {values : List Value}
    (hoperands : InTurn frame dot operands state values after) :
    (evalOperands frame dot operands).run state = (.ok values, after) := by
  have hrun := hoperands.run_evalOperands_append []
  rw [List.append_nil, run_bind] at hrun
  rw [hrun]
  change (Except.ok (values ++ []), after) = _
  rw [List.append_nil]

/-- Where none of the first operands decides, the evaluation goes on behind them with the last of
their values. -/
theorem InTurn.run_evalDeciding_append {stop : Bool} {before : List Node} {state middle : State}
    {values : List Value} (hbefore : InTurn frame dot before state values middle)
    (hvalues : ∀ value ∈ values, value.isTrue ≠ stop) (given : Value) (behind : List Node) :
    (evalDeciding frame dot stop given (before ++ behind)).run state =
      (evalDeciding frame dot stop (values.getLastD given) behind).run middle := by
  induction hbefore generalizing given with
  | nil => rfl
  | @cons operand rest state middle after value values hoperand _ ih =>
    obtain ⟨hvalue, hrest⟩ := List.forall_mem_cons.mp hvalues
    rw [List.cons_append, evalDeciding, run_bind, hoperand]
    dsimp only
    rw [if_neg hvalue, ih hrest, List.getLastD_cons]

/-- Where no operand decides, the evaluation ends with the last of their values. -/
theorem InTurn.run_evalDeciding {stop : Bool} {operands : List Node} {state after : State}
    {values : List Value} (hoperands : InTurn frame dot operands state values after)
    (hvalues : ∀ value ∈ values, value.isTrue ≠ stop) (given : Value) :
    (evalDeciding frame dot stop given operands).run state =
      (.ok (false, values.getLastD given), after) := by
  have hrun := hoperands.run_evalDeciding_append hvalues given []
  rwa [List.append_nil] at hrun

end Operands

/-! ### What a call does -/

section Calls

variable (frame : Frame) (dot : Value)

/-- That operands and a value passed on end with a result if the first operand of a given truth
decides: its value is the result, and without such an operand it is the value passed on, or else
that of the last operand. An operand that fails before that fails with its own error. -/
inductive ShortCircuits (stop : Bool) (last : Option Value) (operands : List Node)
    (state : State) : Except ExecError Value → State → Prop
  | decides {values : List Value} {value : Value} {after : State}
      (hoperand : AsFarAs frame dot operands state values (.ok value) after)
      (hvalues : ∀ other ∈ values, other.isTrue ≠ stop) (hvalue : value.isTrue = stop) :
      ShortCircuits stop last operands state (.ok value) after
  | fails {values : List Value} {error : ExecError} {after : State}
      (hoperand : AsFarAs frame dot operands state values (.error error) after)
      (hvalues : ∀ other ∈ values, other.isTrue ≠ stop) :
      ShortCircuits stop last operands state (.error error) after
  | passesOn {values : List Value} {value : Value} {after : State}
      (hoperands : InTurn frame dot operands state values after)
      (hvalues : ∀ other ∈ values, other.isTrue ≠ stop) (hlast : last = some value) :
      ShortCircuits stop last operands state (.ok value) after
  | givesLast {values : List Value} {value : Value} {after : State}
      (hoperands : InTurn frame dot operands state (values ++ [value]) after)
      (hvalues : ∀ other ∈ values ++ [value], other.isTrue ≠ stop) (hlast : last = none) :
      ShortCircuits stop last operands state (.ok value) after

/-- That operands and a value passed on end with a result if all operands are evaluated in turn and
a function is then called with all the values. An operand that fails before that fails with its own
error. -/
inductive Applies (node : Node) (name : String) (function : Function) (last : Option Value)
    (operands : List Node) (state : State) : Except ExecError Value → State → Prop
  | returns {values : List Value} {value : Value} {after : State}
      (hoperands : InTurn frame dot operands state values after)
      (hcall : function (values ++ last.toList) = .ok value) :
      Applies node name function last operands state (.ok value) after
  | refuses {values : List Value} {fault : CallFault} {after : State}
      (hoperands : InTurn frame dot operands state values after)
      (hcall : function (values ++ last.toList) = .error fault) :
      Applies node name function last operands state
        (.error (faultAt frame node (.call name fault))) after
  | fails {values : List Value} {error : ExecError} {after : State}
      (hoperand : AsFarAs frame dot operands state values (.error error) after) :
      Applies node name function last operands state (.error error) after

end Calls

section Results

variable {frame : Frame} {dot : Value} {stop : Bool} {last : Option Value} {operands : List Node}
  {state after : State} {result : Except ExecError Value}

/-- A call that may decide early has a result, as soon as it has an operand or a value passed on. -/
theorem exists_shortCircuits (stop : Bool) (state : State) (hgiven : operands ≠ [] ∨ last ≠ none) :
    ∃ result after, ShortCircuits frame dot stop last operands state result after := by
  rcases @inTurn_or_asFarAs frame dot (fun value ↦ value.isTrue ≠ stop) _ operands state with
    ⟨values, after, hoperands, hvalues⟩ | ⟨values, result, after, hoperand, hvalues, hstop⟩
  · cases last with
    | some value => exact ⟨.ok value, after, .passesOn hoperands hvalues rfl⟩
    | none =>
      rcases List.eq_nil_or_concat' values with rfl | ⟨front, value, rfl⟩
      · cases hoperands
        exact absurd (hgiven.resolve_left (fun h ↦ h rfl)) fun h ↦ h rfl
      · exact ⟨.ok value, after, .givesLast hoperands hvalues rfl⟩
  · cases result with
    | error error => exact ⟨.error error, after, .fails hoperand hvalues⟩
    | ok value => exact ⟨.ok value, after, .decides hoperand hvalues (not_not.mp (hstop value rfl))⟩

/-- The evaluation up to the operand that decides has the result that it should have. -/
theorem ShortCircuits.run_evalDeciding
    (hshort : ShortCircuits frame dot stop last operands state result after) :
    (evalDeciding frame dot stop .null operands >>= fun decision ↦
      (return if decision.1 then decision.2 else last.getD decision.2 : Exec Value)).run state =
        (result, after) := by
  rw [run_bind]
  cases hshort with
  | decides hoperand hvalues hvalue =>
    obtain ⟨hbefore, hoperand⟩ := hoperand
    rw [hbefore.run_evalDeciding_append hvalues, evalDeciding, run_bind, hoperand]
    dsimp only
    rw [if_pos hvalue]
    rfl
  | fails hoperand hvalues =>
    obtain ⟨hbefore, hoperand⟩ := hoperand
    rw [hbefore.run_evalDeciding_append hvalues, evalDeciding, run_bind, hoperand]
  | passesOn hoperands hvalues hlast =>
    rw [hoperands.run_evalDeciding hvalues, hlast]
    rfl
  | givesLast hoperands hvalues hlast =>
    rw [hoperands.run_evalDeciding hvalues, hlast, List.getLastD_concat]
    rfl

/-- A call of a function that never decides early has a result. -/
theorem exists_applies (node : Node) (name : String) (function : Function) (last : Option Value)
    (operands : List Node) (state : State) :
    ∃ result after, Applies frame dot node name function last operands state result after := by
  rcases @inTurn_or_asFarAs frame dot (fun _ ↦ True) _ operands state with
    ⟨values, after, hoperands, -⟩ | ⟨values, result, after, hoperand, -, hstop⟩
  · rcases hcall : function (values ++ last.toList) with fault | value
    · exact ⟨_, after, .refuses hoperands hcall⟩
    · exact ⟨_, after, .returns hoperands hcall⟩
  · cases result with
    | error error => exact ⟨_, after, .fails hoperand⟩
    | ok value => exact absurd trivial (hstop value rfl)

/-- The evaluation of all operands and the call behind it have the result that they should have. -/
theorem Applies.run_evalOperands {node : Node} {name : String} {function : Function}
    (happlies : Applies frame dot node name function last operands state result after) :
    (evalOperands frame dot operands >>= fun arguments ↦
      callFunction frame node name function (arguments ++ last.toList)).run state =
        (result, after) := by
  rw [run_bind]
  cases happlies with
  | returns hoperands hcall =>
    rw [hoperands.run_evalOperands]
    dsimp only
    rw [callFunction, hcall]
    rfl
  | refuses hoperands hcall =>
    rw [hoperands.run_evalOperands]
    dsimp only
    rw [callFunction, hcall]
    rfl
  | fails hoperand =>
    obtain ⟨hbefore, hoperand⟩ := hoperand
    rw [hbefore.run_evalOperands_append, run_bind, evalOperands, run_bind, hoperand]

end Results

/-! ### What a call gives -/

section Decisions

variable {builtin : Builtin} {stop : Bool}

/-- That a function decides at the first argument of a given truth: `and` where one is false, `or`
where one is true. -/
inductive DecidesAt : Builtin → Bool → Prop
  | and : DecidesAt .and false
  | or : DecidesAt .or true

theorem decidesAt_iff : DecidesAt builtin stop ↔ builtin.stopsAt = some stop := by
  constructor
  · intro hdecides
    cases hdecides <;> rfl
  · intro hstops
    cases builtin <;> cases hstops
    · exact .and
    · exact .or

theorem DecidesAt.ofName? (hdecides : DecidesAt builtin stop) :
    Builtin.ofName? builtin.name = some builtin := by
  cases hdecides <;> decide

/-- An argument is the first to decide if those before it do not and it does, or is the last. -/
theorem firstDeciding_eq {before behind rest : List Value} {first value : Value}
    (hsplit : first :: rest = before ++ value :: behind)
    (hbefore : ∀ other ∈ before, other.isTrue ≠ stop)
    (hvalue : value.isTrue = stop ∨ behind = []) :
    Builtin.firstDeciding stop first rest = value := by
  induction before generalizing first rest with
  | nil =>
    obtain ⟨rfl, rfl⟩ := List.cons.inj hsplit
    cases rest with
    | nil => rfl
    | cons next more => exact if_pos (hvalue.resolve_right (List.cons_ne_nil next more))
  | cons other before ih =>
    obtain ⟨rfl, hrest⟩ := List.cons.inj hsplit
    obtain ⟨hother, hbefore⟩ := List.forall_mem_cons.mp hbefore
    cases rest with
    | nil => exact absurd hrest.symm (List.append_ne_nil_of_right_ne_nil _ (List.cons_ne_nil _ _))
    | cons next more =>
      rw [Builtin.firstDeciding, if_neg hother]
      exact ih hrest hbefore

/-- The value of a call is the first argument that decides, or the last one. -/
theorem DecidesAt.call_eq (hdecides : DecidesAt builtin stop) {before behind : List Value}
    {value : Value} (hbefore : ∀ other ∈ before, other.isTrue ≠ stop)
    (hvalue : value.isTrue = stop ∨ behind = []) :
    builtin.call (before ++ value :: behind) = .ok value := by
  have hcall (first : Value) (rest : List Value) :
      builtin.call (first :: rest) = .ok (Builtin.firstDeciding stop first rest) := by
    cases hdecides <;> simp [Builtin.call, Builtin.arity?, Builtin.apply, Arity.allows]
  cases hsplit : before ++ value :: behind with
  | nil => exact absurd hsplit (List.append_ne_nil_of_right_ne_nil _ (List.cons_ne_nil _ _))
  | cons first rest => rw [hcall, firstDeciding_eq hsplit.symm hbefore hvalue]

/-- Where all operands give values, a call that may decide early gives the value that its function
gives for all of them. -/
theorem ShortCircuits.exists_call {frame : Frame} {dot : Value} {last : Option Value}
    {operands : List Node} {state after other : State} {result : Except ExecError Value}
    {values : List Value} (hdecides : DecidesAt builtin stop)
    (hshort : ShortCircuits frame dot stop last operands state result after)
    (hoperands : InTurn frame dot operands state values other) :
    ∃ value, result = .ok value ∧ builtin.call (values ++ last.toList) = .ok value := by
  cases hshort with
  | decides hoperand hvalues hvalue =>
    obtain ⟨hbefore, hoperand⟩ := hoperand
    obtain ⟨second, rfl, hbehind⟩ := hbefore.exists_append hoperands
    cases hbehind with
    | cons hagain hrest =>
      rw [hoperand] at hagain
      cases hagain
      refine ⟨_, rfl, ?_⟩
      rw [List.append_assoc, List.cons_append]
      exact hdecides.call_eq hvalues (.inl hvalue)
  | fails hoperand hvalues =>
    obtain ⟨hbefore, hoperand⟩ := hoperand
    obtain ⟨second, -, hbehind⟩ := hbefore.exists_append hoperands
    cases hbehind with
    | cons hagain hrest =>
      rw [hoperand] at hagain
      cases hagain
  | passesOn hagain hvalues hlast =>
    have hsame := hagain.run_evalOperands.symm.trans hoperands.run_evalOperands
    cases hsame
    subst hlast
    exact ⟨_, rfl, hdecides.call_eq hvalues (.inr rfl)⟩
  | givesLast hagain hvalues hlast =>
    have hsame := hagain.run_evalOperands.symm.trans hoperands.run_evalOperands
    cases hsame
    subst hlast
    refine ⟨_, rfl, ?_⟩
    rw [List.append_assoc]
    exact hdecides.call_eq (fun value hvalue ↦ hvalues value (List.mem_append_left _ hvalue))
      (.inr rfl)

/-- A call of a function that may decide early evaluates its operands up to the one that decides. -/
theorem evalCommand_deciding (frame : Frame) (dot : Value) (position start : Position)
    {name : String} {last : Option Value} {operands : List Node}
    (hresolve : frame.functions.resolve? name = some (.builtin builtin))
    (hdecides : DecidesAt builtin stop) (hgiven : operands ≠ [] ∨ last ≠ none) :
    evalCommand frame dot last ⟨position, .identifier start name :: operands⟩ =
      evalDeciding frame dot stop .null operands >>= fun decision ↦
        return if decision.1 then decision.2 else last.getD decision.2 := by
  have hguard : (operands.isEmpty && last.isNone) = false := by
    rcases hgiven with hoperands | hlast
    · rw [List.isEmpty_eq_false_iff.mpr hoperands, Bool.false_and]
    · rw [Option.isNone_eq_false_iff.mpr (Option.isSome_iff_ne_none.mpr hlast), Bool.and_false]
  rw [evalCommand, callNamed, hresolve]
  simp only [decidesAt_iff.mp hdecides, hguard]
  rfl

/-- A call of a function from outside evaluates all its operands. -/
theorem evalCommand_provided (frame : Frame) (dot : Value) (position start : Position)
    {name : String} {function : Function} (last : Option Value) (operands : List Node)
    (hresolve : frame.functions.resolve? name = some (.provided function)) :
    evalCommand frame dot last ⟨position, .identifier start name :: operands⟩ =
      evalOperands frame dot operands >>= fun arguments ↦
        callFunction frame (.identifier start name) name function (arguments ++ last.toList) := by
  rw [evalCommand, callNamed, hresolve]

/-- What is true of the results of a step and of no other pair is told by the step. -/
theorem run_eq_iff {α : Type} (step : Exec α) {state : State}
    {holds : Except ExecError α → State → Prop}
    (hsound : ∀ {result after}, holds result after → step.run state = (result, after))
    (htotal : ∃ result after, holds result after) (result : Except ExecError α) (after : State) :
    step.run state = (result, after) ↔ holds result after := by
  constructor
  · intro hrun
    obtain ⟨other, reached, hholds⟩ := htotal
    have hsame := (hsound hholds).symm.trans hrun
    cases hsame
    exact hholds
  · exact hsound

/-- A call of `and` or `or` with an operand or a value passed on evaluates its operands up to the
first one that decides or fails, and does nothing else, if no other function has taken the place of
its own. If all operands give values, it gives the value that its function gives for them and the
value passed on behind them. A function that has taken that place is called with the values of all
operands, each evaluated once and in turn. -/
theorem deciding_call {builtin : Builtin} {stop : Bool} (hdecides : DecidesAt builtin stop)
    (frame : Frame) (dot : Value) (position start : Position) (last : Option Value)
    (operands : List Node) (state : State) :
    (frame.functions.find? builtin.name = none → operands ≠ [] ∨ last ≠ none →
      (∀ result after,
        (evalCommand frame dot last ⟨position, .identifier start builtin.name :: operands⟩).run
            state = (result, after) ↔
          ShortCircuits frame dot stop last operands state result after) ∧
      ∀ values other, InTurn frame dot operands state values other →
        ∃ value after, builtin.call (values ++ last.toList) = .ok value ∧
          (evalCommand frame dot last ⟨position, .identifier start builtin.name :: operands⟩).run
            state = (.ok value, after)) ∧
    ∀ function, frame.functions.find? builtin.name = some function → ∀ result after,
      (evalCommand frame dot last ⟨position, .identifier start builtin.name :: operands⟩).run
          state = (result, after) ↔
        Applies frame dot (.identifier start builtin.name) builtin.name function last operands state
          result after := by
  constructor
  · intro hfree hgiven
    have hresolve : frame.functions.resolve? builtin.name = some (.builtin builtin) := by
      rw [FunctionTable.resolve?, hfree, hdecides.ofName?]
      rfl
    have hcommand := evalCommand_deciding frame dot position start hresolve hdecides hgiven
    have hrun := run_eq_iff
      (evalCommand frame dot last ⟨position, .identifier start builtin.name :: operands⟩)
      (fun hshort ↦ hcommand ▸ hshort.run_evalDeciding) (exists_shortCircuits stop state hgiven)
    refine ⟨hrun, fun values other hoperands ↦ ?_⟩
    obtain ⟨result, after, hshort⟩ := exists_shortCircuits stop state hgiven
    obtain ⟨value, rfl, hcall⟩ := hshort.exists_call hdecides hoperands
    exact ⟨value, after, hcall, (hrun _ _).mpr hshort⟩
  · intro function hfound
    have hresolve : frame.functions.resolve? builtin.name = some (.provided function) := by
      rw [FunctionTable.resolve?, hfound]
    have hcommand := evalCommand_provided frame dot position start last operands hresolve
    exact run_eq_iff _ (fun happlies ↦ hcommand ▸ happlies.run_evalOperands)
      (exists_applies _ _ function last operands state)

/-- Behind a false operand of `and` a variable that is not there does no harm. Where another
function has taken its place, the same operand is evaluated and fails. -/
theorem deciding_call_false :
    let tree : Tree := ⟨"page", "page", ⟨{}, []⟩⟩
    let count : Function := fun arguments ↦ .ok (.int arguments.length)
    let free : Frame := ⟨tree, {}, .default⟩
    let taken : Frame := ⟨tree, .ofList [("and", count)], .default⟩
    let state : State := ⟨Scope.initial .null, {}⟩
    let missing : Node := .var ⟨{}, ["$x"]⟩
    let call : Command := ⟨{}, [.identifier {} "and", .bool {} false, missing]⟩
    DecidesAt .and false ∧ free.functions.find? "and" = none ∧
      taken.functions.find? "and" = some count ∧
      (evalCommand free .null none call).run state = (.ok (.bool false), state) ∧
      (evalCommand taken .null none call).run state =
        (.error (faultAt taken missing (.undefinedVariable "$x")), state) := by
  intro tree count free taken state missing call
  have hfree : free.functions.find? "and" = none := rfl
  have htaken : taken.functions.find? "and" = some count := rfl
  have hgiven : [Node.bool {} false, missing] ≠ [] ∨ (none : Option Value) ≠ none :=
    .inl (List.cons_ne_nil _ _)
  have hfalse (frame : Frame) :
      (evalOperand frame .null (.bool {} false)).run state = (.ok (.bool false), state) := rfl
  refine ⟨.and, hfree, htaken, ?_, ?_⟩
  · refine (((deciding_call .and free .null {} {} none [.bool {} false, missing] state).1 hfree
      hgiven).1 _ _).mpr ?_
    exact .decides (@AsFarAs.intro _ _ [] _ _ _ _ _ _ _ .nil (hfalse free)) (List.forall_mem_nil _)
      rfl
  · refine ((deciding_call .and taken .null {} {} none [.bool {} false, missing] state).2 count
      htaken _ _).mpr ?_
    exact .fails
      (@AsFarAs.intro _ _ [.bool {} false] [] _ _ _ _ _ _ (.cons (hfalse taken) .nil) rfl)

end Decisions

end Stencil.Exec
