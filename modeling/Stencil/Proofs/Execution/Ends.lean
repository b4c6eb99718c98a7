import Stencil.Proofs.Execution.Steps

/-!
# What an execution ends with

A step of an execution gives a value and a state, or it fails. `Ends` says of a step what is true of
its value and of the state behind it, and which errors it may fail with; a rule for each basic step
tells what has to be shown of it, so a fact about a whole run is put together along the run.

Faults are of three sorts: those about a tree that no parser builds (`EvalFault.isMalformed`), those
about a variable that is not there, and all others, which depend on the data. Fields, calls and the
rounds of a loop fail with the third sort alone (`fieldPath_ends`, `callFunction_ends`,
`loopItems_ends`), and a variable with the first two (`AllowsVariable`).
-/

set_option autoImplicit false
set_option relaxedAutoImplicit false

namespace Stencil

/-! ### Faults -/

/-- Whether a fault is about the tree itself: a node that stands where nothing evaluates it, a
command without operands, fields that are none or of an explicit nil, a name that no function has,
or a variable without a name. A lone nil is no such fault, for a template may say it. -/
def EvalFault.isMalformed : EvalFault → Bool
  | unknownStatement _ | emptyCommand | unknownCommand _ | unknownArgument _ | emptyChain
  | nilChain _ | undefinedFunction _ | namelessVariable => true
  | _ => false

namespace Exec

open Syntax

/-- That every error is allowed that is neither about the tree nor about a variable, be it one of
the data or of a loop with more rounds than can be held. -/
structure AllowsRegular (allowed : EvalError → Prop) : Prop where
  data : ∀ error : EvalError, error.fault.isMalformed = false → error.fault.isPanic = false →
    (∀ name, error.fault ≠ .undefinedVariable name) → allowed error
  rounds : ∀ (tree : Tree) (node : Node) {count : Nat}, maxRounds < count →
    allowed (errorAt tree node (.tooManyRounds count))

/-- That looking for a variable fails with what is allowed, where the names are those of the
variables that are there. -/
structure AllowsVariable (allowed : EvalError → Prop) (frame : Frame) (sought : Variable)
    (names : List String) : Prop where
  nameless : sought.name? = none → allowed (errorAt frame.tree (.var sought) .namelessVariable)
  undefined : ∀ name, sought.name? = some name → name ∉ names →
    allowed (errorAt frame.tree (.var sought) (.undefinedVariable name))

/-! ### Rules -/

section Rules

variable {α β : Type} {state : State} {ok other : α → State → Prop} {allowed : EvalError → Prop}

/-- That a step either ends with a value and a state of which something is true, or fails for the
sink or with an error that is allowed. -/
def Ends (step : Exec α) (state : State) (ok : α → State → Prop) (allowed : EvalError → Prop) :
    Prop :=
  match step.run state with
  | (.ok value, after) => ok value after
  | (.error (.eval error), _) => allowed error
  | (.error _, _) => True

namespace Ends

theorem pure {value : α} (hok : ok value state) : Ends (return value) state ok allowed := hok

/-- A step is followed by another, whose rule starts at the state in between. -/
theorem bind {first : Exec α} {next : α → Exec β} {ok : β → State → Prop}
    (hends : Ends first state (fun value after ↦ Ends (next value) after ok allowed) allowed) :
    Ends (first >>= next) state ok allowed := by
  unfold Ends at hends ⊢
  rw [run_bind]
  generalize first.run state = result at hends ⊢
  rcases result with ⟨(_ | _ | _) | value, after⟩
  · exact hends
  · trivial
  · trivial
  · exact hends

/-- What is true of a step's value and of the state behind it is true of those of a run. -/
theorem of_run {step : Exec α} {value : α} {after : State} (hends : Ends step state ok allowed)
    (hrun : step.run state = (.ok value, after)) : ok value after := by
  rwa [Ends, hrun] at hends

theorem mono {step : Exec α} (hends : Ends step state ok allowed)
    (himp : ∀ value after, ok value after → other value after) :
    Ends step state other allowed := by
  unfold Ends at hends ⊢
  generalize step.run state = result at hends ⊢
  rcases result with ⟨(_ | _ | _) | value, after⟩
  · exact hends
  · trivial
  · trivial
  · exact himp value after hends

/-- A step that is known to end well is followed by another. -/
theorem andThen {first : Exec α} {next : α → Exec β} {ok : β → State → Prop}
    (hfirst : Ends first state other allowed)
    (hnext : ∀ value after, other value after → Ends (next value) after ok allowed) :
    Ends (first >>= next) state ok allowed :=
  bind (hfirst.mono hnext)

theorem fail {frame : Frame} {node : Node} {fault : EvalFault}
    (hallowed : allowed (errorAt frame.tree node fault)) :
    Ends (α := α) (fail frame node fault) state ok allowed := hallowed

/-- What is written does not change the variables. -/
theorem emit {text : String} {ok : Unit → State → Prop}
    (hok : ∀ sink, ok () { state with sink := sink }) : Ends (emit text) state ok allowed := by
  unfold Ends
  rw [run_emit]
  cases state.sink.write text with
  | none => trivial
  | some sink => exact hok sink

theorem scope {ok : Scope → State → Prop} (hok : ok state.scope state) :
    Ends scope state ok allowed := hok

theorem setScope {inner : Scope} {ok : Unit → State → Prop}
    (hok : ok () { state with scope := inner }) : Ends (setScope inner) state ok allowed := hok

/-- Behind a step in a scope of its own, only the outermost variables are left. -/
theorem withScope {step : Exec α}
    (hends : Ends step state
      (fun value after ↦
        ok value { after with scope := after.scope.keep state.scope.length }) allowed) :
    Ends (withScope step) state ok allowed :=
  bind (scope (hends.andThen fun _ _ hok ↦ hok))

end Ends

end Rules

/-! ### Variables -/

/-- The names of variables, the innermost first. -/
def Scope.names (scope : Scope) : List String := scope.map Prod.fst

/-- A name has a value exactly if it is that of a variable. -/
theorem Scope.find?_eq_none_iff {scope : Scope} {name : String} :
    scope.find? name = none ↔ name ∉ scope.names := by
  rw [find?, Option.map_eq_none_iff, List.find?_eq_none, names, List.mem_map]
  constructor
  · rintro hnone ⟨slot, hslot, hname⟩
    exact hnone slot hslot (decide_eq_true hname)
  · intro hnot slot hslot hname
    exact hnot ⟨slot, hslot, of_decide_eq_true hname⟩

/-- A variable can be assigned exactly if it is there. -/
theorem Scope.assign_eq_none_iff {scope : Scope} {name : String} {value : Value} :
    scope.assign name value = none ↔ name ∉ scope.names := by
  induction scope with
  | nil => simp [assign, names]
  | cons slot rest ih =>
    by_cases hslot : slot.1 = name
    · simp [assign, names, hslot]
    · have hother : name ≠ slot.1 := fun heq ↦ hslot heq.symm
      simpa [assign, names, hslot, hother] using ih

/-- Assigning keeps the variables. -/
theorem Scope.names_assign {scope changed : Scope} {name : String} {value : Value}
    (hassign : scope.assign name value = some changed) : changed.names = scope.names := by
  induction scope generalizing changed with
  | nil => cases hassign
  | cons slot rest ih =>
    rw [assign] at hassign
    split at hassign
    next hslot =>
      cases hassign
      simp [names, hslot]
    next =>
      obtain ⟨inner, hinner, rfl⟩ := Option.map_eq_some_iff.mp hassign
      exact congrArg (slot.1 :: ·) (ih hinner)

/-- A new value at a place keeps the variables. -/
theorem Scope.names_setAt (scope : Scope) (place : Nat) (value : Value) :
    (scope.setAt place value).names = scope.names := by
  induction scope generalizing place with
  | nil => cases place <;> rfl
  | cons slot rest ih =>
    cases place with
    | zero => rfl
    | succ place => exact congrArg (slot.1 :: ·) (ih place)

/-- That the variables of a state are all there later, with newer ones in front of them. -/
def State.Grows (state after : State) : Prop := state.scope.names <:+ after.scope.names

theorem State.Grows.refl (state : State) : state.Grows state := List.suffix_rfl

theorem State.Grows.trans {state middle after : State} (hfirst : state.Grows middle)
    (hsecond : middle.Grows after) : state.Grows after :=
  List.IsSuffix.trans hfirst hsecond

theorem State.grows_of_eq {state after : State} (hnames : after.scope.names = state.scope.names) :
    state.Grows after :=
  ⟨[], hnames.symm⟩

/-- Behind a scope of its own the variables are those from before it. -/
theorem State.Grows.names_keep {state after : State} (hgrows : state.Grows after) :
    (after.scope.keep state.scope.length).names = state.scope.names := by
  obtain ⟨newer, hnewer⟩ := hgrows
  have hlength := congrArg List.length hnewer
  simp only [Scope.names, List.length_append, List.length_map] at hlength
  have hdrop : after.scope.length - state.scope.length = newer.length := by omega
  rw [Scope.keep, hdrop, Scope.names, List.map_drop]
  change after.scope.names.drop newer.length = _
  rw [← hnewer, List.drop_left]

section Variables

variable {frame : Frame} {state : State} {allowed : EvalError → Prop}

/-- The name of a variable is taken without a change, if it has one. -/
theorem nameOf_ends {sought : Variable}
    (hnameless : sought.name? = none →
      allowed (errorAt frame.tree (.var sought) .namelessVariable)) :
    Ends (nameOf frame sought) state
      (fun name after ↦ sought.name? = some name ∧ after = state) allowed := by
  unfold nameOf
  split
  next name hname => exact .pure ⟨hname, rfl⟩
  next hnone => exact .fail (hnameless hnone)

/-- Reading a variable fails only if it is not there, and changes nothing. -/
theorem read_ends {reference : Variable}
    (hallows : AllowsVariable allowed frame reference state.scope.names) :
    Ends (read frame reference) state (fun _ after ↦ after = state) allowed := by
  refine (nameOf_ends hallows.nameless).andThen ?_
  rintro name _ ⟨hname, rfl⟩
  refine .bind (.scope ?_)
  split
  next => exact .pure rfl
  next hnone => exact .fail (hallows.undefined name hname (Scope.find?_eq_none_iff.mp hnone))

/-- Assigning a variable fails only if it is not there, and keeps the variables. -/
theorem assign_ends {target : Variable} {value : Value}
    (hallows : AllowsVariable allowed frame target state.scope.names) :
    Ends (assign frame target value) state
      (fun _ after ↦ after.scope.names = state.scope.names) allowed := by
  refine (nameOf_ends hallows.nameless).andThen ?_
  rintro name _ ⟨hname, rfl⟩
  refine .bind (.scope ?_)
  split
  next changed hchanged => exact .setScope (Scope.names_assign hchanged)
  next hnone => exact .fail (hallows.undefined name hname (Scope.assign_eq_none_iff.mp hnone))

/-- Declaring a variable puts it in front. -/
theorem declare_ends {target : Variable} {value : Value}
    (hnameless : target.name? = none →
      allowed (errorAt frame.tree (.var target) .namelessVariable)) :
    Ends (declare frame target value) state
      (fun _ after ↦ ∃ name, target.name? = some name ∧
        after.scope.names = name :: state.scope.names) allowed := by
  refine (nameOf_ends hnameless).andThen ?_
  rintro name _ ⟨hname, rfl⟩
  exact .bind (.scope (.setScope ⟨name, hname, rfl⟩))

/-- Assigning the variables of a pipeline fails only if one of them is not there. -/
theorem bindVariables_assign_ends {value : Value} {targets : List Variable}
    (hallows : ∀ target ∈ targets, AllowsVariable allowed frame target state.scope.names) :
    Ends (bindVariables frame true value targets) state
      (fun _ after ↦ after.scope.names = state.scope.names) allowed := by
  induction targets generalizing state with
  | nil => exact .pure rfl
  | cons target rest ih =>
    rw [bindVariables]
    refine Ends.andThen (assign_ends (hallows target List.mem_cons_self)) fun _ middle hmiddle ↦ ?_
    refine (ih ?_).mono fun _ after hafter ↦ hafter.trans hmiddle
    intro other hother
    rw [hmiddle]
    exact hallows other (List.mem_cons_of_mem target hother)

/-- Declaring the variables of a pipeline puts them in front, the last one first. -/
theorem bindVariables_declare_ends {value : Value} {targets : List Variable}
    (hnameless : ∀ target ∈ targets, target.name? = none →
      allowed (errorAt frame.tree (.var target) .namelessVariable)) :
    Ends (bindVariables frame false value targets) state
      (fun _ after ↦ (∀ target ∈ targets, target.name? ≠ none) ∧
        after.scope.names = (targets.filterMap Variable.name?).reverse ++ state.scope.names)
      allowed := by
  induction targets generalizing state with
  | nil => exact .pure ⟨List.forall_mem_nil _, rfl⟩
  | cons target rest ih =>
    obtain ⟨htarget, hrest⟩ := List.forall_mem_cons.mp hnameless
    rw [bindVariables]
    refine (declare_ends htarget).andThen ?_
    rintro _ middle ⟨name, hname, hmiddle⟩
    refine (ih hrest).mono fun _ after ⟨hothers, hafter⟩ ↦ ⟨?_, ?_⟩
    · exact List.forall_mem_cons.mpr ⟨hname ▸ Option.some_ne_none name, hothers⟩
    · rw [hafter, hmiddle, List.filterMap_cons_some hname]
      simp

end Variables

/-! ### Fields, calls and items -/

section Regular

variable {frame : Frame} {state : State} {allowed : EvalError → Prop}

/-- A field changes nothing and fails for the data alone. -/
theorem fieldOf_ends (hregular : AllowsRegular allowed) (node : Node) (given : Bool)
    (receiver : Value) (name : String) :
    Ends (fieldOf frame node given receiver name) state (fun _ after ↦ after = state) allowed := by
  unfold fieldOf
  split
  · split
    · exact .fail (hregular.data _ rfl rfl nofun)
    · split
      · exact .pure rfl
      · exact .fail (hregular.data _ rfl rfl nofun)
      · exact .pure rfl
  · split
    · exact .fail (hregular.data _ rfl rfl nofun)
    · exact .pure rfl
  · exact .fail (hregular.data _ rfl rfl nofun)

/-- The fields of a path change nothing and fail for the data alone. -/
theorem fieldPath_ends (hregular : AllowsRegular allowed) (node : Node) (given : Bool)
    (receiver : Value) (path : List String) :
    Ends (fieldPath frame node given receiver path) state (fun _ after ↦ after = state)
      allowed := by
  induction path generalizing receiver with
  | nil => exact .pure rfl
  | cons name rest ih =>
    rw [fieldPath]
    refine (fieldOf_ends hregular node _ receiver name).andThen fun value _ hafter ↦ ?_
    rw [hafter]
    exact ih value

/-- A variable with fields changes nothing and fails for the data, unless it is not there. -/
theorem evalVariable_ends (hregular : AllowsRegular allowed) (given : Bool) (operand : Node)
    {reference : Variable}
    (hallows : AllowsVariable allowed frame reference state.scope.names) :
    Ends (evalVariable frame given operand reference) state (fun _ after ↦ after = state)
      allowed := by
  rw [evalVariable]
  refine (read_ends hallows).andThen fun value _ hafter ↦ ?_
  rw [hafter]
  split
  · split
    · exact .fail (hregular.data _ rfl rfl nofun)
    · exact .pure rfl
  · exact fieldPath_ends hregular _ _ _ _

/-- A call changes nothing and fails for its arguments alone. -/
theorem callFunction_ends (hregular : AllowsRegular allowed) (node : Node) (name : String)
    (function : Function) (arguments : List Value) :
    Ends (callFunction frame node name function arguments) state (fun _ after ↦ after = state)
      allowed := by
  unfold callFunction
  split
  · exact .pure rfl
  · exact .fail (hregular.data _ rfl rfl nofun)

/-- Rounds are collected without a change, unless they are too many. -/
theorem collect_ends (hregular : AllowsRegular allowed) (node : Node) (count : Nat)
    (rounds : Unit → List (Value × Value)) :
    Ends (collect frame node count rounds) state (fun _ after ↦ after = state) allowed := by
  unfold collect
  split
  next hmany => exact .fail (hregular.rounds _ node hmany)
  next => exact .pure rfl

/-- The rounds of a loop change nothing, and there are none for the data alone. -/
theorem loopItems_ends (hregular : AllowsRegular allowed) (node : Node) (targets : Nat)
    (value : Value) :
    Ends (loopItems frame node targets value) state (fun _ after ↦ after = state) allowed := by
  unfold loopItems
  split
  · exact collect_ends hregular _ _ _
  · exact collect_ends hregular _ _ _
  · exact .pure rfl
  · split
    · split
      · exact .fail (hregular.data _ rfl rfl nofun)
      · exact collect_ends hregular _ _ _
    · exact .fail (hregular.data _ rfl rfl nofun)

end Regular

end Exec

end Stencil
