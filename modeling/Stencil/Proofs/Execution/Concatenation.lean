import Stencil.Proofs.Execution.Coupling
import Stencil.Proofs.Execution.Invocations
import Stencil.Proofs.Execution.Loops

/-!
# Executing bodies one after the other

Two bodies that can be run alone can be run one after the other, and what they write is what they
write alone (`exists_runNodes_append`). When the second one starts, the variables of the first are
still there, and its output is. Beneath its own variables the second one sees the dollar sign alone,
though, and that is what it was at the start, since the first body neither declares nor assigns it.
Neither may invoke a template, for a template may be the one that both bodies are in.

What lies beneath an execution is its `Ground`. The execution on a ground is coupled with the one
without (`Ground.holds`): no name is found among the variables of the ground, because a name that is
not found without them fails there. A ground may also ask that the dollar sign keeps its value; then
the coupling admits all names but this one.
-/

set_option autoImplicit false
set_option relaxedAutoImplicit false

namespace Stencil.Exec

open Syntax

/-! ### Variables above others -/

namespace Scope

variable {scope below changed : Scope} {name : String} {value : Value}

theorem find?_append (scope below : Scope) (name : String) :
    Scope.find? (scope ++ below) name = (scope.find? name).or (below.find? name) := by
  simp only [find?, List.find?_append, Option.map_or]

theorem assign_append_of_some (hassign : scope.assign name value = some changed) :
    Scope.assign name value (scope ++ below) = some (changed ++ below) := by
  induction scope generalizing changed with
  | nil => cases hassign
  | cons slot rest ih =>
    rw [assign] at hassign
    rw [List.cons_append, assign]
    by_cases hslot : slot.1 = name
    · rw [if_pos hslot] at hassign ⊢
      cases hassign
      rfl
    · rw [if_neg hslot] at hassign ⊢
      obtain ⟨inner, hinner, rfl⟩ := Option.map_eq_some_iff.mp hassign
      rw [ih hinner]
      rfl

theorem assign_append_of_none (hassign : scope.assign name value = none) :
    Scope.assign name value (scope ++ below) = (below.assign name value).map (scope ++ ·) := by
  induction scope with
  | nil => simp
  | cons slot rest ih =>
    rw [assign] at hassign
    rw [List.cons_append, assign]
    by_cases hslot : slot.1 = name
    · rw [if_pos hslot] at hassign
      cases hassign
    · rw [if_neg hslot] at hassign ⊢
      rw [ih (Option.map_eq_none_iff.mp hassign), Option.map_map]
      rfl

theorem setAt_append {place : Nat} (hplace : place < scope.length) :
    Scope.setAt (scope ++ below) place value = scope.setAt place value ++ below := by
  induction scope generalizing place with
  | nil => cases hplace
  | cons slot rest ih =>
    cases place with
    | zero => rfl
    | succ place => exact congrArg (slot :: ·) (ih (Nat.lt_of_succ_lt_succ hplace))

/-- Of variables above others, as many are kept as are asked for beyond the others. -/
theorem keep_append (scope below : Scope) (count : Nat) :
    Scope.keep (scope ++ below) (count + below.length) = scope.keep count ++ below := by
  unfold keep
  have hcount : (scope ++ below).length - (count + below.length) = scope.length - count := by
    rw [List.length_append]
    omega
  rw [hcount, List.drop_append_of_le_length (Nat.sub_le _ _)]

end Scope

/-! ### The ground of an execution -/

/-- What lies beneath an execution: variables between its own and the dollar sign, what was written
before it, and the value that the dollar sign keeps, if it has to keep one. -/
structure Ground where
  below : Scope
  written : List String
  dollar : Option Value
  hidden : "$" ∉ below.names

/-- That two states have the same variables of their own and the same dollar sign, the first
without and the second with the ground. -/
structure Ground.Carries (ground : Ground) (own : Scope) (value : Value) (state other : State) :
    Prop where
  scope_eq : state.scope = own ++ [("$", value)]
  otherScope_eq : other.scope = own ++ (ground.below ++ [("$", value)])
  dollar : ∀ data ∈ ground.dollar, value = data ∧ "$" ∉ own.names
  room : state.sink.room = none
  otherRoom : other.sink.room = none
  writes_eq : other.sink.writes = state.sink.writes ++ ground.written

namespace Ground

variable {ground : Ground} {own : Scope} {value : Value} {state other : State}

/-- An execution without the ground and the one on it, as long as the first does not fail. -/
def coupling (ground : Ground) : Coupling where
  relates := fun count state other ↦
    ∃ own value, count ≤ own.length ∧ ground.Carries own value state other
  failed := fun _ _ _ _ ↦ True
  admits := fun name ↦ ground.dollar = none ∨ name ≠ "$"
  relates_of_succ := by
    rintro count state other ⟨own, value, hcount, hcarries⟩
    exact ⟨own, value, Nat.le_of_succ_le hcount, hcarries⟩
  failed_later := fun _ _ ↦ trivial

/-- To couple a step it is enough to look at where it does not fail. -/
theorem coupled {α : Type} {step otherStep : Exec α}
    (hwrites : ∀ state : State, state.sink.writes <:+ (otherStep.run state).2.sink.writes)
    (hok : ∀ {own : Scope} {value : Value} {state other : State} {result : α} {reached : State},
      ground.Carries own value state other → step.run state = (.ok result, reached) →
        ∃ own' value' otherReached, otherStep.run other = (.ok result, otherReached) ∧
          own.length ≤ own'.length ∧ ground.Carries own' value' reached otherReached) :
    Coupled ground.coupling 0 0 step otherStep where
  writes := hwrites
  agrees := by
    rintro more state other ⟨own, value, hcount, hcarries⟩
    rcases hrun : step.run state with ⟨error | result, reached⟩
    · trivial
    · obtain ⟨own', value', otherReached, hother, hlength, hreached⟩ := hok hcarries hrun
      exact ⟨otherReached, hother, own', value', hcount.trans hlength, hreached⟩

/-- Where a coupled step does not fail, the other one does not. -/
theorem exists_run {α : Type} {step otherStep : Exec α} {result : α} {reached : State}
    (hcoupled : Coupled ground.coupling 0 0 step otherStep)
    (hcarries : ground.Carries own value state other)
    (hrun : step.run state = (.ok result, reached)) :
    ∃ own' value' otherReached, otherStep.run other = (.ok result, otherReached) ∧
      ground.Carries own' value' reached otherReached := by
  have hrelates : ground.coupling.relates (0 + 0) state other :=
    ⟨own, value, Nat.zero_le _, hcarries⟩
  have hagrees := hcoupled.agrees hrelates
  rw [hrun] at hagrees
  obtain ⟨otherReached, hother, own', value', _, hreached⟩ := hagrees
  exact ⟨own', value', otherReached, hother, hreached⟩

/-- A fault is coupled with any fault. -/
theorem fail_coupled {α : Type} (first second : Frame) (node otherNode : Node)
    (fault otherFault : EvalFault) :
    Coupled ground.coupling 0 0 (fail (α := α) first node fault)
      (fail second otherNode otherFault) :=
  coupled (fun _ ↦ List.suffix_rfl) fun _ hrun ↦ by cases hrun

namespace Carries

/-- What a name means without the ground it means on it. -/
theorem find?_eq (hcarries : ground.Carries own value state other) {name : String} {found : Value}
    (hfind : state.scope.find? name = some found) : other.scope.find? name = some found := by
  rw [hcarries.scope_eq, Scope.find?_append] at hfind
  rw [hcarries.otherScope_eq, Scope.find?_append, Scope.find?_append]
  cases hown : own.find? name with
  | some inner => rwa [hown] at hfind
  | none =>
    rw [hown, Option.none_or] at hfind
    -- the name is that of the dollar sign, which is hidden by nothing
    have hname : name = "$" := by
      by_contra hother
      have hnone : Scope.find? [("$", value)] name = none :=
        Scope.find?_eq_none_iff.mpr (by simpa [Scope.names] using hother)
      rw [hnone] at hfind
      cases hfind
    have hbelow : ground.below.find? name = none :=
      Scope.find?_eq_none_iff.mpr (hname ▸ ground.hidden)
    rw [hbelow, Option.none_or, Option.none_or]
    exact hfind

/-- A variable that can be assigned without the ground is assigned on it. -/
theorem assign (hcarries : ground.Carries own value state other) {name : String}
    (hname : ground.coupling.admits name) {given : Value} {changed : Scope}
    (hassign : state.scope.assign name given = some changed) :
    ∃ own' value' otherChanged, other.scope.assign name given = some otherChanged ∧
      own.length ≤ own'.length ∧ ground.Carries own' value' { state with scope := changed }
        { other with scope := otherChanged } := by
  rw [hcarries.scope_eq] at hassign
  rw [hcarries.otherScope_eq]
  cases hown : own.assign name given with
  | some inner =>
    rw [Scope.assign_append_of_some hown] at hassign
    cases hassign
    have hnames := Scope.names_assign hown
    refine ⟨inner, value, _, Scope.assign_append_of_some hown, ?_, rfl, rfl, ?_, hcarries.room,
      hcarries.otherRoom, hcarries.writes_eq⟩
    · have hlength := congrArg List.length hnames
      simp only [Scope.names, List.length_map] at hlength
      exact hlength.ge
    · rw [hnames]
      exact hcarries.dollar
  | none =>
    rw [Scope.assign_append_of_none hown] at hassign
    rw [Scope.assign_append_of_none hown]
    by_cases hdollar : name = "$"
    · subst hdollar
      rw [Scope.assign_append_of_none (Scope.assign_eq_none_iff.mpr ground.hidden)]
      cases hassign
      have hfree : ground.dollar = none := hname.resolve_right fun hne ↦ hne rfl
      refine ⟨own, given, _, rfl, le_rfl, rfl, rfl, ?_, hcarries.room, hcarries.otherRoom,
        hcarries.writes_eq⟩
      intro data hdata
      rw [hfree] at hdata
      cases hdata
    · have hnone : Scope.assign name given [("$", value)] = none :=
        Scope.assign_eq_none_iff.mpr (by simpa [Scope.names] using hdollar)
      rw [hnone] at hassign
      cases hassign

/-- A variable that is declared stands above the ground. -/
theorem declare (hcarries : ground.Carries own value state other) {name : String}
    (hname : ground.coupling.admits name) (given : Value) :
    ground.Carries ((name, given) :: own) value
      { state with scope := (name, given) :: state.scope }
      { other with scope := (name, given) :: other.scope } := by
  refine ⟨congrArg (_ :: ·) hcarries.scope_eq, congrArg (_ :: ·) hcarries.otherScope_eq, ?_,
    hcarries.room, hcarries.otherRoom, hcarries.writes_eq⟩
  intro data hdata
  obtain ⟨hvalue, hown⟩ := hcarries.dollar data hdata
  have hother : name ≠ "$" := hname.resolve_left fun hfree ↦ by rw [hfree] at hdata; cases hdata
  exact ⟨hvalue, List.not_mem_cons_of_ne_of_not_mem hother.symm hown⟩

theorem setAt (hcarries : ground.Carries own value state other) {place : Nat}
    (hplace : place < own.length) (given : Value) :
    ground.Carries (own.setAt place given) value
      { state with scope := state.scope.setAt place given }
      { other with scope := other.scope.setAt place given } := by
  refine ⟨?_, ?_, ?_, hcarries.room, hcarries.otherRoom, hcarries.writes_eq⟩
  · rw [hcarries.scope_eq, Scope.setAt_append hplace]
  · rw [hcarries.otherScope_eq, Scope.setAt_append hplace]
  · rw [Scope.names_setAt]
    exact hcarries.dollar

/-- The variables that are kept stand above the ground. -/
theorem keep (hcarries : ground.Carries own value state other) (count : Nat) :
    ground.Carries (own.keep count) value
      { state with scope := state.scope.keep (count + 1) }
      { other with scope := other.scope.keep (count + (ground.below.length + 1)) } := by
  refine ⟨?_, ?_, ?_, hcarries.room, hcarries.otherRoom, hcarries.writes_eq⟩
  · rw [hcarries.scope_eq]
    exact Scope.keep_append own [("$", value)] count
  · have hkeep := Scope.keep_append own (ground.below ++ [("$", value)]) count
    rw [List.length_append] at hkeep
    rw [hcarries.otherScope_eq]
    exact hkeep
  · intro data hdata
    obtain ⟨hvalue, hown⟩ := hcarries.dollar data hdata
    refine ⟨hvalue, fun hmem ↦ hown ?_⟩
    unfold Scope.names Scope.keep at hmem
    rw [List.map_drop] at hmem
    exact List.mem_of_mem_drop hmem

end Carries

/-! ### Coupled executions -/

/-- Of two frames with the same functions and the same meaning of a missing key, the execution on a
ground is coupled with the one without. -/
theorem holds (ground : Ground) {first second : Frame}
    (hfunctions : second.functions = first.functions)
    (hmissing : second.missingKey = first.missingKey) (place : Position → Position) :
    ground.coupling.Holds first second place where
  functions_eq := hfunctions
  fail := fun _ _ _ ↦ trivial
  field := fun _ given receiver name ↦
    fieldOf_coupled hmissing (fun _ ↦ fail_coupled ..) given receiver name
  read := by
    intro reference name hname
    have hmapped : (reference.mapPosition place).name? = some name := hname
    refine coupled (fun state ↦ ?_) fun {own value state other result reached} hcarries hrun ↦ ?_
    · rw [run_read state second hmapped]
      split <;> exact List.suffix_rfl
    · rw [run_read state first hname] at hrun
      split at hrun
      next found hfound =>
        cases hrun
        refine ⟨own, value, other, ?_, le_rfl, hcarries⟩
        rw [run_read other second hmapped, hcarries.find?_eq hfound]
      next => cases hrun
  assign := by
    intro target name given hname hadmits
    have hmapped : (target.mapPosition place).name? = some name := hname
    refine coupled (fun state ↦ ?_) fun {own value state other result reached} hcarries hrun ↦ ?_
    · rw [run_assign state second hmapped]
      split <;> exact List.suffix_rfl
    · rw [run_assign state first hname] at hrun
      split at hrun
      next changed hchanged =>
        cases hrun
        obtain ⟨own', value', otherChanged, hother, hlength, hreached⟩ :=
          hcarries.assign hadmits hchanged
        refine ⟨own', value', _, ?_, hlength, hreached⟩
        rw [run_assign other second hmapped, hother]
      next => cases hrun
  emit := by
    intro text
    refine coupled (emit_writes text) fun {own value state other result reached} hcarries hrun ↦ ?_
    rw [run_emit, Sink.write_of_room hcarries.room] at hrun
    cases hrun
    let written := if text = "" then [] else [text]
    refine ⟨own, value, { other with sink := ⟨written ++ other.sink.writes, none⟩ }, ?_, le_rfl,
      hcarries.scope_eq, hcarries.otherScope_eq, hcarries.dollar, rfl, rfl, ?_⟩
    · rw [run_emit, Sink.write_of_room hcarries.otherRoom]
    · change written ++ other.sink.writes = written ++ state.sink.writes ++ ground.written
      rw [hcarries.writes_eq, List.append_assoc]
  declare := by
    rintro count state other name given hname ⟨own, value, hcount, hcarries⟩
    exact ⟨(name, given) :: own, value, Nat.succ_le_succ hcount, hcarries.declare hname given⟩
  setAt := by
    rintro count place state other given hplace ⟨own, value, hcount, hcarries⟩
    refine ⟨_, value, ?_, hcarries.setAt (hplace.trans_le hcount) given⟩
    rw [Scope.setAt, List.length_modify]
    exact hcount
  keep := by
    rintro count state other reached otherReached ⟨own, value, hcount, hcarries⟩ hmore
    obtain ⟨own', value', hlength, hreached⟩ := hmore own.length ⟨own, value, le_rfl, hcarries⟩
    have hkept : (own'.keep own.length).length = own.length := by
      rw [Scope.keep, List.length_drop]
      omega
    refine ⟨own'.keep own.length, value', hcount.trans hkept.ge, ?_⟩
    have hcarried := hreached.keep own.length
    rw [hcarries.scope_eq, hcarries.otherScope_eq]
    simp only [List.length_append, List.length_singleton]
    exact hcarried

/-- Statements that can be run without a ground can be run on it, unless the ground asks that the
dollar sign keeps its value and the statements give it one. -/
theorem exists_runNodes (first second : Frame) (hfunctions : second.functions = first.functions)
    (hmissing : second.missingKey = first.missingKey) (place : Position → Position)
    {invoke otherInvoke : Invoker} {dot : Value} {nodes : List Node}
    (hdollar : ground.dollar = none ∨ "$" ∉ Node.allTargetNames nodes)
    (hinvoke : SameInvocations ground.coupling invoke otherInvoke (Node.allInvocations nodes))
    (hcarries : ground.Carries own value state other) {flow : Flow} {reached : State}
    (hrun : (runNodes first invoke dot nodes).run state = (.ok flow, reached)) :
    ∃ own' value' otherReached,
      (runNodes second otherInvoke dot (Node.mapPositions place nodes)).run other =
        (.ok flow, otherReached) ∧ ground.Carries own' value' reached otherReached := by
  have hadmits : ground.coupling.AdmitsAll (Node.allTargetNames nodes) := fun name hname ↦
    hdollar.imp_right fun hnot heq ↦ hnot (heq ▸ hname)
  have hholds := ground.holds hfunctions hmissing place
  exact exists_run (runNodes_coupled hholds dot nodes hadmits hinvoke) hcarries hrun

end Ground

/-! ### Bodies one after the other -/

section Append

variable {frame : Frame} {invoke : Invoker} {dot : Value}

/-- Statements in a row are run, and then those behind them, unless one of them leaves the body. -/
theorem runNodes_append (nodes others : List Node) :
    runNodes frame invoke dot (nodes ++ others) = do
      match ← runNodes frame invoke dot nodes with
      | .normal => runNodes frame invoke dot others
      | flow => return flow := by
  induction nodes with
  | nil => rfl
  | cons node rest ih =>
    rw [List.cons_append, runNodes, runNodes, bind_assoc]
    refine bind_congr fun flow ↦ ?_
    cases flow with
    | normal => exact ih
    | breaking | continuing => rfl

/-- The state at the start of an execution without a limit. -/
def State.start (data : Value) : State := ⟨Scope.initial data, Sink.limited none⟩

/-- Two bodies that can be run alone, without invocations, can be run one after the other, and what
they write is what they write alone.
Assumes: no break or continue leaves the first body, and it neither declares nor assigns the dollar
sign. -/
theorem exists_runNodes_append (frame first second : Frame)
    (hfirst : frame.functions = first.functions ∧ frame.missingKey = first.missingKey)
    (hsecond : frame.functions = second.functions ∧ frame.missingKey = second.missingKey)
    {data : Value} (place : Position → Position) {nodes others : List Node}
    {isFunction : String → Bool} (hformed : Node.AllStatements isFunction 0 nodes)
    (hdollar : "$" ∉ Node.allTargetNames nodes) {flow otherFlow : Flow} {after afterOther : State}
    (hrun : (runNodes first .refuse data nodes).run (.start data) = (.ok flow, after))
    (hrunOther :
      (runNodes second .refuse data others).run (.start data) = (.ok otherFlow, afterOther)) :
    ∃ final, (runNodes frame .refuse data (nodes ++ Node.mapPositions place others)).run
        (.start data) = (.ok otherFlow, final) ∧
      final.sink.output = after.sink.output ++ afterOther.sink.output := by
  have hsame {coupling : Coupling} {names : List String} :
      SameInvocations coupling .refuse .refuse names := fun name _ ↦ .refused _
  obtain rfl := (runNodes_leaves isFunction first .refuse data 0 nodes hformed).flow_eq hrun
  -- the first body runs as it does alone, and keeps the dollar sign
  let ground : Ground := ⟨[], [], some data, nofun⟩
  have hstart : ground.Carries [] data (.start data) (.start data) := by
    refine ⟨rfl, rfl, ?_, rfl, rfl, rfl⟩
    rintro _ ⟨⟩
    exact ⟨rfl, nofun⟩
  obtain ⟨own, value, between, hbetween, hcarries⟩ :=
    ground.exists_runNodes first frame hfirst.1 hfirst.2 id (.inr hdollar) hsame hstart hrun
  obtain ⟨hvalue, hhidden⟩ := hcarries.dollar data rfl
  rw [hvalue] at hcarries
  -- the second body runs on what the first one leaves
  let groundOther : Ground := ⟨own, after.sink.writes, none, hhidden⟩
  have hstartOther : groundOther.Carries [] data (.start data) between := by
    refine ⟨rfl, hcarries.otherScope_eq, nofun, rfl, hcarries.otherRoom, ?_⟩
    rw [hcarries.writes_eq]
    exact List.append_nil _
  obtain ⟨_, _, final, hfinal, hcarriesOther⟩ := groundOther.exists_runNodes second frame
    hsecond.1 hsecond.2 place (.inl rfl) hsame hstartOther hrunOther
  refine ⟨final, ?_, ?_⟩
  · rw [Node.mapPositions_id] at hbetween
    rw [runNodes_append, run_bind, hbetween]
    exact hfinal
  · rw [Sink.output, hcarriesOther.writes_eq, List.reverse_append, String.join_append]
    rfl

end Append

end Stencil.Exec
