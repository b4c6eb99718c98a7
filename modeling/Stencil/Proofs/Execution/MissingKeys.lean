import Stencil.Proofs.Execution.Coupling
import Stencil.Template

/-!
# Missing keys

A template may be told to fail where a key is missing and where a field is taken of null
(`MissingKey.error`) instead of going on with null. Nothing else depends on it: an execution that
fails there writes first what the lenient one writes, and every other execution, be it successful or
not, is that of the lenient template (`execute_missingKey`).

The two executions are coupled by being in the same state (`lookupCoupling`). Only `fieldOf` looks
at the meaning of a missing key, so only a field has to be coupled by looking at it.
-/

set_option autoImplicit false
set_option relaxedAutoImplicit false

namespace Stencil

/-- Whether an error is about a key that is not there, or about a field of null. -/
def ExecError.isLookup : ExecError → Bool
  | .eval error =>
    match error.fault with
    | .missingKey _ | .nullData _ => true
    | _ => false
  | _ => false

namespace Exec

open Syntax

/-- Two executions that are in the same state until the first fails. If it fails in a lookup the
second may go on, and otherwise it fails with the same error. -/
def lookupCoupling : Coupling where
  relates := fun _ state other ↦ other = state
  failed := fun error state result other ↦
    if error.isLookup then state.sink.writes <:+ other.sink.writes
    else result = some error ∧ other = state
  relates_of_succ := id
  failed_later := by
    intro error first second after result hfailed hwrites
    split at hfailed
    next hlookup =>
      rw [if_pos hlookup]
      exact hfailed.trans hwrites
    next => exact absurd hfailed.1 nofun

theorem lookupCoupling_sharesScope : lookupCoupling.SharesScope where
  admits := fun _ ↦ trivial
  scope_eq := by
    intro count state other hsame
    exact congrArg State.scope hsame
  setScope := by
    intro count state other many scope hsame
    exact congrArg (fun state : State ↦ { state with scope := scope }) hsame

/-- A step that takes back nothing is coupled with itself. -/
theorem lookupCoupling_same {α : Type} {step : Exec α} {before after : Nat}
    (hwrites : ∀ state : State, state.sink.writes <:+ (step.run state).2.sink.writes) :
    Coupled lookupCoupling before after step step where
  writes := hwrites
  agrees := by
    intro more state other hsame
    obtain rfl : other = state := hsame
    rcases hrun : step.run other with ⟨error | value, reached⟩
    · change if error.isLookup then _ else _
      split
      · exact List.suffix_rfl
      · exact ⟨rfl, rfl⟩
    · exact ⟨reached, rfl, rfl⟩

/-- Of one tree, the strict frame and the lenient one are coupled. -/
theorem lookupCoupling_holds (tree : Tree) (functions : FunctionTable) :
    lookupCoupling.Holds ⟨tree, functions, .error⟩ ⟨tree, functions, .default⟩ id := by
  refine lookupCoupling_sharesScope.holds rfl ?_ ?_ fun text ↦
    lookupCoupling_same (emit_writes text)
  · intro count state other node fault hsame
    obtain rfl : other = state := hsame
    rw [Node.mapPosition_id]
    change if (faultAt _ node fault).isLookup then _ else _
    split
    · exact List.suffix_rfl
    · exact ⟨rfl, rfl⟩
  · intro node given receiver name
    rw [Node.mapPosition_id]
    have hlookup {fault : EvalFault}
        (hfault : (faultAt ⟨tree, functions, .error⟩ node fault).isLookup = true) :
        Coupled lookupCoupling 0 0 (fail ⟨tree, functions, .error⟩ node fault)
          (return Value.null) := by
      constructor
      · exact fun _ ↦ List.suffix_rfl
      · intro more state other hsame
        obtain rfl : other = state := hsame
        change if (faultAt _ node fault).isLookup then _ else _
        rw [if_pos hfault]
        exact List.suffix_rfl
    unfold fieldOf
    cases receiver with
    | object members =>
      dsimp only
      split
      · exact lookupCoupling_same fun _ ↦ List.suffix_rfl
      · cases Value.lookup name members with
        | none => exact hlookup rfl
        | some value => exact .pure value
    | null => exact hlookup rfl
    | _ => exact lookupCoupling_same fun _ ↦ List.suffix_rfl

/-- What was written first is the start of what is written in all. -/
theorem Sink.output_prefix {sink after : Sink} (hwrites : sink.writes <:+ after.writes) :
    sink.output.toList <+: after.output.toList := by
  obtain ⟨later, hlater⟩ := hwrites
  refine ⟨(String.join later.reverse).toList, ?_⟩
  rw [← String.toList_append, output, output, ← hlater, List.reverse_append, String.join_append]

/-- Of two programs whose lookups are coupled, the executions of a template. -/
theorem execute_lookups {strict lenient : Program} (htrees : lenient.trees = strict.trees)
    (hholds : ∀ tree, lookupCoupling.Holds (strict.frame tree) (lenient.frame tree) id)
    (set name : String) (limit : Option Nat) (data : Value) :
    match (execute strict set name limit data).error with
    | none => execute lenient set name limit data = execute strict set name limit data
    | some error =>
      if error.isLookup then
        (execute strict set name limit data).output.toList <+:
          (execute lenient set name limit data).output.toList
      else execute lenient set name limit data = execute strict set name limit data := by
  unfold execute
  rw [htrees]
  cases strict.trees.find? name with
  | none => rfl
  | some tree =>
    have hsame (tree : Tree) : lookupCoupling.Holds (strict.frame tree)
        (lenient.frame (tree.mapPosition id)) id := by
      rw [tree.mapPosition_id]
      exact hholds tree
    have hruns := runTree_coupled lookupCoupling_sharesScope (hsame tree)
      (invoker_coupled lookupCoupling_sharesScope (htrees.trans strict.trees.mapPosition_id.symm)
        hsame maxInvocations) data
    rw [tree.mapPosition_id] at hruns
    have hstart : lookupCoupling.relates (0 + 0) ⟨[], Sink.limited limit⟩
        ⟨[], Sink.limited limit⟩ := rfl
    have hagrees := hruns.agrees hstart
    dsimp only
    rcases hstrict : (runTree strict (invoker strict maxInvocations) tree data).run
      ⟨[], Sink.limited limit⟩ with ⟨error | value, after⟩
    · rw [hstrict] at hagrees
      change if error.isLookup then _ else _ at hagrees
      change if error.isLookup then _ else _
      rcases hlenient : (runTree lenient (invoker lenient maxInvocations) tree data).run
        ⟨[], Sink.limited limit⟩ with ⟨failure | value, reached⟩
      · rw [hlenient] at hagrees
        by_cases hlookup : error.isLookup
        · rw [if_pos hlookup] at hagrees ⊢
          exact Sink.output_prefix hagrees
        · rw [if_neg hlookup] at hagrees ⊢
          obtain ⟨⟨⟩, rfl⟩ := hagrees
          rfl
      · rw [hlenient] at hagrees
        by_cases hlookup : error.isLookup
        · rw [if_pos hlookup] at hagrees ⊢
          exact Sink.output_prefix hagrees
        · rw [if_neg hlookup] at hagrees
          exact absurd hagrees.1 nofun
    · rw [hstrict] at hagrees
      obtain ⟨reached, hlenient, rfl⟩ := hagrees
      rw [hlenient]

end Exec

open Exec

/-- The meaning of a missing key decides about lookups alone: an execution of a template that fails
at a missing key or at null writes the beginning of what the lenient template writes, and every
other execution has the outcome of the lenient one, with the same output and the same error. -/
theorem execute_missingKey (template : Template) (data : Value) (entry : Option String)
    (limit : Option Nat) :
    let strict := { template with missingKey := .error }.execute data entry limit
    let lenient := { template with missingKey := .default }.execute data entry limit
    match strict.error with
    | none => lenient = strict
    | some error =>
      if error.isLookup then strict.output.toList <+: lenient.output.toList
      else lenient = strict := by
  let strict : Program := ⟨template.trees, template.functions, .error⟩
  let lenient : Program := ⟨template.trees, template.functions, .default⟩
  have htrees : lenient.trees = strict.trees := rfl
  exact execute_lookups htrees (fun tree ↦ lookupCoupling_holds tree template.functions)
    template.name (entry.getD template.name) limit data

end Stencil
