import Stencil.Proofs.Execution.Coupling
import Stencil.Proofs.Grammar.Plain

/-!
# Executing does not look at offsets

An execution reads of a tree what it says apart from offsets: an error names a line and a canonical
text, and everything else that is written comes from texts, names and values. So a tree without
offsets takes the steps that the tree takes, which is one more coupling (`sameCoupling_holds`), and
two sets of trees that are the same up to offsets have the same outcome on every data
(`execute_plain`).
-/

set_option autoImplicit false
set_option relaxedAutoImplicit false

namespace Stencil.Exec

open Syntax

/-- Two executions that are in the same state, until both fail with the same error. -/
def sameCoupling : Coupling := .sameState Eq

/-- Coupled steps end alike in every state. -/
theorem run_eq_of_coupled {α : Type} {first second : Exec α}
    (hcoupled : Coupled sameCoupling 0 0 first second) (state : State) :
    second.run state = first.run state := by
  rcases hcoupled.run_sameState state with
    ⟨value, reached, hfirst, hsecond⟩ | ⟨error, _, reached, hfirst, hsecond, rfl⟩
  · rw [hfirst, hsecond]
  · rw [hfirst, hsecond]

/-! ### Templates -/

section Programs

variable (program : Program)

/-- A program whose trees have no offsets. -/
def Program.plain (program : Program) : Program := { program with trees := program.trees.plain }

/-- The basic steps in a tree without offsets are those in the tree. -/
theorem sameCoupling_holds (tree : Tree) :
    sameCoupling.Holds (program.frame tree) (program.plain.frame tree.plain) Position.plain := by
  refine Coupling.sameState_holds rfl rfl rfl fun node fault ↦ ?_
  have hcanonical := node.canonical_plain
  have hline := congrArg Position.line node.position_plain
  simp only [faultAt, errorAt, hcanonical, hline]
  rfl

/-- An execution has the same outcome without offsets. -/
theorem execute_plain (set name : String) (limit : Option Nat) (data : Value) :
    execute program.plain set name limit data = execute program set name limit data := by
  have htrees : program.plain.trees = program.trees.plain := rfl
  simp only [execute, htrees, TreeSet.find?_plain]
  cases program.trees.find? name with
  | none => rfl
  | some tree =>
    have hruns := runTree_coupled Coupling.sameState_sharesScope (sameCoupling_holds program tree)
      (invoker_coupled Coupling.sameState_sharesScope htrees (sameCoupling_holds program)
        maxInvocations) data
    simp only [Option.map_some, run_eq_of_coupled hruns]

end Programs

end Stencil.Exec
