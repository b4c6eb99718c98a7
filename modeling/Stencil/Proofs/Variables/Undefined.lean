import Stencil.Proofs.Execution.Faults
import Stencil.Proofs.Variables.Parsed

/-!
# Undefined variables

The parser refuses a variable that is not visible, and an execution fails at one that it does not
have. The second may happen although the first did not (`faultOf_undefinedVariable`): for a variable
that is assigned without a declaration, that is mentioned in the value it is declared with or in the
else part behind the body that declares it, or that is declared in an argument which is not
evaluated. `Sight` tells these places, and an execution fails nowhere else: where the variable is
mentioned that the error tells, the parser sees it and not every execution has it
(`execute_undefinedVariable`).
-/

set_option autoImplicit false
set_option relaxedAutoImplicit false

namespace Stencil.Exec

open Syntax

/-- That an error is the one at a place where a tree of a set mentions a variable, which the parser
sees there and not every execution has. -/
def TellsUnbound (functions : FunctionTable) (trees : TreeSet) (error : EvalError)
    (missing : String) : Prop :=
  ∃ tree ∈ trees.trees, ∃ mention ∈ tree.root.mentions functions .start,
    error = errorAt tree (.var mention.reference) (.undefinedVariable missing) ∧
      mention.reference.name? = some missing ∧ missing ∈ mention.sight.visible ∧
        missing ∉ mention.sight.bound

/-- An execution of a source that the parser accepts fails at a variable only where a tree of the
source mentions it, at a place where the parser sees it and not every execution has it. -/
theorem execute_undefinedVariable {name source : String} {delimiters : Delimiters}
    {functions : FunctionTable} {trees : TreeSet}
    (hparse : parse name delimiters functions.has source = .ok trees) (missingKey : MissingKey)
    {set entry : String} {limit : Option Nat} {data : Value} {error : EvalError}
    (herror : (execute ⟨trees, functions, missingKey⟩ set entry limit data).error =
      some (.eval error)) {missing : String}
    (hfault : error.fault = .undefinedVariable missing) :
    TellsUnbound functions trees error missing := by
  have hregular : AllowsRegular fun error ↦ ∀ missing, error.fault = .undefinedVariable missing →
      TellsUnbound functions trees error missing :=
    { data := fun _ _ _ hother missing hfault ↦ absurd hfault (hother missing)
      rounds := fun _ _ _ _ _ hfault ↦ nomatch hfault }
  refine execute_fault hregular (fun tree htree ↦ ⟨isFormed_of_parse hparse htree, ?_⟩) herror
    missing hfault
  rintro mention hmention name hname hbound _ ⟨⟩
  obtain ⟨_, hvisible, hseen⟩ := isVisible_of_parse hparse htree functions hmention
  obtain rfl := Option.some.inj (hseen.symm.trans hname)
  exact ⟨tree, htree, mention, hmention, rfl, hname, hvisible, hbound⟩

/-- The trees of a source whose else part mentions what its body declares. -/
def otherwiseTrees : TreeSet :=
  ⟨[⟨"page", "page", ⟨⟨0, 1⟩, [.branch .conditional ⟨4, 1⟩
    ⟨⟨4, 1⟩, false, [], [⟨⟨4, 1⟩, [.dot ⟨4, 1⟩]⟩]⟩
    ⟨⟨6, 1⟩, [.action ⟨7, 1⟩ ⟨⟨7, 1⟩, false, [⟨⟨7, 1⟩, ["$x"]⟩],
      [⟨⟨13, 1⟩, [.dot ⟨13, 1⟩]⟩]⟩]⟩
    (some ⟨⟨21, 1⟩, [.action ⟨22, 1⟩ ⟨⟨22, 1⟩, false, [],
      [⟨⟨22, 1⟩, [.var ⟨⟨22, 1⟩, ["$x"]⟩]⟩]⟩]⟩)]⟩⟩]⟩

/-- On null the else part runs, where the variable of the body is visible and not there. -/
theorem execute_undefinedVariable_otherwise :
    ∃ error, parse "page" Delimiters.brackets (FunctionTable.has {})
        "[if .][$x := .][else][$x][end]" = .ok otherwiseTrees ∧
      (execute ⟨otherwiseTrees, {}, .default⟩ "page" "page" none .null).error =
        some (.eval error) ∧
      error.fault = .undefinedVariable "$x" ∧
      TellsUnbound {} otherwiseTrees error "$x" := by
  have hparse : parse "page" Delimiters.brackets (FunctionTable.has {})
      "[if .][$x := .][else][$x][end]" = .ok otherwiseTrees := by
    cbv
  have herror : (execute ⟨otherwiseTrees, {}, .default⟩ "page" "page" none .null).error =
      some (.eval ⟨"page", 1, "page", "$x", .undefinedVariable "$x"⟩) := by
    cbv
  exact ⟨_, hparse, herror, rfl, execute_undefinedVariable hparse .default herror rfl⟩

/-- The fault with which a source between brackets fails on data, if it is accepted and fails with
one. -/
def faultOf (source : String) (data : Value) : Option EvalFault :=
  match parse "page" Delimiters.brackets (FunctionTable.has {}) source with
  | .error _ => none
  | .ok trees =>
    match (execute ⟨trees, {}, .default⟩ "page" "page" none data).error with
    | some (.eval error) => some error.fault
    | _ => none

/-- What the parser accepts may fail at a variable: at one that is only assigned, that is mentioned
in its own value or behind the body that declares it, and that is declared in an operand which
is not evaluated, be it of a function that decides early or of a field of null. -/
theorem faultOf_undefinedVariable :
    faultOf "[$x = .]" .null = some (.undefinedVariable "$x") ∧
      faultOf "[$x := $x]" .null = some (.undefinedVariable "$x") ∧
      faultOf "[if .][$x := .][else][$x][end]" .null = some (.undefinedVariable "$x") ∧
      faultOf "[and . ($x := .)][$x]" .null = some (.undefinedVariable "$x") ∧
      faultOf "[.A ($x := .)][$x]" .null = some (.undefinedVariable "$x") := by
  refine ⟨?_, ?_, ?_, ?_, ?_⟩
  · cbv
  · cbv
  · cbv
  · cbv
  · cbv

end Stencil.Exec
