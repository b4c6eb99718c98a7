import Stencil.Outline.Visit
import Stencil.Template

/-!
# Bracketed templates

Templates between single brackets are parsed for one of two purposes: to become an outline
(`Bracketed.outline`) or to be executed (`Bracketed.compile`). Both know the same functions.
-/

set_option autoImplicit false
set_option relaxedAutoImplicit false

namespace Stencil

open Syntax

/-- Why a source has no outline. -/
inductive OutlineError (ε : Type)
  | syntaxError (error : ParseError)
  | unsupported (found : Outline.Unsupported)
  /-- The visitor refused a node. -/
  | refused (reason : ε)

namespace OutlineError

/-- The reason of a walk that ended early. -/
def ofStop {ε : Type} : Outline.Stop ε → OutlineError ε
  | .unsupported found => unsupported found
  | .refused reason => refused reason

/-- The message, given that for a visitor's reason. -/
def describe {ε : Type} (reasonText : ε → String) : OutlineError ε → String
  | syntaxError error => error.describe
  | unsupported found => found.describe
  | refused reason => reasonText reason

/-- The visitor's reason, if it is one. -/
def reason? {ε : Type} : OutlineError ε → Option ε
  | refused reason => some reason
  | _ => none

end OutlineError

/-- How bracketed templates are parsed: with the functions of a table. -/
structure Bracketed where
  functions : FunctionTable := {}

namespace Bracketed

/-- The trees of a source. -/
def trees (bracketed : Bracketed) (name source : String) : Except ParseError TreeSet :=
  parse name Delimiters.brackets bracketed.functions.has source

/-- The template of a source, ready to be executed. -/
def compile (bracketed : Bracketed) (name source : String) : Except ParseError Template := do
  return {
    name := name
    delimiters := Delimiters.brackets
    functions := bracketed.functions
    trees := ← bracketed.trees name source }

/-- The outline of a source, shown to a visitor as it is built, with the visitor's last state. -/
def outlineWith {σ ε : Type} (bracketed : Bracketed) (visitor : Outline.Visitor σ ε) (state : σ)
    (name source : String) : Except (OutlineError ε) Outline.Tree × σ :=
  match bracketed.trees name source with
  | .error error => (.error (.syntaxError error), state)
  | .ok set =>
    let nodes := ((set.find? name).map (·.root.nodes)).getD []
    let (built, after) := Outline.ofNodes visitor state name nodes
    (built.mapError .ofStop, after)

/-- The outline of a source. -/
def outline (bracketed : Bracketed) (name source : String) :
    Except (OutlineError Empty) Outline.Tree :=
  (bracketed.outlineWith Outline.Visitor.accepting () name source).1

end Bracketed

end Stencil
