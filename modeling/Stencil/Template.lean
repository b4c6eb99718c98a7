import Stencil.Exec.Walk
import Stencil.Syntax.Parse

/-!
# Templates

A template is a named set of trees with its delimiters, the functions it may call and the meaning of
a missing key. Parsing a source adds its trees to the set (`Template.parse`), a new tree taking the
place of an old one of its name unless it is empty and the old one is not. Executing writes the tree
of the template's own name, or of another name in the set (`Template.execute`).
-/

set_option autoImplicit false
set_option relaxedAutoImplicit false

namespace Stencil

open Syntax

/-- A named set of trees that can be executed. -/
structure Template where
  name : String
  delimiters : Delimiters := Delimiters.braces
  functions : FunctionTable := {}
  missingKey : MissingKey := .default
  trees : TreeSet := {}

namespace Template

/-- The template with the trees of a further source. -/
def parse (template : Template) (source : String) : Except ParseError Template := do
  let found ← Syntax.parse template.name template.delimiters template.functions.has source
  return { template with trees := found.trees.foldl TreeSet.merge template.trees }

/-- What an execution of the template needs. -/
def program (template : Template) : Exec.Program :=
  ⟨template.trees, template.functions, template.missingKey⟩

/-- Executes the tree of a name, by default the template's own, on data. A limit is the number of
bytes that the sink accepts. -/
def execute (template : Template) (data : Value) (entry : Option String) (limit : Option Nat) :
    Exec.Outcome :=
  Exec.execute template.program template.name (entry.getD template.name) limit data

/-- What executing the template on data writes. -/
def render (template : Template) (data : Value) : Except ExecError String :=
  let outcome := template.execute data none none
  match outcome.error with
  | none => .ok outcome.output
  | some error => .error error

end Template

end Stencil
