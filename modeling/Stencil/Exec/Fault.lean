import Stencil.Function.Fault
import Stencil.Text.Diagnostic

/-!
# Why an execution fails

An execution fails at a node of a template, with a cause (`EvalFault`); the message tells the
template, the line, the node's canonical text and the wording of the cause. It also fails when the
template that it should start with is not there, and when the sink refuses a write.

Two causes are panics (`EvalFault.isPanic`): the process stops at the node, and no error is told. A
loop panics if memory cannot hold all of its rounds at once, and so does what looks for a variable
without a name.
-/

set_option autoImplicit false
set_option relaxedAutoImplicit false

namespace Stencil

/-- The greatest number of template invocations inside one another. -/
def maxInvocations : Nat := 1000

/-- The greatest number of rounds of a loop. They are all held at once, an index and an item of 32
bytes each for every round, and no piece of memory has `2 ^ 63` bytes. -/
def maxRounds : Nat := 0x7fffffffffffffff / 64

/-- What is wrong at a node. -/
inductive EvalFault
  | undefinedVariable (name : String)
  /-- A variable that has no name to look for. -/
  | namelessVariable
  | unknownStatement (node : String)
  /-- A loop over an integer that names an index as well. -/
  | integerLoop (count : Int)
  | notIterable (output : String)
  /-- A loop with more rounds than can be held. -/
  | tooManyRounds (count : Nat)
  | undefinedTemplate (name : String)
  | tooManyInvocations
  | emptyCommand
  /-- Arguments given to something that is no function. -/
  | notFunction (node : String)
  | nilCommand
  | unknownCommand (node : String)
  | unknownArgument (node : String)
  | emptyChain
  | nilChain (node : String)
  /-- Arguments given to a field. -/
  | fieldArguments (name : String)
  | missingKey (name : String)
  /-- A field of null. -/
  | nullData (name : String)
  /-- A field of a value that has none. -/
  | noFields (name type : String)
  | undefinedFunction (name : String)
  /-- A deciding function without any operand. -/
  | noOperands (fault : CallFault)
  | call (name : String) (fault : CallFault)
deriving DecidableEq, Repr

/-- The wording of a cause. -/
def EvalFault.message : EvalFault → String
  | undefinedVariable name => "undefined variable: " ++ name
  | namelessVariable => "index out of bounds: the len is 0 but the index is 0"
  | unknownStatement node => "unknown node: " ++ node
  | integerLoop count =>
    "can't use " ++ toString count ++ " to iterate over more than one variable"
  | notIterable output => "range can't iterate over " ++ output
  | tooManyRounds _ => "capacity overflow"
  | undefinedTemplate name => "template " ++ Diagnostic.quote name ++ " not defined"
  | tooManyInvocations =>
    "exceeded maximum template depth (" ++ toString maxInvocations ++ ")"
  | emptyCommand => "empty command"
  | notFunction node => "can't give argument to non-function " ++ node
  | nilCommand => "nil is not a command"
  | unknownCommand node => "can't evaluate command " ++ node
  | unknownArgument node => "can't handle " ++ node ++ " as an argument"
  | emptyChain => "chain has no fields"
  | nilChain node => "indirection through explicit nil in " ++ node
  | fieldArguments name => name ++ " is not a method but has arguments"
  | missingKey name => "map has no entry for key " ++ Diagnostic.quote name
  | nullData name => "nil data; no entry for key " ++ Diagnostic.quote name
  | noFields name type => "can't evaluate field " ++ name ++ " in type " ++ type
  | undefinedFunction name => Diagnostic.quote name ++ " is not a defined function"
  | noOperands fault => fault.message
  | call name fault => "error calling " ++ name ++ ": " ++ fault.message

/-- Whether a cause is a panic. -/
def EvalFault.isPanic : EvalFault → Bool
  | namelessVariable | tooManyRounds _ => true
  | _ => false

/-- A cause with the node at which it arose. -/
structure EvalError where
  /-- The template in whose source the node stands. -/
  parseName : String
  line : Nat
  /-- The template being executed. -/
  name : String
  /-- The canonical text of the node. -/
  node : String
  fault : EvalFault
deriving DecidableEq, Repr

/-- The whole message. That of a panic does not tell the node. -/
def EvalError.describe (e : EvalError) : String :=
  if e.fault.isPanic then e.fault.message
  else
    "template: " ++ e.parseName ++ ":" ++ toString e.line ++ ": executing " ++
      Diagnostic.quote e.name ++ " at <" ++ e.node ++ ">: " ++ e.fault.message

/-- Why an execution ended early. -/
inductive ExecError
  | eval (error : EvalError)
  /-- The template to start with is not in the set. -/
  | noTemplate (name set : String)
  /-- The sink refused a write. -/
  | sinkFull
deriving DecidableEq, Repr

/-- Whether an execution ended in a panic. -/
def ExecError.isPanic : ExecError → Bool
  | eval error => error.fault.isPanic
  | _ => false

/-- The whole message. -/
def ExecError.describe : ExecError → String
  | eval error => error.describe
  | noTemplate name set =>
    "template: no template " ++ Diagnostic.quote name ++ " associated with template " ++
      Diagnostic.quote set
  | sinkFull => "sink full"

end Stencil
