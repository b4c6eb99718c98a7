import Stencil.Syntax.Item

/-!
# Why a source is refused

A source that breaks the grammar is refused with its first fault, in the order of its items. A fault
names what was found and the clause in which it stands; `ParseFault.message` is its wording, and
`ParseError.describe` adds the template and the line.
-/

set_option autoImplicit false
set_option relaxedAutoImplicit false

namespace Stencil.Syntax

/-- The parts of the grammar that messages name. -/
inductive Clause
  | input
  | command
  | operand
  | parenthesized
  | conditional
  | loop
  | context
  | otherwise
  | closing
  | template
  | block
  | definition
  | breakLoop
  | continueLoop
deriving DecidableEq, Repr

/-- The words for a part of the grammar. -/
def Clause.describe : Clause → String
  | input => "input"
  | command => "command"
  | operand => "operand"
  | parenthesized => "parenthesized pipeline"
  | conditional => "if"
  | loop => "range"
  | context => "with"
  | otherwise => "else"
  | closing => "end"
  | template => "template clause"
  | block => "block clause"
  | definition => "define clause"
  | breakLoop => "\x7b\x7bbreak\x7d\x7d"
  | continueLoop => "\x7b\x7bcontinue\x7d\x7d"

/-- What is wrong with a source. -/
inductive ParseFault
  /-- The source cannot be read; the line is that of the action it happens in, if it differs. -/
  | unreadable (message : String) (actionLine : Option Nat)
  | unexpected (item : Item) (clause : Clause)
  | unexpectedEnd
  | strayEnd
  | strayElse
  /-- An else where the end of a definition should stand. -/
  | elseIn (clause : Clause)
  /-- A second else. -/
  | repeatedElse
  | outsideLoop (clause : Clause)
  | tooDeep
  | redefined (name : String)
  | badLiteral (literal : String)
  | missingValue (clause : Clause)
  | notExecutable (stage : Nat)
  | loopVariablesOnly
  | tooManyDeclarations (clause : Clause)
  | emptyCommand
  | fieldOfLiteral (term : String)
  | unknownFunction (name : String)
  | undefinedVariable (name : String)
  | integerOverflow (text : String)
  | malformedNumber (text : String)
deriving DecidableEq, Repr

/-- Where an action started, as a message about a source that ends inside it says. A message that
itself ends with the word for an action does not repeat it. -/
def startedAt (message template : String) (line : Nat) : String :=
  let place := " started at " ++ template ++ ":" ++ toString line
  if " action".toList.isSuffixOf message.toList then place else " in action" ++ place

/-- The wording of a fault in the source of a template. -/
def ParseFault.message (template : String) : ParseFault → String
  | unreadable message none => message
  | unreadable message (some line) => message ++ startedAt message template line
  | unexpected item clause => "unexpected " ++ item.describe ++ " in " ++ clause.describe
  | unexpectedEnd => "unexpected EOF"
  | strayEnd => "unexpected \x7b\x7bend\x7d\x7d"
  | strayElse => "unexpected \x7b\x7belse\x7d\x7d"
  | elseIn clause => "unexpected \x7b\x7belse\x7d\x7d in " ++ clause.describe
  | repeatedElse => "expected end; found \x7b\x7belse\x7d\x7d"
  | outsideLoop clause => clause.describe ++ " outside \x7b\x7brange\x7d\x7d"
  | tooDeep => "max expression depth exceeded"
  | redefined name =>
    "template: multiple definition of template " ++ Diagnostic.quote name
  | badLiteral literal => "invalid syntax: " ++ literal
  | missingValue clause => "missing value for " ++ clause.describe
  | notExecutable stage => "non executable command in pipeline stage " ++ toString stage
  | loopVariablesOnly => "range can only initialize variables"
  | tooManyDeclarations clause => "too many declarations in " ++ clause.describe
  | emptyCommand => "empty command"
  | fieldOfLiteral term => "unexpected . after term " ++ Diagnostic.quote term
  | unknownFunction name => "function " ++ Diagnostic.quote name ++ " not defined"
  | undefinedVariable name => "undefined variable " ++ Diagnostic.quote name
  | integerOverflow text => "integer overflow: " ++ text
  | malformedNumber text => "illegal number syntax: " ++ Diagnostic.quote text

/-- The first fault of a source, with the template's name and the line. -/
structure ParseError where
  template : String
  line : Nat
  fault : ParseFault
deriving DecidableEq, Repr

/-- The wording of the fault alone. -/
def ParseError.detail (e : ParseError) : String := e.fault.message e.template

/-- The whole message. -/
def ParseError.describe (e : ParseError) : String :=
  "template: " ++ e.template ++ ":" ++ toString e.line ++ ": " ++ e.detail

end Stencil.Syntax
