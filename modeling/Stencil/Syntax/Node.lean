import Stencil.Syntax.Number

/-!
# Parse trees

A template is a sequence of nodes (`Body`): text, comments, actions, control structures and
invocations of other templates. An action holds a pipeline (`Pipeline`): variables that it declares
or assigns, and commands of which each passes its value on to the next. A command (`Command`) is an
operand with its arguments. Every node records the position at which it starts.

Nodes are one type, although a parsed template holds statements and operands in different places, so
that a tree built by hand may hold any node anywhere. `Node.kindName` is the word for the kind of a
node, and `Body.isEmpty` says that a body holds nothing but blank text and comments.
-/

set_option autoImplicit false
set_option relaxedAutoImplicit false

namespace Stencil.Syntax

/-- A variable and the fields taken of it. The path starts with the variable's name. A tree that is
built by hand may hold a variable without one. -/
structure Variable where
  position : Position
  path : List String
deriving DecidableEq, Repr, Inhabited

/-- The name of a variable. -/
def Variable.name? (v : Variable) : Option String := v.path.head?

/-- The control structures. -/
inductive BranchKind
  | conditional
  | loop
  | context
deriving DecidableEq, Repr, Inhabited

/-- The keyword that starts a control structure. -/
def BranchKind.word : BranchKind → String
  | conditional => "if"
  | loop => "range"
  | context => "with"

mutual

/-- A node of a parse tree. -/
inductive Node
  | text (position : Position) (text : String)
  /-- A comment with its markers. -/
  | comment (position : Position) (text : String)
  | action (position : Position) (pipeline : Pipeline)
  /-- A pipeline between parentheses. -/
  | pipeline (pipeline : Pipeline)
  | command (command : Command)
  /-- The name of a function. -/
  | identifier (position : Position) (name : String)
  | var (reference : Variable)
  | dot (position : Position)
  | nil (position : Position)
  /-- Fields taken of the dot, one of the next. -/
  | field (position : Position) (path : List String)
  /-- Fields taken of a term. -/
  | chain (position : Position) (base : Node) (path : List String)
  | bool (position : Position) (value : Bool)
  | number (number : NumberLiteral)
  /-- A string as it is written and its value. -/
  | string (position : Position) (quoted : String) (text : String)
  | branch (kind : BranchKind) (position : Position) (pipeline : Pipeline) (body : Body)
      (otherwise : Option Body)
  /-- The invocation of a template. -/
  | template (position : Position) (name : String) (pipeline : Option Pipeline)
  | breakLoop (position : Position)
  | continueLoop (position : Position)

/-- Commands, each of which passes its value on, and the variables that take the last value. -/
structure Pipeline where
  position : Position
  isAssign : Bool
  targets : List Variable
  commands : List Command

/-- An operand and its arguments. -/
structure Command where
  position : Position
  operands : List Node

/-- A sequence of nodes. -/
structure Body where
  position : Position
  nodes : List Node

end

instance : Inhabited Node := ⟨.dot default⟩

instance : Inhabited Pipeline := ⟨⟨default, false, [], []⟩⟩

instance : Inhabited Command := ⟨⟨default, []⟩⟩

instance : Inhabited Body := ⟨⟨default, []⟩⟩

namespace Node

/-- Where a node starts. -/
def position : Node → Position
  | text position _ => position
  | comment position _ => position
  | action position _ => position
  | pipeline inner => inner.position
  | command inner => inner.position
  | identifier position _ => position
  | var reference => reference.position
  | dot position => position
  | nil position => position
  | field position _ => position
  | chain position _ _ => position
  | bool position _ => position
  | number literal => literal.position
  | string position _ _ => position
  | branch _ position _ _ _ => position
  | template position _ _ => position
  | breakLoop position => position
  | continueLoop position => position

/-- The word for the kind of a node. -/
def kindName : Node → String
  | text .. => "text"
  | comment .. => "comment"
  | action .. => "action"
  | pipeline .. => "pipe"
  | command .. => "command"
  | identifier .. => "identifier"
  | var .. => "variable"
  | dot .. => "dot"
  | nil .. => "nil"
  | field .. => "field"
  | chain .. => "chain"
  | bool .. => "bool"
  | number .. => "number"
  | string .. => "string"
  | branch kind .. => kind.word
  | template .. => "template"
  | breakLoop .. => "break"
  | continueLoop .. => "continue"

end Node

end Stencil.Syntax
