import Stencil.Syntax.Node

/-!
# The canonical text of a tree

Every node has one text form. Operands are written as they would be in an action, one blank apart,
and statements between double braces, without trim markers. A pipeline that stands as an operand is
put in parentheses.
-/

set_option autoImplicit false
set_option relaxedAutoImplicit false

namespace Stencil.Syntax

/-- An action with the given text. -/
def braced (text : String) : String := "\x7b\x7b" ++ text ++ "\x7d\x7d"

/-- The fields of a path, each after a dot. -/
def pathText (path : List String) : String := String.join (path.map ("." ++ ·))

/-- A variable with its fields. -/
def Variable.canonical (v : Variable) : String := ".".intercalate v.path

/-- The variables of a pipeline with the sign that follows them. -/
def declarationText (isAssign : Bool) (targets : List Variable) : String :=
  if targets.isEmpty then ""
  else ", ".intercalate (targets.map Variable.canonical) ++ (if isAssign then " = " else " := ")

mutual

/-- The text of a node. As an operand, a pipeline is put in parentheses. -/
def Node.write (asOperand : Bool) : Node → String
  | .text _ text => text
  | .comment _ text => braced text
  | .action _ inner => braced inner.canonical
  | .pipeline inner => if asOperand then "(" ++ inner.canonical ++ ")" else inner.canonical
  | .command inner => inner.canonical
  | .identifier _ name => name
  | .var reference => reference.canonical
  | .dot _ => "."
  | .nil _ => "nil"
  | .field _ path => pathText path
  | .chain _ base path => base.write true ++ pathText path
  | .bool _ value => if value then "true" else "false"
  | .number literal => literal.text
  | .string _ quoted _ => quoted
  | .branch kind _ head body otherwise =>
    let rest :=
      match otherwise with
      | none => ""
      | some other => braced "else" ++ other.canonical
    braced (kind.word ++ " " ++ head.canonical) ++ body.canonical ++ rest ++ braced "end"
  | .template _ name argument =>
    match argument with
    | none => braced ("template " ++ Diagnostic.quote name)
    | some inner => braced ("template " ++ Diagnostic.quote name ++ " " ++ inner.canonical)
  | .breakLoop _ => braced "break"
  | .continueLoop _ => braced "continue"

/-- The canonical text of a pipeline, without parentheses. -/
def Pipeline.canonical : Pipeline → String
  | ⟨_, isAssign, targets, commands⟩ =>
    declarationText isAssign targets ++ " | ".intercalate (Command.canonicals commands)

/-- The canonical texts of commands. -/
def Command.canonicals : List Command → List String
  | [] => []
  | command :: rest => command.canonical :: Command.canonicals rest

/-- The canonical text of a command. -/
def Command.canonical : Command → String
  | ⟨_, operands⟩ => " ".intercalate (Node.operandTexts operands)

/-- The texts of nodes that stand as operands. -/
def Node.operandTexts : List Node → List String
  | [] => []
  | operand :: rest => operand.write true :: Node.operandTexts rest

/-- The canonical texts of a sequence of nodes, joined. -/
def Node.canonicals : List Node → String
  | [] => ""
  | node :: rest => node.write false ++ Node.canonicals rest

/-- The canonical text of a body. -/
def Body.canonical : Body → String
  | ⟨_, nodes⟩ => Node.canonicals nodes

end

/-- The canonical text of a node. -/
def Node.canonical (node : Node) : String := node.write false

end Stencil.Syntax
