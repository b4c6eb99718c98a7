import Stencil.Outline.Node
import Stencil.Syntax.Node

/-!
# From a tree to its outline

The outline of a tree is built in one walk, which shows every node it builds to a visitor before its
children are built. The visitor may change the node, keep a state of its own, or refuse, which ends
the walk. Comments leave nothing behind and are not shown. A control structure, an invocation or a
loop control cannot be part of an outline and ends the walk as well (`Stop.unsupported`).
-/

set_option autoImplicit false
set_option relaxedAutoImplicit false

namespace Stencil.Outline

open Syntax (Position)

/-- A node of a tree that an outline has no place for. -/
structure Unsupported where
  kind : String
  position : Position
deriving DecidableEq, Repr

/-- The message about such a node. -/
def Unsupported.describe (found : Unsupported) : String :=
  "unsupported construct `" ++ found.kind ++ "` at line " ++ toString found.position.line ++
    ", offset " ++ toString found.position.offset

/-- Why a walk ended early. -/
inductive Stop (ε : Type)
  | unsupported (found : Unsupported)
  /-- The visitor refused a node. -/
  | refused (reason : ε)

/-- A step of a walk whose visitor keeps a state `σ` and refuses with reasons `ε`. -/
abbrev Walk (σ ε α : Type) : Type := ExceptT (Stop ε) (StateM σ) α

/-- What is shown the nodes of a tree with the nodes built of them. -/
abbrev Visitor (σ ε : Type) : Type := Syntax.Node → Node → ExceptT ε (StateM σ) Node

/-- A visitor that accepts every node as it is. -/
def Visitor.accepting {σ ε : Type} : Visitor σ ε := fun _ node => return node

/-- Shows a node to the visitor. -/
def present {σ ε : Type} (visitor : Visitor σ ε) (source : Syntax.Node) (node : Node) :
    Walk σ ε Node := fun state =>
  match (visitor source node).run state with
  | (.ok changed, after) => (.ok changed, after)
  | (.error reason, after) => (.error (.refused reason), after)

/-- A node of a kind at the position of its source. -/
def located (kind : Kind) (position : Position) : Node :=
  ⟨kind, position.offset, some position.line⟩

/-- Builds a node without children and shows it. -/
def leaf {σ ε : Type} (visitor : Visitor σ ε) (source : Syntax.Node) (kind : Kind) :
    Walk σ ε Node :=
  present visitor source (located kind source.position)

/-- An action with its pipeline in place. -/
def Node.withPipe (node pipe : Node) : Node :=
  match node.kind with
  | .action _ => { node with kind := .action (some pipe) }
  | _ => node

/-- A pipeline with its declarations and commands in place. -/
def Node.withStages (node : Node) (declarations commands : List Node) : Node :=
  match node.kind with
  | .pipe isAssign _ _ => { node with kind := .pipe isAssign declarations commands }
  | _ => node

/-- A command with its operands in place. -/
def Node.withOperands (node : Node) (operands : List Node) : Node :=
  match node.kind with
  | .command _ => { node with kind := .command operands }
  | _ => node

/-- A chain with its base and fields in place. -/
def Node.withBase (node : Node) (base : Option Node) (path : List String) : Node :=
  match node.kind with
  | .chain _ _ => { node with kind := .chain base path }
  | _ => node

/-- Builds the nodes of variables. -/
def walkVariables {σ ε : Type} (visitor : Visitor σ ε) :
    List Syntax.Variable → Walk σ ε (List Node)
  | [] => return []
  | reference :: rest => do
    let node ← leaf visitor (.var reference) (.variable reference.path)
    return node :: (← walkVariables visitor rest)

mutual

/-- Builds a node. A comment gives none. -/
def walkNode {σ ε : Type} (visitor : Visitor σ ε) : Syntax.Node → Walk σ ε (Option Node)
  | .comment .. => return none
  | .action position inner => do
    let node ← present visitor (.action position inner) (located (.action none) position)
    let pipe ← walkPipeline visitor inner
    return some (node.withPipe pipe)
  | .pipeline inner => return some (← walkPipeline visitor inner)
  | .command inner => return some (← walkCommand visitor inner)
  | .chain position base path => do
    let node ← present visitor (.chain position base path) (located (.chain none []) position)
    let built ← walkNode visitor base
    return some (node.withBase built path)
  | .text position text => return some (← leaf visitor (.text position text) (.text text))
  | .identifier position name =>
    return some (← leaf visitor (.identifier position name) (.identifier [name]))
  | .var reference => return some (← leaf visitor (.var reference) (.variable reference.path))
  | .dot position => return some (← leaf visitor (.dot position) .dot)
  | .nil position => return some (← leaf visitor (.nil position) .nil)
  | .field position path => return some (← leaf visitor (.field position path) (.field path))
  | .bool position value => return some (← leaf visitor (.bool position value) (.bool value))
  | .number literal => return some (← leaf visitor (.number literal) (.number literal.text))
  | .string position quoted text =>
    return some (← leaf visitor (.string position quoted text) (.string text))
  | node => throw (.unsupported ⟨node.kindName, node.position⟩)

/-- Builds a pipeline. -/
def walkPipeline {σ ε : Type} (visitor : Visitor σ ε) : Syntax.Pipeline → Walk σ ε Node
  | ⟨position, isAssign, targets, commands⟩ => do
    let node ← present visitor (.pipeline ⟨position, isAssign, targets, commands⟩)
      (located (.pipe isAssign [] []) position)
    let declarations ← walkVariables visitor targets
    let stages ← walkCommands visitor commands
    return node.withStages declarations stages

/-- Builds commands. -/
def walkCommands {σ ε : Type} (visitor : Visitor σ ε) :
    List Syntax.Command → Walk σ ε (List Node)
  | [] => return []
  | command :: rest => do
    let node ← walkCommand visitor command
    return node :: (← walkCommands visitor rest)

/-- Builds a command. -/
def walkCommand {σ ε : Type} (visitor : Visitor σ ε) : Syntax.Command → Walk σ ε Node
  | ⟨position, operands⟩ => do
    let node ← present visitor (.command ⟨position, operands⟩) (located (.command []) position)
    let built ← walkNodes visitor operands
    return node.withOperands built

/-- Builds nodes, leaving comments out. -/
def walkNodes {σ ε : Type} (visitor : Visitor σ ε) : List Syntax.Node → Walk σ ε (List Node)
  | [] => return []
  | node :: rest => do
    let built ← walkNode visitor node
    return built.toList ++ (← walkNodes visitor rest)

end

/-- The outline of a sequence of nodes under a name, with the visitor's last state. -/
def ofNodes {σ ε : Type} (visitor : Visitor σ ε) (state : σ) (name : String)
    (nodes : List Syntax.Node) : Except (Stop ε) Tree × σ :=
  match (walkNodes visitor nodes).run state with
  | (.ok built, after) => (.ok ⟨name, built⟩, after)
  | (.error stop, after) => (.error stop, after)

end Stencil.Outline
