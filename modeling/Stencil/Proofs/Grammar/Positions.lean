import Stencil.Proofs.Grammar.Derivation

/-!
# Trees with other positions

`Node.mapPosition` puts another position in place of each that a node records and leaves the rest of
the node as it is. No position is part of a canonical text, so the text of a node does not depend on
them (`Node.write_mapPosition`), and neither does what the parser asks of a node that it has read.
Two nodes are the same up to positions if they are equal once every
position is forgotten (`Node.unplaced`).
-/

set_option autoImplicit false
set_option relaxedAutoImplicit false

namespace Stencil.Syntax

section MapPosition

variable (place : Position → Position)

/-- A variable with another position. -/
def Variable.mapPosition (reference : Variable) : Variable :=
  { reference with position := place reference.position }

/-- A number with another position. -/
def NumberLiteral.mapPosition (literal : NumberLiteral) : NumberLiteral :=
  { literal with position := place literal.position }

mutual

/-- A node with other positions. -/
def Node.mapPosition : Node → Node
  | .text position text => .text (place position) text
  | .comment position text => .comment (place position) text
  | .action position inner => .action (place position) inner.mapPosition
  | .pipeline inner => .pipeline inner.mapPosition
  | .command inner => .command inner.mapPosition
  | .identifier position name => .identifier (place position) name
  | .var reference => .var (reference.mapPosition place)
  | .dot position => .dot (place position)
  | .nil position => .nil (place position)
  | .field position path => .field (place position) path
  | .chain position base path => .chain (place position) base.mapPosition path
  | .bool position value => .bool (place position) value
  | .number literal => .number (literal.mapPosition place)
  | .string position quoted text => .string (place position) quoted text
  | .branch kind position head body otherwise =>
    .branch kind (place position) head.mapPosition body.mapPosition
      (match otherwise with
      | none => none
      | some other => some other.mapPosition)
  | .template position name argument =>
    .template (place position) name
      (match argument with
      | none => none
      | some inner => some inner.mapPosition)
  | .breakLoop position => .breakLoop (place position)
  | .continueLoop position => .continueLoop (place position)

/-- A pipeline with other positions. -/
def Pipeline.mapPosition : Pipeline → Pipeline
  | ⟨position, isAssign, targets, commands⟩ =>
    ⟨place position, isAssign, targets.map (Variable.mapPosition place),
      Command.mapPositions commands⟩

/-- Commands with other positions. -/
def Command.mapPositions : List Command → List Command
  | [] => []
  | command :: rest => command.mapPosition :: Command.mapPositions rest

/-- A command with other positions. -/
def Command.mapPosition : Command → Command
  | ⟨position, operands⟩ => ⟨place position, Node.mapPositions operands⟩

/-- Nodes in a row with other positions. -/
def Node.mapPositions : List Node → List Node
  | [] => []
  | node :: rest => node.mapPosition :: Node.mapPositions rest

/-- A body with other positions. -/
def Body.mapPosition : Body → Body
  | ⟨position, nodes⟩ => ⟨place position, Node.mapPositions nodes⟩

end

theorem Pipeline.position_mapPosition (pipeline : Pipeline) :
    (pipeline.mapPosition place).position = place pipeline.position := by
  cases pipeline
  rfl

theorem Node.mapPositions_eq_map (nodes : List Node) :
    Node.mapPositions place nodes = nodes.map (Node.mapPosition place) := by
  induction nodes with
  | nil => rfl
  | cons node rest ih => rw [Node.mapPositions, ih, List.map_cons]

theorem Command.mapPositions_eq_map (commands : List Command) :
    Command.mapPositions place commands = commands.map (Command.mapPosition place) := by
  induction commands with
  | nil => rfl
  | cons command rest ih => rw [Command.mapPositions, ih, List.map_cons]

mutual

/-- A node with its own positions is the node. -/
theorem Node.mapPosition_id : (node : Node) → node.mapPosition id = node
  | .text .. | .comment .. | .identifier .. | .var _ | .dot _ | .nil _ | .field .. | .bool ..
  | .number _ | .string .. | .breakLoop _ | .continueLoop _ => rfl
  | .action position inner => congrArg (Node.action position) inner.mapPosition_id
  | .pipeline inner => congrArg Node.pipeline inner.mapPosition_id
  | .command inner => congrArg Node.command inner.mapPosition_id
  | .chain position base path => congrArg (Node.chain position · path) base.mapPosition_id
  | .branch kind position head body none => by
    simp only [Node.mapPosition, head.mapPosition_id, body.mapPosition_id, id]
  | .branch kind position head body (some other) => by
    simp only [Node.mapPosition, head.mapPosition_id, body.mapPosition_id, other.mapPosition_id,
      id]
  | .template position name none => rfl
  | .template position name (some inner) =>
    congrArg (fun inner ↦ Node.template position name (some inner)) inner.mapPosition_id

theorem Pipeline.mapPosition_id : (pipeline : Pipeline) → pipeline.mapPosition id = pipeline
  | ⟨position, isAssign, targets, commands⟩ => by
    have htargets : targets.map (Variable.mapPosition id) = targets := List.map_id targets
    rw [Pipeline.mapPosition, htargets, Command.mapPositions_id commands, id]

theorem Command.mapPositions_id : (commands : List Command) →
    Command.mapPositions id commands = commands
  | [] => rfl
  | command :: rest => by
    rw [Command.mapPositions, command.mapPosition_id, Command.mapPositions_id rest]

theorem Command.mapPosition_id : (command : Command) → command.mapPosition id = command
  | ⟨position, operands⟩ => by rw [Command.mapPosition, Node.mapPositions_id operands, id]

theorem Node.mapPositions_id : (nodes : List Node) → Node.mapPositions id nodes = nodes
  | [] => rfl
  | node :: rest => by
    rw [Node.mapPositions, node.mapPosition_id, Node.mapPositions_id rest]

theorem Body.mapPosition_id : (body : Body) → body.mapPosition id = body
  | ⟨position, nodes⟩ => by rw [Body.mapPosition, Node.mapPositions_id nodes, id]

end

/-! ### Canonical texts -/

@[simp]
theorem Variable.canonical_mapPosition (reference : Variable) :
    (reference.mapPosition place).canonical = reference.canonical := rfl

theorem declarationText_mapPosition (isAssign : Bool) (targets : List Variable) :
    declarationText isAssign (targets.map (Variable.mapPosition place)) =
      declarationText isAssign targets := by
  simp [declarationText, Function.comp_def]

mutual

/-- A node has the same text with other positions. -/
theorem Node.write_mapPosition (asOperand : Bool) : (node : Node) →
    (node.mapPosition place).write asOperand = node.write asOperand
  | .text .. | .comment .. | .identifier .. | .var .. | .dot .. | .nil .. | .field .. | .bool ..
  | .number .. | .string .. | .breakLoop .. | .continueLoop .. => rfl
  | .action _ inner => by simp only [Node.mapPosition, Node.write, inner.canonical_mapPosition]
  | .pipeline inner => by simp only [Node.mapPosition, Node.write, inner.canonical_mapPosition]
  | .command inner => by simp only [Node.mapPosition, Node.write, inner.canonical_mapPosition]
  | .chain _ base _ => by simp only [Node.mapPosition, Node.write, base.write_mapPosition true]
  | .branch _ _ head body none => by
    simp only [Node.mapPosition, Node.write, head.canonical_mapPosition,
      body.canonical_mapPosition]
  | .branch _ _ head body (some other) => by
    simp only [Node.mapPosition, Node.write, head.canonical_mapPosition,
      body.canonical_mapPosition, other.canonical_mapPosition]
  | .template _ _ none => rfl
  | .template _ _ (some inner) => by
    simp only [Node.mapPosition, Node.write, inner.canonical_mapPosition]

/-- A pipeline has the same text with other positions. -/
theorem Pipeline.canonical_mapPosition : (pipeline : Pipeline) →
    (pipeline.mapPosition place).canonical = pipeline.canonical
  | ⟨_, _, _, commands⟩ => by
    simp only [Pipeline.mapPosition, Pipeline.canonical, declarationText_mapPosition,
      Command.canonicals_mapPositions commands]

/-- Commands have the same texts with other positions. -/
theorem Command.canonicals_mapPositions : (commands : List Command) →
    Command.canonicals (Command.mapPositions place commands) = Command.canonicals commands
  | [] => rfl
  | command :: rest => by
    simp only [Command.mapPositions, Command.canonicals, command.canonical_mapPosition,
      Command.canonicals_mapPositions rest]

/-- A command has the same text with other positions. -/
theorem Command.canonical_mapPosition : (command : Command) →
    (command.mapPosition place).canonical = command.canonical
  | ⟨_, operands⟩ => by
    simp only [Command.mapPosition, Command.canonical, Node.operandTexts_mapPositions operands]

/-- Operands have the same texts with other positions. -/
theorem Node.operandTexts_mapPositions : (operands : List Node) →
    Node.operandTexts (Node.mapPositions place operands) = Node.operandTexts operands
  | [] => rfl
  | operand :: rest => by
    simp only [Node.mapPositions, Node.operandTexts, operand.write_mapPosition true,
      Node.operandTexts_mapPositions rest]

/-- Nodes in a row have the same text with other positions. -/
theorem Node.canonicals_mapPositions : (nodes : List Node) →
    Node.canonicals (Node.mapPositions place nodes) = Node.canonicals nodes
  | [] => rfl
  | node :: rest => by
    simp only [Node.mapPositions, Node.canonicals, node.write_mapPosition false,
      Node.canonicals_mapPositions rest]

/-- A body has the same text with other positions. -/
theorem Body.canonical_mapPosition : (body : Body) →
    (body.mapPosition place).canonical = body.canonical
  | ⟨_, nodes⟩ => by
    simp only [Body.mapPosition, Body.canonical, Node.canonicals_mapPositions nodes]

end

/-! ### What the parser asks of nodes -/

namespace Parse

/-- Whether fields can be taken of a term does not depend on positions. -/
theorem hasFields_mapPosition (node : Node) :
    hasFields (node.mapPosition place) = hasFields node := by
  cases node <;> rfl

/-- Fields are taken of a term as they are of it with other positions. -/
theorem takeFields_mapPosition (base : Node) (position : Position) (names : List String) :
    (takeFields base position names).mapPosition place =
      takeFields (base.mapPosition place) (place position) names := by
  cases base <;> rfl

/-- Whether a node can be called does not depend on positions. -/
theorem isValueOnly_mapPosition (node : Node) :
    isValueOnly (node.mapPosition place) = isValueOnly node := by
  cases node <;> rfl

/-- Whether commands can be called does not depend on positions. -/
theorem valueStage?_mapPosition (stage : Nat) (commands : List Command) :
    valueStage? stage (commands.map (Command.mapPosition place)) = valueStage? stage commands := by
  induction commands generalizing stage with
  | nil => rfl
  | cons command rest ih =>
    have hhead : (command.mapPosition place).operands.head?.any isValueOnly =
        command.operands.head?.any isValueOnly := by
      obtain ⟨position, operands⟩ := command
      cases operands with
      | nil => rfl
      | cons first others => exact isValueOnly_mapPosition place first
    rw [List.map_cons, valueStage?, valueStage?, hhead, ih]

end Parse

/-! ### Sets of trees -/

/-- A tree with other positions. -/
def Tree.mapPosition (tree : Tree) : Tree := { tree with root := tree.root.mapPosition place }

/-- A set of trees with other positions. -/
def TreeSet.mapPosition (set : TreeSet) : TreeSet := ⟨set.trees.map (Tree.mapPosition place)⟩

theorem Tree.mapPosition_id (tree : Tree) : tree.mapPosition id = tree :=
  congrArg (Tree.mk tree.name tree.parseName) tree.root.mapPosition_id

theorem TreeSet.mapPosition_id (set : TreeSet) : set.mapPosition id = set :=
  congrArg TreeSet.mk ((List.map_congr_left fun tree _ ↦ tree.mapPosition_id).trans (List.map_id _))

theorem Node.isBlank_mapPosition (node : Node) :
    (node.mapPosition place).isBlank = node.isBlank := by
  cases node <;> rfl

/-- Whether a body holds anything does not depend on positions. -/
theorem Body.isEmpty_mapPosition (body : Body) :
    (body.mapPosition place).isEmpty = body.isEmpty := by
  obtain ⟨position, nodes⟩ := body
  simp only [Body.isEmpty, Body.mapPosition, Node.mapPositions_eq_map, List.all_map]
  congr 1
  exact funext (Node.isBlank_mapPosition place)

theorem Tree.isEmpty_mapPosition (tree : Tree) :
    (tree.mapPosition place).isEmpty = tree.isEmpty :=
  tree.root.isEmpty_mapPosition place

namespace TreeSet

/-- The tree of a name is found with other positions as well. -/
theorem find?_mapPosition (set : TreeSet) (name : String) :
    (set.mapPosition place).find? name = (set.find? name).map (Tree.mapPosition place) := by
  simp only [find?, mapPosition, List.find?_map]
  rfl

theorem hasContent_mapPosition (set : TreeSet) (name : String) :
    (set.mapPosition place).hasContent name = set.hasContent name := by
  simp only [hasContent, find?_mapPosition, Option.any_map]
  congr 1
  exact funext fun tree ↦ congrArg _ (tree.isEmpty_mapPosition place)

theorem put_mapPosition (tree : Tree) (trees : List Tree) :
    put (tree.mapPosition place) (trees.map (Tree.mapPosition place)) =
      (put tree trees).map (Tree.mapPosition place) := by
  induction trees with
  | nil => rfl
  | cons other rest ih =>
    simp only [List.map_cons, put, ih]
    by_cases hname : other.name = tree.name
    · rw [if_pos hname]
      exact if_pos hname
    · rw [if_neg hname]
      exact if_neg hname

/-- A tree is merged into a set with other positions as it is with its own. -/
theorem merge_mapPosition (set : TreeSet) (tree : Tree) :
    (set.mapPosition place).merge (tree.mapPosition place) =
      (set.merge tree).mapPosition place := by
  have hcontent : (set.mapPosition place).hasContent (tree.mapPosition place).name =
      set.hasContent tree.name :=
    set.hasContent_mapPosition place tree.name
  unfold merge
  rw [tree.isEmpty_mapPosition place, hcontent]
  split
  next => rfl
  next => exact congrArg TreeSet.mk (put_mapPosition place tree set.trees)

end TreeSet

end MapPosition

/-! ### Without positions -/

/-- A variable without its position. -/
def Variable.unplaced (reference : Variable) : Variable := reference.mapPosition fun _ ↦ {}

/-- A node without positions. -/
def Node.unplaced (node : Node) : Node := node.mapPosition fun _ ↦ {}

/-- A pipeline without positions. -/
def Pipeline.unplaced (pipeline : Pipeline) : Pipeline := pipeline.mapPosition fun _ ↦ {}

/-- A command without positions. -/
def Command.unplaced (command : Command) : Command := command.mapPosition fun _ ↦ {}

/-- A body without positions. -/
def Body.unplaced (body : Body) : Body := body.mapPosition fun _ ↦ {}

/-- A tree without positions. -/
def Tree.unplaced (tree : Tree) : Tree := tree.mapPosition fun _ ↦ {}

/-- A set of trees without positions. -/
def TreeSet.unplaced (set : TreeSet) : TreeSet := set.mapPosition fun _ ↦ {}

theorem Command.unplaced_mk (position : Position) (operands : List Node) :
    Command.unplaced ⟨position, operands⟩ = ⟨{}, operands.map Node.unplaced⟩ := by
  rw [Command.unplaced, Command.mapPosition, Node.mapPositions_eq_map]
  rfl

theorem Pipeline.unplaced_mk (position : Position) (isAssign : Bool) (targets : List Variable)
    (commands : List Command) :
    Pipeline.unplaced ⟨position, isAssign, targets, commands⟩ =
      ⟨{}, isAssign, targets.map Variable.unplaced, commands.map Command.unplaced⟩ := by
  rw [Pipeline.unplaced, Pipeline.mapPosition, Command.mapPositions_eq_map]
  rfl

theorem Body.unplaced_mk (position : Position) (nodes : List Node) :
    Body.unplaced ⟨position, nodes⟩ = ⟨{}, nodes.map Node.unplaced⟩ := by
  rw [Body.unplaced, Body.mapPosition, Node.mapPositions_eq_map]
  rfl

namespace Parse

theorem hasFields_unplaced (node : Node) : hasFields node.unplaced = hasFields node :=
  hasFields_mapPosition _ node

theorem takeFields_unplaced (base : Node) (position : Position) (names : List String) :
    (takeFields base position names).unplaced = takeFields base.unplaced {} names :=
  takeFields_mapPosition _ base position names

theorem valueStage?_unplaced (stage : Nat) (commands : List Command) :
    valueStage? stage (commands.map Command.unplaced) = valueStage? stage commands :=
  valueStage?_mapPosition _ stage commands

end Parse

/-- Nodes that are the same up to positions have the same text. -/
theorem Node.canonicals_congr {nodes others : List Node}
    (hsame : nodes.map Node.unplaced = others.map Node.unplaced) :
    Node.canonicals nodes = Node.canonicals others := by
  have htext (nodes : List Node) :
      Node.canonicals (nodes.map Node.unplaced) = Node.canonicals nodes := by
    have hmap := Node.canonicals_mapPositions (fun _ ↦ {}) nodes
    rwa [Node.mapPositions_eq_map] at hmap
  rw [← htext nodes, hsame, htext]

end Stencil.Syntax
