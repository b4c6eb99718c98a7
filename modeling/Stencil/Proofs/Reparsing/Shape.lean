import Stencil.Proofs.Grammar.Leaves
import Stencil.Proofs.Grammar.Positions

/-!
# What a canonical text can hold

Not every tree has a canonical text that is read as the tree. A text with a left brace in it may
start an action, the name of a template is written with the escapes of messages, and the parser goes
only so deep. `Node.Legible` and `Node.nesting` tell these limits of a tree.

Where a source defines a template, the text before the definition and the text behind it are two
nodes of the tree, between which the canonical text has nothing. `joinTexts` makes one node of
them.
-/

set_option autoImplicit false
set_option relaxedAutoImplicit false

namespace Stencil.Syntax

/-! ### Nesting -/

mutual

/-- How many bodies of control structures and pipelines in parentheses lie inside each other in a
node. -/
def Node.nesting : Node → Nat
  | .action _ inner => inner.nesting
  | .pipeline inner => inner.nesting + 1
  | .command inner => inner.nesting
  | .chain _ base _ => base.nesting
  | .branch _ _ head body otherwise =>
    max head.nesting (max (body.nesting + 1)
      (match otherwise with
      | none => 0
      | some other => other.nesting + 1))
  | .template _ _ argument =>
    match argument with
    | none => 0
    | some inner => inner.nesting
  | _ => 0

/-- The nesting of a pipeline that is not in parentheses itself. -/
def Pipeline.nesting : Pipeline → Nat
  | ⟨_, _, _, commands⟩ => Command.allNesting commands

/-- The greatest nesting of commands. -/
def Command.allNesting : List Command → Nat
  | [] => 0
  | command :: rest => max command.nesting (Command.allNesting rest)

/-- The nesting of a command. -/
def Command.nesting : Command → Nat
  | ⟨_, operands⟩ => Node.allNesting operands

/-- The greatest nesting of nodes in a row. -/
def Node.allNesting : List Node → Nat
  | [] => 0
  | node :: rest => max node.nesting (Node.allNesting rest)

/-- The nesting of a body, without the body itself. -/
def Body.nesting : Body → Nat
  | ⟨_, nodes⟩ => Node.allNesting nodes

end

/-! ### Legible leaves -/

/-- That a leaf can be written in a canonical text: a text holds no left brace, and the name of a
template no character but those of ASCII that can be seen, and the blank. -/
def Leaf.Legible : Leaf → Prop
  | .text _ value => '\x7b' ∉ value.toList
  | .template _ name => ∀ c ∈ name.toList, isMark c
  | _ => True

/-- That every text and every invocation in a node can be written. -/
def Node.Legible (node : Node) : Prop := ∀ leaf ∈ node.leaves, leaf.Legible

/-- That every text and every invocation in some nodes can be written. -/
def Node.AllLegible (nodes : List Node) : Prop := ∀ leaf ∈ Node.allLeaves nodes, leaf.Legible

/-- That every text and every invocation in a body can be written. -/
def Body.Legible (body : Body) : Prop := ∀ leaf ∈ body.leaves, leaf.Legible

theorem Node.allLegible_cons {node : Node} {rest : List Node} :
    Node.AllLegible (node :: rest) ↔ node.Legible ∧ Node.AllLegible rest := by
  simp [Node.AllLegible, Node.Legible, Node.allLeaves, or_imp, forall_and]

/-! ### Adjacent texts -/

/-- Whether a node is a stretch of text. -/
def Node.isText : Node → Bool
  | .text .. => true
  | _ => false

/-- That two nodes in a row are not both texts. -/
def Node.Apart (first second : Node) : Prop := first.isText = true → second.isText = false

/-- A node in front of others, joined with the first of these if both are texts. -/
def joinText (node : Node) (rest : List Node) : List Node :=
  match node, rest with
  | .text position first, .text _ second :: more => .text position (first ++ second) :: more
  | node, rest => node :: rest

/-- Nodes with one text in place of texts in a row. -/
def joinTexts : List Node → List Node
  | [] => []
  | node :: rest => joinText node (joinTexts rest)

example : joinTexts [.text {} "a", .text {} "b", .breakLoop {}, .text {} "c"] =
    [.text {} "ab", .breakLoop {}, .text {} "c"] := by
  rfl

/-- A node is joined with a text behind it, or stays as it is. -/
theorem joinText_cases (node : Node) (rest : List Node) :
    (∃ position first start second more, node = .text position first ∧
        rest = .text start second :: more ∧
        joinText node rest = .text position (first ++ second) :: more) ∨
      (joinText node rest = node :: rest ∧ ∀ second ∈ rest.head?, node.Apart second) := by
  unfold joinText
  split
  next position first start second more =>
    exact .inl ⟨position, first, start, second, more, rfl, rfl, rfl⟩
  next hnot =>
    refine .inr ⟨rfl, fun second hsecond htext ↦ ?_⟩
    cases rest with
    | nil => cases hsecond
    | cons other more =>
      cases hsecond
      cases node with
      | text position value =>
        cases second with
        | text start other => exact (hnot position value start other more rfl rfl).elim
        | _ => rfl
      | _ => cases htext

/-- Joined nodes have the same text. -/
theorem canonicals_joinTexts (nodes : List Node) :
    Node.canonicals (joinTexts nodes) = Node.canonicals nodes := by
  induction nodes with
  | nil => rfl
  | cons node rest ih =>
    rw [joinTexts, Node.canonicals, ← ih]
    rcases joinText_cases node (joinTexts rest) with
      ⟨position, first, start, second, more, rfl, hrest, hjoin⟩ | ⟨hjoin, _⟩
    · rw [hjoin, hrest]
      simp [Node.canonicals, Node.write, String.append_assoc]
    · rw [hjoin, Node.canonicals]

/-- Among joined nodes no text follows a text. -/
theorem isChain_joinTexts (nodes : List Node) : (joinTexts nodes).IsChain Node.Apart := by
  induction nodes with
  | nil => exact .nil
  | cons node rest ih =>
    rw [joinTexts]
    rcases joinText_cases node (joinTexts rest) with
      ⟨position, first, start, second, more, rfl, hrest, hjoin⟩ | ⟨hjoin, hapart⟩
    · rw [hjoin]
      rw [hrest, List.isChain_cons] at ih
      exact List.isChain_cons.mpr ih
    · rw [hjoin]
      exact List.isChain_cons.mpr ⟨hapart, ih⟩

/-- Joining texts does not change the nesting. -/
theorem allNesting_joinTexts (nodes : List Node) :
    Node.allNesting (joinTexts nodes) = Node.allNesting nodes := by
  induction nodes with
  | nil => rfl
  | cons node rest ih =>
    rw [joinTexts, Node.allNesting, ← ih]
    rcases joinText_cases node (joinTexts rest) with
      ⟨position, first, start, second, more, rfl, hrest, hjoin⟩ | ⟨hjoin, _⟩
    · rw [hjoin, hrest]
      simp [Node.allNesting, Node.nesting]
    · rw [hjoin, Node.allNesting]

/-- Joined texts are legible if the texts are. -/
theorem allLegible_joinTexts {nodes : List Node} (hlegible : Node.AllLegible nodes) :
    Node.AllLegible (joinTexts nodes) := by
  induction nodes with
  | nil => exact hlegible
  | cons node rest ih =>
    obtain ⟨hnode, hrest⟩ := Node.allLegible_cons.mp hlegible
    have hrest' := ih hrest
    rw [joinTexts]
    rcases joinText_cases node (joinTexts rest) with
      ⟨position, first, start, second, more, rfl, heq, hjoin⟩ | ⟨hjoin, _⟩
    · rw [hjoin]
      rw [heq, Node.allLegible_cons] at hrest'
      refine Node.allLegible_cons.mpr ⟨?_, hrest'.2⟩
      have hfirst : '\x7b' ∉ first.toList := hnode (.text position first) (by simp [Node.leaves])
      have hsecond : '\x7b' ∉ second.toList :=
        hrest'.1 (.text start second) (by simp [Node.leaves])
      intro leaf hleaf
      rw [Node.leaves, List.mem_singleton] at hleaf
      subst hleaf
      simp [Leaf.Legible, hfirst, hsecond]
    · rw [hjoin]
      exact Node.allLegible_cons.mpr ⟨hnode, hrest'⟩

end Stencil.Syntax
