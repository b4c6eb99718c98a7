import Stencil.Proofs.Grammar.Positions
import Stencil.Proofs.Lexing.Redelimiting
import Stencil.Syntax.Tree

/-!
# Trees without offsets

Two sources that differ in their delimiters give trees that differ in the offsets they record and in
nothing else. `Body.plain` is a body with every offset forgotten and every line kept, and two bodies
are the same up to offsets if their plain bodies are equal. What a tree says apart from offsets is
read off its plain tree: its canonical text (`Node.canonical_plain`), whether it is empty
(`Body.isEmpty_plain`) and what becomes of it in a set (`TreeSet.merge_plain`).
-/

set_option autoImplicit false
set_option relaxedAutoImplicit false

namespace Stencil.Syntax

/-! ### Forgetting offsets -/

/-- A variable without its offset. -/
abbrev Variable.plain (reference : Variable) : Variable := reference.mapPosition Position.plain

/-- A node without offsets. -/
abbrev Node.plain (node : Node) : Node := node.mapPosition Position.plain

/-- A pipeline without offsets. -/
abbrev Pipeline.plain (pipeline : Pipeline) : Pipeline := pipeline.mapPosition Position.plain

/-- A command without offsets. -/
abbrev Command.plain (command : Command) : Command := command.mapPosition Position.plain

/-- A body without offsets. -/
abbrev Body.plain (body : Body) : Body := body.mapPosition Position.plain

/-- A tree without offsets. -/
abbrev Tree.plain (tree : Tree) : Tree := tree.mapPosition Position.plain

/-- A set of trees without offsets. -/
abbrev TreeSet.plain (set : TreeSet) : TreeSet := set.mapPosition Position.plain

@[simp]
theorem Position.line_plain (position : Position) : position.plain.line = position.line := rfl

/-- A node keeps the line that it starts on. -/
theorem Node.position_plain (node : Node) : node.plain.position = node.position.plain := by
  cases node with
  | pipeline inner => cases inner; rfl
  | command inner => cases inner; rfl
  | _ => rfl

/-- A node has the same text without offsets. -/
theorem Node.canonical_plain (node : Node) : node.plain.canonical = node.canonical :=
  node.write_mapPosition Position.plain false

namespace TreeSet

/-- The tree of a name is found without offsets as well. -/
theorem find?_plain (set : TreeSet) (name : String) :
    set.plain.find? name = (set.find? name).map Tree.plain :=
  set.find?_mapPosition Position.plain name

/-- Trees are merged into a set without offsets as they are with them. -/
theorem foldl_merge_plain (trees : List Tree) (set : TreeSet) :
    (trees.map Tree.plain).foldl merge set.plain = (trees.foldl merge set).plain := by
  induction trees generalizing set with
  | nil => rfl
  | cons tree rest ih =>
    rw [List.map_cons, List.foldl_cons, List.foldl_cons, merge_mapPosition, ih]

end TreeSet

end Stencil.Syntax
