import Stencil.Syntax.Node
import Stencil.Unicode.WhiteSpace

/-!
# Named trees

A tree is a body with a name; it also knows the template in whose source it was found. A source
gives a set of trees, one for the source itself and one for each definition in it, kept in the order
in which their names first appear (`TreeSet`). Putting a tree into a set replaces the one of its
name where it stands (`TreeSet.insert`). Between trees of one name, one that holds nothing but
blanks and comments gives way to one that holds more (`TreeSet.merge`).
-/

set_option autoImplicit false
set_option relaxedAutoImplicit false

namespace Stencil.Syntax

/-- Whether a text holds nothing but white space. -/
def isBlankText (text : String) : Bool := text.toList.all Unicode.isWhiteSpace

/-- Whether a node leaves a body as good as empty. -/
def Node.isBlank : Node → Bool
  | .text _ content => isBlankText content
  | .comment .. => true
  | _ => false

/-- Whether a body holds nothing but white space and comments. -/
def Body.isEmpty (body : Body) : Bool := body.nodes.all Node.isBlank

/-- A named template. -/
structure Tree where
  name : String
  /-- The template whose source holds this one. -/
  parseName : String
  root : Body
deriving Inhabited

/-- Whether a tree holds nothing but white space and comments. -/
def Tree.isEmpty (tree : Tree) : Bool := tree.root.isEmpty

/-- Trees in the order in which their names first appeared. -/
structure TreeSet where
  trees : List Tree := []
deriving Inhabited

namespace TreeSet

/-- The tree of a name. -/
def find? (set : TreeSet) (name : String) : Option Tree :=
  set.trees.find? (·.name = name)

/-- The names in order. -/
def names (set : TreeSet) : List String := set.trees.map Tree.name

/-- The trees with `tree` in place of the one of its name, or at the end. -/
def put (tree : Tree) : List Tree → List Tree
  | [] => [tree]
  | other :: rest => if other.name = tree.name then tree :: rest else other :: put tree rest

/-- The set with a tree in place of the one of its name. -/
def insert (set : TreeSet) (tree : Tree) : TreeSet := ⟨put tree set.trees⟩

/-- Whether a tree of this name is there and holds more than white space and comments. -/
def hasContent (set : TreeSet) (name : String) : Bool :=
  (set.find? name).any (!·.isEmpty)

/-- The set with a tree, which is dropped if it is empty and one with content is there. -/
def merge (set : TreeSet) (tree : Tree) : TreeSet :=
  if tree.isEmpty && set.hasContent tree.name then set else set.insert tree

end TreeSet

end Stencil.Syntax
