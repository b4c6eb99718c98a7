import Stencil.Data.Value

/-!
# Outlines

An outline is the part of a template's tree that other tools work with: its name and its nodes, each
with a tag, the fields that belong to the tag, a byte offset and, where it is known, a line. Control
structures and comments have no place in it.

`Node.toValue` and `Tree.toValue` are the form of an outline as data, with the tag first, then the
fields of the tag in a fixed order, then the offset and the line. A pipeline, a base or a line that
is absent leaves its member out.
-/

set_option autoImplicit false
set_option relaxedAutoImplicit false

namespace Stencil.Outline

mutual

/-- A tag with its fields. -/
inductive Kind
  | text (text : String)
  | action (pipe : Option Node)
  | pipe (isAssign : Bool) (declarations commands : List Node)
  | command (operands : List Node)
  /-- The name of a variable and of the fields taken of it. -/
  | variable (path : List String)
  /-- The name of a function. -/
  | identifier (path : List String)
  | dot
  | nil
  | field (path : List String)
  /-- Fields taken of a base. -/
  | chain (base : Option Node) (path : List String)
  | bool (value : Bool)
  /-- A number as it is written. -/
  | number (text : String)
  | string (text : String)

/-- A node of an outline. -/
structure Node where
  kind : Kind
  offset : Nat
  line : Option Nat

end

instance : Inhabited Node := ⟨⟨.dot, 0, none⟩⟩

/-- The outline of a template. -/
structure Tree where
  name : String
  nodes : List Node
deriving Inhabited

/-! ### Tags -/

/-- The tags of nodes. -/
inductive Tag
  | text
  | action
  | pipe
  | command
  | variable
  | identifier
  | dot
  | nil
  | field
  | chain
  | bool
  | number
  | string
deriving DecidableEq, Repr

namespace Tag

/-- All tags, in order. -/
def all : List Tag :=
  [.text, .action, .pipe, .command, .variable, .identifier, .dot, .nil, .field, .chain, .bool,
    .number, .string]

/-- The word for a tag. -/
def word : Tag → String
  | .text => "TEXT"
  | .action => "ACTION"
  | .pipe => "PIPE"
  | .command => "COMMAND"
  | .variable => "VARIABLE"
  | .identifier => "IDENTIFIER"
  | .dot => "DOT"
  | .nil => "NIL"
  | .field => "FIELD"
  | .chain => "CHAIN"
  | .bool => "BOOL"
  | .number => "NUMBER"
  | .string => "STRING"

end Tag

/-- The tag of a kind. -/
def Kind.tag : Kind → Tag
  | .text _ => .text
  | .action _ => .action
  | .pipe .. => .pipe
  | .command _ => .command
  | .variable _ => .variable
  | .identifier _ => .identifier
  | .dot => .dot
  | .nil => .nil
  | .field _ => .field
  | .chain .. => .chain
  | .bool _ => .bool
  | .number _ => .number
  | .string _ => .string

/-- The tag of a node. -/
def Node.tag (node : Node) : Tag := node.kind.tag

/-- The children of a node: an action's pipeline, the declarations and then the commands of a
pipeline, the operands of a command, or the base of a chain. -/
def Node.children (node : Node) : List Node :=
  match node.kind with
  | .action pipe => pipe.toList
  | .pipe _ declarations commands => declarations ++ commands
  | .command operands => operands
  | .chain base _ => base.toList
  | _ => []

/-! ### As data -/

/-- Texts as an array. -/
def texts (path : List String) : Value := .array (path.map .string)

/-- A member, if it has a value. -/
def optional (name : String) (value : Option Value) : List (String × Value) :=
  value.toList.map (name, ·)

mutual

/-- The fields of a kind as members. -/
def Kind.members : Kind → List (String × Value)
  | .text text => [("text", .string text)]
  | .action pipe =>
    match pipe with
    | none => []
    | some node => [("pipe", node.toValue)]
  | .pipe isAssign declarations commands =>
    [("isAssign", .bool isAssign), ("decl", .array (Node.toValues declarations)),
      ("cmds", .array (Node.toValues commands))]
  | .command operands => [("args", .array (Node.toValues operands))]
  | .variable path => [("ident", texts path)]
  | .identifier path => [("ident", texts path)]
  | .dot => []
  | .nil => []
  | .field path => [("ident", texts path)]
  | .chain base path =>
    match base with
    | none => [("field", texts path)]
    | some node => [("node", node.toValue), ("field", texts path)]
  | .bool value => [("true", .bool value)]
  | .number text => [("text", .string text)]
  | .string text => [("text", .string text)]

/-- A node as data. -/
def Node.toValue : Node → Value
  | ⟨kind, offset, line⟩ =>
    .object (("nodeType", .string kind.tag.word) :: (kind.members ++
      ("pos", .int offset) :: optional "line" (line.map fun n => .int n)))

/-- Nodes as data. -/
def Node.toValues : List Node → List Value
  | [] => []
  | node :: rest => node.toValue :: Node.toValues rest

end

/-- An outline as data. -/
def Tree.toValue (tree : Tree) : Value :=
  .object [("name", .string tree.name), ("nodes", .array (Node.toValues tree.nodes))]

end Stencil.Outline
