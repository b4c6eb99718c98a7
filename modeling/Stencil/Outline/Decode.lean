import Stencil.Outline.Node

/-!
# Outlines from data

An outline is read back from data member by member. Every field of a tag has to be there with its
own type, except that a pipeline, a base and a line may be null or absent; members that no field
asks for are passed over. A tag may be given by its place in the order of tags as well as by its
word, and an outline by an array of its name and its nodes as well as by an object.
-/

set_option autoImplicit false
set_option relaxedAutoImplicit false

namespace Stencil.Outline

/-- A text. -/
def text? : Value → Option String
  | .string text => some text
  | _ => none

/-- A truth value. -/
def bool? : Value → Option Bool
  | .bool value => some value
  | _ => none

/-- A number of bytes or lines: an unsigned integer of 64 bits. -/
def count? : Value → Option Nat
  | .int n => if Number.Word.isUnsigned n then some n.toNat else none
  | _ => none

/-- An array of texts. -/
def texts? : Value → Option (List String)
  | .array items => items.mapM text?
  | _ => none

/-- A tag, by its word or its place. -/
def Tag.ofValue? : Value → Option Tag
  | .string word => all.find? (·.word = word)
  | .int n => if 0 ≤ n then all[n.toNat]? else none
  | _ => none

/-- A count that may be null or absent. -/
def optionalCount? : Option Value → Option (Option Nat)
  | none => some none
  | some .null => some none
  | some value => (count? value).map some

mutual

/-- A node, if the data has the form of one. -/
def Node.ofValue? (value : Value) : Option Node := do
  let tag ← (value.member? "nodeType").bind Tag.ofValue?
  let offset ← (value.member? "pos").bind count?
  let line ← optionalCount? (value.member? "line")
  let kind ← Kind.ofValue? tag value
  return ⟨kind, offset, line⟩
termination_by (sizeOf value, 2)

/-- The fields of a tag, if the data has them. -/
def Kind.ofValue? (tag : Tag) (value : Value) : Option Kind :=
  match tag with
  | .text => ((value.member? "text").bind text?).map .text
  | .action => (optionalMember? value "pipe").map .action
  | .pipe => do
    let isAssign ← (value.member? "isAssign").bind bool?
    let declarations ← nodesMember? value "decl"
    let commands ← nodesMember? value "cmds"
    return .pipe isAssign declarations commands
  | .command => (nodesMember? value "args").map .command
  | .variable => ((value.member? "ident").bind texts?).map .variable
  | .identifier => ((value.member? "ident").bind texts?).map .identifier
  | .dot => some .dot
  | .nil => some .nil
  | .field => ((value.member? "ident").bind texts?).map .field
  | .chain => do
    let base ← optionalMember? value "node"
    let path ← (value.member? "field").bind texts?
    return .chain base path
  | .bool => ((value.member? "true").bind bool?).map .bool
  | .number => ((value.member? "text").bind text?).map .number
  | .string => ((value.member? "text").bind text?).map .string
termination_by (sizeOf value, 1)

/-- A member that is a node, null or absent. -/
def optionalMember? (value : Value) (name : String) : Option (Option Node) :=
  match _ : value.member? name with
  | none => some none
  | some .null => some none
  | some item => (Node.ofValue? item).map some
termination_by (sizeOf value, 0)
decreasing_by
  exact Prod.Lex.left _ _ (Value.sizeOf_member? (by assumption))

/-- A member that is an array of nodes. -/
def nodesMember? (value : Value) (name : String) : Option (List Node) :=
  match _ : value.member? name with
  | some (.array items) => Node.ofValues? items
  | _ => none
termination_by (sizeOf value, 0)
decreasing_by
  have bound := Value.sizeOf_member? ‹value.member? name = some (.array items)›
  simp only [Value.array.sizeOf_spec] at bound
  apply Prod.Lex.left
  omega

/-- Nodes, if all the data have the form of one. -/
def Node.ofValues? (values : List Value) : Option (List Node) :=
  match values with
  | [] => some []
  | value :: rest => do
    let node ← Node.ofValue? value
    let nodes ← Node.ofValues? rest
    return node :: nodes
termination_by (sizeOf values, 0)

end

/-- An outline, if the data has the form of one. -/
def Tree.ofValue? (value : Value) : Option Tree :=
  match value with
  | .array [name, .array nodes] => do
    return ⟨← text? name, ← Node.ofValues? nodes⟩
  | _ => do
    let name ← (value.member? "name").bind text?
    let nodes ← nodesMember? value "nodes"
    return ⟨name, nodes⟩

end Stencil.Outline
