import Stencil.Proofs.Json.RoundTrip
import Stencil.Proofs.Outline.Additions

/-!
# Outlines on the wire

An outline whose places have 64 bits is written as a JSON text without blanks. The text is read back
as the data of the outline (`Tree.isWhole_toValue`), and these as the outline, so the text says all
there is to say about it. Its objects are those of the nodes in pre-order, each with the members
that belong to its node and no others (`objectsOf_toValue`, `Node.keys_members`).

The other direction starts from any data that are read as an outline. What is written of the outline
is read as the same one, and so are the data with any members that no field asks for
(`wire_round_trip`).
-/

set_option autoImplicit false
set_option relaxedAutoImplicit false

namespace Stencil.Outline

/-! ### The text and its objects -/

theorem isWord_of_isUnsigned {n : Nat} (hn : Number.Word.isUnsigned n) :
    Json.IsWord (n : Int) := by
  simp only [Number.Word.isUnsigned, Bool.and_eq_true, decide_eq_true_eq] at hn
  refine ⟨?_, hn.2⟩
  have hlimit : (0 : Int) ≤ Number.Word.signedLimit := Int.natCast_nonneg _
  omega

theorem isWhole_texts (path : List String) : Json.IsWhole (texts path) := by
  apply Json.IsWhole.array
  intro item hitem
  obtain ⟨name, -, rfl⟩ := List.mem_map.mp hitem
  exact .string name

theorem isWhole_toValues {nodes : List Node} (hnodes : ∀ node ∈ nodes, Json.IsWhole node.toValue) :
    Json.IsWhole (.array (Node.toValues nodes)) := by
  apply Json.IsWhole.array
  intro item hitem
  rw [toValues_eq_map] at hitem
  obtain ⟨node, hnode, rfl⟩ := List.mem_map.mp hitem
  exact hnodes node hnode

/-- The fields of a node are written as JSON that is read back if its children are. -/
theorem isWhole_fields (node : Node)
    (hchildren : ∀ child ∈ node.children, Json.IsWhole child.toValue) :
    ∀ member ∈ node.kind.members, Json.IsWhole member.2 := by
  obtain ⟨kind, offset, line⟩ := node
  cases kind with
  | action pipe =>
    cases pipe with
    | none => exact fun member hmember ↦ absurd hmember List.not_mem_nil
    | some node => exact List.forall_mem_singleton.mpr (hchildren node List.mem_cons_self)
  | pipe isAssign declarations commands =>
    simp only [Kind.members, List.forall_mem_cons]
    obtain ⟨hdeclarations, hcommands⟩ := List.forall_mem_append.mp hchildren
    exact ⟨.bool isAssign, isWhole_toValues hdeclarations, isWhole_toValues hcommands,
      fun member hmember ↦ absurd hmember List.not_mem_nil⟩
  | command operands => exact List.forall_mem_singleton.mpr (isWhole_toValues hchildren)
  | chain base path =>
    cases base with
    | none => exact List.forall_mem_singleton.mpr (isWhole_texts path)
    | some node =>
      simp only [Kind.members, List.forall_mem_cons]
      exact ⟨hchildren node List.mem_cons_self, isWhole_texts path,
        fun member hmember ↦ absurd hmember List.not_mem_nil⟩
  | text text | number text | string text => exact List.forall_mem_singleton.mpr (.string text)
  | «variable» path | identifier path | field path =>
    exact List.forall_mem_singleton.mpr (isWhole_texts path)
  | bool value => exact List.forall_mem_singleton.mpr (.bool value)
  | dot | nil => exact fun member hmember ↦ absurd hmember List.not_mem_nil

/-- The data of a node are written as JSON that is read back. -/
theorem isWhole_toValue (node : Node) (hplaced : node.Placed) : Json.IsWhole node.toValue := by
  obtain ⟨⟨hoffset, hline⟩, hchildren⟩ := node.placed_iff.mp hplaced
  have hfields : ∀ member ∈ node.kind.members, Json.IsWhole member.2 := by
    refine isWhole_fields node fun child hchild ↦ ?_
    have hsize := Node.sizeOf_of_mem_children hchild
    exact isWhole_toValue child (hchildren child hchild)
  rw [Node.toValue_eq]
  apply Json.IsWhole.object
  simp only [Node.members, List.forall_mem_cons, List.forall_mem_append]
  refine ⟨.string _, hfields, .int (isWord_of_isUnsigned hoffset), ?_⟩
  intro member hmember
  cases hknown : node.line with
  | none =>
    rw [hknown] at hmember
    exact absurd hmember List.not_mem_nil
  | some n =>
    rw [hknown] at hmember
    obtain rfl := List.mem_singleton.mp hmember
    exact .int (isWord_of_isUnsigned (hline n hknown))
termination_by sizeOf node

/-- The data of an outline are written as JSON that is read back. -/
theorem Tree.isWhole_toValue (tree : Tree) (hplaced : tree.Placed) :
    Json.IsWhole tree.toValue := by
  apply Json.IsWhole.object
  simp only [List.forall_mem_cons]
  exact ⟨.string _, isWhole_toValues fun node hnode ↦
    Outline.isWhole_toValue node (hplaced node hnode),
    fun member hmember ↦ absurd hmember List.not_mem_nil⟩

mutual

/-- The members of every object in some data, an object before what is inside it. -/
def objectsOf : Value → List (List (String × Value))
  | .array items => objectsOfItems items
  | .object members => members :: objectsOfMembers members
  | _ => []

/-- The members of every object in an array. -/
def objectsOfItems : List Value → List (List (String × Value))
  | [] => []
  | item :: rest => objectsOf item ++ objectsOfItems rest

/-- The members of every object inside the members of an object. -/
def objectsOfMembers : List (String × Value) → List (List (String × Value))
  | [] => []
  | (_, value) :: rest => objectsOf value ++ objectsOfMembers rest

end

theorem objectsOfItems_eq (items : List Value) :
    objectsOfItems items = items.flatMap objectsOf := by
  induction items with
  | nil => rfl
  | cons item rest ih => rw [objectsOfItems, ih, List.flatMap_cons]

theorem objectsOfMembers_append (first second : List (String × Value)) :
    objectsOfMembers (first ++ second) = objectsOfMembers first ++ objectsOfMembers second := by
  induction first with
  | nil => rfl
  | cons member rest ih =>
    obtain ⟨name, value⟩ := member
    rw [List.cons_append, objectsOfMembers, objectsOfMembers, ih, List.append_assoc]

theorem objectsOf_texts (path : List String) : objectsOf (texts path) = [] := by
  rw [texts, objectsOf, objectsOfItems_eq, List.flatMap_eq_nil_iff]
  intro item hitem
  obtain ⟨name, -, rfl⟩ := List.mem_map.mp hitem
  rfl

theorem objectsOf_toValues (nodes : List Node) :
    objectsOf (.array (Node.toValues nodes)) = nodes.flatMap fun node ↦ objectsOf node.toValue := by
  rw [objectsOf, objectsOfItems_eq, toValues_eq_map, List.flatMap_map]

/-- The objects in the fields of a node are those of its children. -/
theorem objectsOf_fields (node : Node) :
    objectsOfMembers node.kind.members =
      node.children.flatMap fun child ↦ objectsOf child.toValue := by
  obtain ⟨kind, offset, line⟩ := node
  cases kind with
  | action pipe => cases pipe <;> simp [Kind.members, objectsOfMembers, Node.children]
  | chain base path =>
    cases base <;> simp [Kind.members, objectsOfMembers, Node.children, objectsOf_texts]
  | pipe isAssign declarations commands =>
    simp [Kind.members, objectsOfMembers, Node.children, objectsOf_toValues]
    simp [objectsOf]
  | command operands => simp [Kind.members, objectsOfMembers, Node.children, objectsOf_toValues]
  | «variable» path | identifier path | field path =>
    simp [Kind.members, objectsOfMembers, Node.children, objectsOf_texts]
  | _ => simp [Kind.members, objectsOfMembers, Node.children, objectsOf]

/-- The objects in the data of a node are the node and those below it, in pre-order. -/
theorem objectsOf_toValue (node : Node) :
    objectsOf node.toValue = node.preorder.map Node.members := by
  have hline : objectsOfMembers (optional "line" (node.line.map fun (n : Nat) ↦ .int n)) = [] := by
    cases node.line <;> rfl
  have hown : objectsOf node.toValue = node.members :: objectsOfMembers node.kind.members := by
    rw [Node.toValue_eq, objectsOf, Node.members, objectsOfMembers, objectsOfMembers_append,
      objectsOfMembers, hline]
    simp [objectsOf]
  have hbelow : (node.children.flatMap fun child ↦ objectsOf child.toValue) =
      (node.children.flatMap Node.preorder).map Node.members := by
    rw [List.map_flatMap]
    refine List.flatMap_congr fun child hchild ↦ ?_
    have hsize := Node.sizeOf_of_mem_children hchild
    exact objectsOf_toValue child
  rw [hown, objectsOf_fields, hbelow, Node.preorder_eq node, List.map_cons]
termination_by sizeOf node

/-! ### Round trips -/

/-- An outline with places of 64 bits is written as JSON. Without a limit on open brackets the text
is read back, as data that are read as the same outline, so different outlines have different texts.
Every object of a node has exactly the tag, the fields of the tag that there are values for, the
offset and, if it is known, the line. In the other direction, if some data are read as an outline,
then so are those that the outline is written as, and so are the data with any number of additions:
unknown members of any object, or nulls under names that are absent. -/
theorem wire_round_trip :
    (∀ tree : Tree, tree.Placed →
      Json.read none (Json.compact tree.toValue) = .ok tree.toValue.sorted ∧
      Tree.ofValue? tree.toValue.sorted = some tree ∧
      (objectsOf (.array (Node.toValues tree.nodes))).map (List.map Prod.fst) =
        (tree.nodes.flatMap Node.preorder).map Node.memberNames ∧
      ∀ other : Tree, other.Placed →
        Json.compact tree.toValue = Json.compact other.toValue → tree = other) ∧
    ∀ (value : Value) (tree : Tree), Tree.ofValue? value = some tree →
      Tree.ofValue? tree.toValue = some tree ∧
      ∀ value', Relation.ReflTransGen (Adds .tree) value value' →
        Tree.ofValue? value' = some tree := by
  constructor
  · intro tree hplaced
    have hread := Json.read_compact (tree.isWhole_toValue hplaced)
    have hdecode := tree.ofValue?_rearrange rearranges_sorted hplaced
    refine ⟨hread, hdecode, ?_, ?_⟩
    · rw [objectsOf_toValues, List.map_flatMap, List.map_flatMap]
      refine List.flatMap_congr fun node _ ↦ ?_
      rw [objectsOf_toValue, List.map_map]
      exact List.map_congr_left fun below _ ↦ below.keys_members
    · intro other hother hsame
      have hread' := Json.read_compact (other.isWhole_toValue hother)
      have hdecode' := other.ofValue?_rearrange rearranges_sorted hother
      have hsorted : tree.toValue.sorted = other.toValue.sorted := by
        rw [hsame, hread'] at hread
        exact (Except.ok.inj hread).symm
      rw [hsorted, hdecode'] at hdecode
      exact (Option.some.inj hdecode).symm
  · intro value tree hread
    constructor
    · exact tree.ofValue?_rearrange rearranges_id (Tree.placed_of_ofValue? hread)
    · intro value' hadds
      induction hadds with
      | refl => exact hread
      | tail _ hadd ih => exact Tree.ofValue?_of_adds hadd ih

/-! ### A declaration and a text -/

/-- The data of a field, with members that are added. -/
def fieldValue (added : List (String × Value)) : Value :=
  .object ([("nodeType", .string "FIELD")] ++ (added ++
    [("ident", .array [.string "a"]), ("pos", .int 7), ("line", .int 1)]))

/-- The data of a pipeline with the field. -/
def pipeValue (added : List (String × Value)) : Value :=
  .object [("nodeType", .string "PIPE"), ("isAssign", .bool false),
    ("decl", .array [.object [("nodeType", .string "VARIABLE"), ("ident", .array [.string "$x"]),
      ("pos", .int 1), ("line", .int 1)]]),
    ("cmds", .array [.object [("nodeType", .string "COMMAND"), ("args", .array [fieldValue added]),
      ("pos", .int 7), ("line", .int 1)]]),
    ("pos", .int 1), ("line", .int 1)]

/-- The data of an outline with the pipeline, and with members that are added to its text. -/
def declarationValue (inField inText : List (String × Value)) : Value :=
  .object [("name", .string "page"), ("nodes", .array [
    .object [("nodeType", .string "ACTION"), ("pipe", pipeValue inField), ("pos", .int 1),
      ("line", .int 1)],
    .object ([("nodeType", .string "TEXT"), ("text", .string "!"), ("pos", .int 10)] ++ inText)])]

/-- The field of the outline. -/
def declaredField : Node := ⟨.field ["a"], 7, some 1⟩

/-- The command of the outline. -/
def declaredCommand : Node := ⟨.command [declaredField], 7, some 1⟩

/-- The variable of the outline. -/
def declaredVariable : Node := ⟨.variable ["$x"], 1, some 1⟩

/-- The pipeline of the outline. -/
def declaredPipe : Node := ⟨.pipe false [declaredVariable] [declaredCommand], 1, some 1⟩

/-- The outline of `[$x := .a]!`, where the line of the text is not known. -/
def declaration : Tree :=
  ⟨"page", [⟨.action (some declaredPipe), 1, some 1⟩, ⟨.text "!", 10, none⟩]⟩

theorem preorder_declaration :
    declaration.nodes.flatMap Node.preorder =
      [⟨.action (some declaredPipe), 1, some 1⟩, declaredPipe, declaredVariable, declaredCommand,
        declaredField, ⟨.text "!", 10, none⟩] := by
  simp [declaration, declaredPipe, declaredVariable, declaredCommand, declaredField,
    Node.preorder_eq, Node.children]

/-- The nodes of the outline are told from its text, also if its field has a member that nothing
asks for and its text a null for its line. -/
theorem wire_round_trip_declaration :
    declaration.Placed ∧ declaration.toValue = declarationValue [] [] ∧
      Json.read none (Json.compact (declarationValue [] [])) =
        .ok (declarationValue [] []).sorted ∧
      Tree.ofValue? (declarationValue [] []).sorted = some declaration ∧
      (objectsOf (.array (Node.toValues declaration.nodes))).map (List.map Prod.fst) =
        [["nodeType", "pipe", "pos", "line"],
          ["nodeType", "isAssign", "decl", "cmds", "pos", "line"],
          ["nodeType", "ident", "pos", "line"], ["nodeType", "args", "pos", "line"],
          ["nodeType", "ident", "pos", "line"], ["nodeType", "text", "pos"]] ∧
      Tree.ofValue? (declarationValue [("source", .string "x")] [("line", .null)]) =
        some declaration := by
  have hplaced : declaration.Placed := by
    intro node hnode other hother
    have hmem : other ∈ declaration.nodes.flatMap Node.preorder :=
      List.mem_flatMap.mpr ⟨node, hnode, hother⟩
    rw [preorder_declaration] at hmem
    simp only [List.mem_cons, List.not_mem_nil, or_false] at hmem
    rcases hmem with rfl | rfl | rfl | rfl | rfl | rfl <;> decide
  have hvalue : declaration.toValue = declarationValue [] [] := rfl
  obtain ⟨hread, hdecode, hnames, -⟩ := wire_round_trip.1 declaration hplaced
  rw [preorder_declaration] at hnames
  have hfield : Adds .node (fieldValue []) (fieldValue [("source", .string "x")]) :=
    .unknown _ (by decide)
  have hpipe : Adds .node (pipeValue []) (pipeValue [("source", .string "x")]) :=
    @Adds.member .node [_, _, _] [_, _] "cmds" _ _
      (@Adds.item .node [] [] _ _ (@Adds.member .node [_] [_, _] "args" _ _
        (@Adds.item .node [] [] _ _ hfield)))
  have htree : Adds .tree (declarationValue [] [])
      (declarationValue [("source", .string "x")] []) :=
    @Adds.member .tree [_] [] "nodes" _ _
      (@Adds.item .node [] [_] _ _ (@Adds.member .node [_] [_, _] "pipe" _ _ hpipe))
  have hline : Adds .tree (declarationValue [("source", .string "x")] [])
      (declarationValue [("source", .string "x")] [("line", .null)]) :=
    @Adds.member .tree [_] [] "nodes" _ _
      (@Adds.item .node [_] [] _ _ (@Adds.null .node [_, _, _] [] "line" rfl))
  have hwritten : Tree.ofValue? (declarationValue [] []) = some declaration :=
    declaration.ofValue?_rearrange rearranges_id hplaced
  refine ⟨hplaced, hvalue, hread, hdecode, hnames, ?_⟩
  exact (wire_round_trip.2 _ _ hwritten).2 _ (.tail (.single htree) hline)

end Stencil.Outline
