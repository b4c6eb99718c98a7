import Mathlib.Data.List.Nodup
import Stencil.Outline.Decode
import Stencil.Proofs.Outline.Order

/-!
# Outlines are read back from their data

The data of an outline whose places have 64 bits are read back as the outline, and so are the data
with the members of every object in the order of their keys, since no object has two members of one
name (`Rearranges`, `Tree.ofValue?_rearrange`). In the other direction, whatever is read as an
outline has places of 64 bits (`Tree.placed_of_ofValue?`).
-/

set_option autoImplicit false
set_option relaxedAutoImplicit false

namespace Stencil.Outline

/-! ### Places of 64 bits -/

/-- A node whose offset and line have 64 bits, and all that is below it. -/
def Node.Placed (node : Node) : Prop :=
  ∀ other ∈ node.preorder, Number.Word.isUnsigned other.offset ∧
    ∀ line ∈ other.line, Number.Word.isUnsigned (line : Nat)

/-- An outline all of whose nodes have places of 64 bits. -/
def Tree.Placed (tree : Tree) : Prop := ∀ node ∈ tree.nodes, node.Placed

theorem Node.placed_iff (node : Node) :
    node.Placed ↔
      (Number.Word.isUnsigned node.offset ∧
        ∀ line ∈ node.line, Number.Word.isUnsigned (line : Nat)) ∧
      ∀ child ∈ node.children, child.Placed := by
  simp only [Node.Placed, Node.preorder_eq node, List.forall_mem_cons, List.mem_flatMap]
  constructor
  · rintro ⟨hown, hbelow⟩
    exact ⟨hown, fun child hchild other hother ↦ hbelow other ⟨child, hchild, hother⟩⟩
  · rintro ⟨hown, hbelow⟩
    exact ⟨hown, fun other ⟨child, hchild, hother⟩ ↦ hbelow child hchild other hother⟩

theorem count?_natCast {n : Nat} (hn : Number.Word.isUnsigned n) : count? (.int n) = some n := by
  rw [count?, if_pos hn, Int.toNat_natCast]

theorem optionalCount?_int {line : Option Nat}
    (hline : ∀ n ∈ line, Number.Word.isUnsigned (n : Nat)) :
    optionalCount? (line.map fun (n : Nat) ↦ .int n) = some line := by
  cases line with
  | none => rfl
  | some n =>
    rw [Option.map_some, optionalCount?, count?_natCast (hline n rfl)]
    · rfl
    · simp

theorem isUnsigned_of_count? {value : Value} {n : Nat} (hcount : count? value = some n) :
    Number.Word.isUnsigned n := by
  cases value with
  | int m =>
    rw [count?] at hcount
    split at hcount
    · next hm =>
      obtain rfl := Option.some.inj hcount
      have hnonneg : 0 ≤ m := by
        simp only [Number.Word.isUnsigned, Bool.and_eq_true, decide_eq_true_eq] at hm
        exact hm.1
      rwa [Int.toNat_of_nonneg hnonneg]
    · exact absurd hcount (by simp)
  | _ => exact absurd hcount (by simp [count?])

/-! ### Members that are read -/

theorem optionalMember?_of_none {value : Value} {name : String}
    (hmember : value.member? name = none) : optionalMember? value name = some none := by
  rw [optionalMember?]
  split <;> simp_all

theorem optionalMember?_of_null {value : Value} {name : String}
    (hmember : value.member? name = some .null) : optionalMember? value name = some none := by
  rw [optionalMember?]
  split <;> simp_all

theorem ofValue?_ne_null {value : Value} {node : Node} (hnode : Node.ofValue? value = some node) :
    value ≠ .null := by
  rintro rfl
  rw [Node.ofValue?] at hnode
  exact absurd hnode (by simp [Value.member?])

theorem optionalMember?_of_some {value item : Value} {name : String}
    (hmember : value.member? name = some item) (hitem : item ≠ .null) :
    optionalMember? value name = (Node.ofValue? item).map some := by
  rw [optionalMember?]
  split <;> simp_all

theorem nodesMember?_of_array {value : Value} {items : List Value} {name : String}
    (hmember : value.member? name = some (.array items)) :
    nodesMember? value name = Node.ofValues? items := by
  rw [nodesMember?]
  split <;> simp_all

theorem optionalMember?_eq_some {value : Value} {name : String} {node : Node}
    (hread : optionalMember? value name = some (some node)) :
    ∃ item, value.member? name = some item ∧ Node.ofValue? item = some node := by
  cases hmember : value.member? name with
  | none =>
    rw [optionalMember?_of_none hmember] at hread
    exact absurd hread (by simp)
  | some item =>
    by_cases hnull : item = .null
    · subst hnull
      rw [optionalMember?_of_null hmember] at hread
      exact absurd hread (by simp)
    · rw [optionalMember?_of_some hmember hnull] at hread
      obtain ⟨found, hfound, hsame⟩ := Option.map_eq_some_iff.mp hread
      obtain rfl := Option.some.inj hsame
      exact ⟨item, rfl, hfound⟩

theorem nodesMember?_eq_some {value : Value} {name : String} {nodes : List Node}
    (hread : nodesMember? value name = some nodes) :
    ∃ items, value.member? name = some (.array items) ∧ Node.ofValues? items = some nodes := by
  rw [nodesMember?] at hread
  split at hread
  · next items hmember => exact ⟨items, hmember, hread⟩
  · exact absurd hread (by simp)

theorem ofValues?_eq_some_iff {items : List Value} {nodes : List Node} :
    Node.ofValues? items = some nodes ↔
      List.Forall₂ (fun item node ↦ Node.ofValue? item = some node) items nodes := by
  induction items generalizing nodes with
  | nil =>
    rw [Node.ofValues?, List.forall₂_nil_left_iff, Option.some_inj, eq_comm]
  | cons item items ih =>
    rw [Node.ofValues?, List.forall₂_cons_left_iff]
    simp only [bind, Option.bind_eq_some_iff, pure, Option.some_inj, ih]
    constructor
    · rintro ⟨node, hnode, rest, hrest, rfl⟩
      exact ⟨node, rest, hnode, hrest, rfl⟩
    · rintro ⟨node, rest, hnode, hrest, rfl⟩
      exact ⟨node, hnode, rest, hrest, rfl⟩

/-- What stands in the second of two related lists is related to something in the first. -/
theorem exists_of_mem_forall₂ {α β : Type} {related : α → β → Prop} {xs : List α} {ys : List β}
    (hall : List.Forall₂ related xs ys) : ∀ y ∈ ys, ∃ x ∈ xs, related x y := by
  induction hall with
  | nil => exact fun y hy ↦ absurd hy List.not_mem_nil
  | cons hxy _ ih =>
    intro other hother
    rcases List.mem_cons.mp hother with rfl | hother
    · exact ⟨_, List.mem_cons_self, hxy⟩
    · obtain ⟨x, hx, hrelated⟩ := ih other hother
      exact ⟨x, List.mem_cons_of_mem _ hx, hrelated⟩

theorem exists_of_mem_ofValues? {items : List Value} {nodes : List Node}
    (hread : Node.ofValues? items = some nodes) :
    ∀ node ∈ nodes, ∃ item ∈ items, Node.ofValue? item = some node :=
  exists_of_mem_forall₂ (ofValues?_eq_some_iff.mp hread)

theorem ofValues?_map {read : Node → Value} {nodes : List Node}
    (hnodes : ∀ node ∈ nodes, Node.ofValue? (read node) = some node) :
    Node.ofValues? (nodes.map read) = some nodes := by
  induction nodes with
  | nil => rw [List.map_nil, Node.ofValues?]
  | cons node rest ih =>
    obtain ⟨hnode, hrest⟩ := List.forall_mem_cons.mp hnodes
    rw [List.map_cons, Node.ofValues?, hnode, ih hrest]
    rfl

theorem toValues_eq_map (nodes : List Node) : Node.toValues nodes = nodes.map Node.toValue := by
  induction nodes with
  | nil => rw [Node.toValues, List.map_nil]
  | cons node rest ih => rw [Node.toValues, ih, List.map_cons]

theorem texts?_texts (path : List String) : texts? (texts path) = some path := by
  rw [texts, texts?, List.mapM_map]
  induction path with
  | nil => rfl
  | cons name rest ih => simp_all [List.mapM_cons, text?]

theorem ofValue?_word (tag : Tag) : Tag.ofValue? (.string tag.word) = some tag := by
  cases tag <;> rfl

/-! ### Members in another order -/

/-- A way of putting the members of all objects in another order. -/
structure Rearranges (rearrange : Value → Value) : Prop where
  bool (value : Bool) : rearrange (.bool value) = .bool value
  int (n : Int) : rearrange (.int n) = .int n
  string (text : String) : rearrange (.string text) = .string text
  array (items : List Value) : rearrange (.array items) = .array (items.map rearrange)
  object (members : List (String × Value)) (hkeys : (members.map Prod.fst).Nodup) :
    ∃ others, rearrange (.object members) = .object others ∧
      ∀ key, Value.lookup key others = (Value.lookup key members).map rearrange

theorem rearranges_id : Rearranges id where
  bool _ := rfl
  int _ := rfl
  string _ := rfl
  array items := by rw [List.map_id]; rfl
  object members _ := ⟨members, rfl, fun key ↦ by rw [Option.map_id]; rfl⟩

theorem lookup_insertMember (key name : String) (value : Value)
    (members : List (String × Value)) :
    Value.lookup key (Value.insertMember name value members) =
      if name = key then some value else Value.lookup key members := by
  induction members with
  | nil => simp [Value.insertMember, Value.lookup]
  | cons member rest ih =>
    obtain ⟨other, item⟩ := member
    rw [Value.insertMember]
    by_cases hless : name < other
    · rw [if_pos hless, Value.lookup]
    · rw [if_neg hless]
      by_cases hsame : name = other
      · rw [if_pos hsame, Value.lookup, Value.lookup, hsame]
        split_ifs <;> rfl
      · rw [if_neg hsame, Value.lookup, ih, Value.lookup]
        by_cases hkey : other = key
        · rw [if_pos hkey, if_pos hkey, if_neg fun hname ↦ hsame (hname.trans hkey.symm)]
        · rw [if_neg hkey, if_neg hkey]

theorem lookup_eq_none {key : String} {members : List (String × Value)}
    (hkey : key ∉ members.map Prod.fst) : Value.lookup key members = none := by
  induction members with
  | nil => rfl
  | cons member rest ih =>
    rw [List.map_cons, List.mem_cons, not_or] at hkey
    rw [Value.lookup, if_neg (Ne.symm hkey.1), ih hkey.2]

/-- Putting members in order keeps what is looked up, if no key is there twice. -/
theorem lookup_foldl_insertMember (key : String) (members done : List (String × Value))
    (hkeys : (members.map Prod.fst).Nodup) :
    Value.lookup key (members.foldl (fun sorted member ↦
      Value.insertMember member.1 member.2 sorted) done) =
        (Value.lookup key members).or (Value.lookup key done) := by
  induction members generalizing done with
  | nil => rfl
  | cons member rest ih =>
    rw [List.map_cons, List.nodup_cons] at hkeys
    rw [List.foldl_cons, ih _ hkeys.2, lookup_insertMember, Value.lookup]
    by_cases hkey : member.1 = key
    · have hnone := lookup_eq_none (hkey ▸ hkeys.1)
      simp [hkey, hnone]
    · simp [hkey]

theorem sortedItems_eq_map (items : List Value) :
    Value.sortedItems items = items.map Value.sorted := by
  induction items with
  | nil => rfl
  | cons item rest ih => rw [Value.sortedItems, ih, List.map_cons]

theorem lookup_sortedMembers (key : String) (members : List (String × Value)) :
    Value.lookup key (Value.sortedMembers members) =
      (Value.lookup key members).map Value.sorted := by
  induction members with
  | nil => rfl
  | cons member rest ih =>
    obtain ⟨name, value⟩ := member
    rw [Value.sortedMembers, Value.lookup, Value.lookup, ih]
    split_ifs <;> rfl

theorem keys_sortedMembers (members : List (String × Value)) :
    (Value.sortedMembers members).map Prod.fst = members.map Prod.fst := by
  induction members with
  | nil => rfl
  | cons member rest ih =>
    obtain ⟨name, value⟩ := member
    rw [Value.sortedMembers, List.map_cons, List.map_cons, ih]

theorem rearranges_sorted : Rearranges Value.sorted where
  bool _ := rfl
  int _ := rfl
  string _ := rfl
  array items := congrArg Value.array (sortedItems_eq_map items)
  object members hkeys := by
    refine ⟨_, rfl, fun key ↦ ?_⟩
    rw [lookup_foldl_insertMember, lookup_sortedMembers]
    · exact Option.or_none
    · rw [keys_sortedMembers]
      exact hkeys

/-! ### The members of a node -/

/-- The fields of a tag. -/
def Tag.fields : Tag → List String
  | .text => ["text"]
  | .action => ["pipe"]
  | .pipe => ["isAssign", "decl", "cmds"]
  | .command => ["args"]
  | .variable => ["ident"]
  | .identifier => ["ident"]
  | .dot => []
  | .nil => []
  | .field => ["ident"]
  | .chain => ["node", "field"]
  | .bool => ["true"]
  | .number => ["text"]
  | .string => ["text"]

/-- The fields of a tag that a kind has no value for. -/
def Kind.absent : Kind → List String
  | .action none => ["pipe"]
  | .chain none _ => ["node"]
  | _ => []

/-- The names of the members of a node: the tag, the fields of the tag that are there, the offset
and, if it is known, the line. -/
def Node.memberNames (node : Node) : List String :=
  "nodeType" :: (node.tag.fields.filter (fun name ↦ name ∉ node.kind.absent) ++
    "pos" :: if node.line.isSome then ["line"] else [])

/-- The members of a node. -/
def Node.members (node : Node) : List (String × Value) :=
  ("nodeType", .string node.tag.word) :: (node.kind.members ++
    ("pos", .int node.offset) :: optional "line" (node.line.map fun (n : Nat) ↦ .int n))

theorem Node.toValue_eq (node : Node) : node.toValue = .object node.members := by
  obtain ⟨kind, offset, line⟩ := node
  cases line <;> rfl

theorem Kind.keys_members (kind : Kind) :
    kind.members.map Prod.fst = kind.tag.fields.filter fun name ↦ name ∉ kind.absent := by
  cases kind with
  | action pipe => cases pipe <;> simp [Kind.members, Kind.tag, Tag.fields, Kind.absent]
  | chain base path => cases base <;> simp [Kind.members, Kind.tag, Tag.fields, Kind.absent]
  | _ => simp [Kind.members, Kind.tag, Tag.fields, Kind.absent]

theorem Node.keys_members (node : Node) : node.members.map Prod.fst = node.memberNames := by
  have hline : (optional "line" (node.line.map fun (n : Nat) ↦ .int n)).map Prod.fst =
      if node.line.isSome then ["line"] else [] := by
    cases node.line <;> rfl
  rw [Node.members, List.map_cons, List.map_append, List.map_cons, Kind.keys_members, hline]
  rfl

theorem Node.nodup_memberNames (node : Node) : node.memberNames.Nodup := by
  have hall : ∀ tag : Tag, ("nodeType" :: (tag.fields ++ ["pos", "line"])).Nodup := by
    intro tag
    cases tag <;> decide
  refine (hall node.tag).sublist (List.Sublist.cons_cons _ (List.Sublist.append
    List.filter_sublist (List.Sublist.cons_cons _ ?_)))
  split
  · exact List.Sublist.refl _
  · exact List.nil_sublist _

theorem lookup_append (key : String) (first second : List (String × Value)) :
    Value.lookup key (first ++ second) =
      (Value.lookup key first).or (Value.lookup key second) := by
  induction first with
  | nil => rfl
  | cons member rest ih =>
    rw [List.cons_append, Value.lookup, Value.lookup, ih]
    split_ifs <;> rfl

/-- No field is called like what every node has. -/
theorem notMem_keys_members {key : String} (hkey : key ∈ ["nodeType", "pos", "line"])
    (kind : Kind) : key ∉ kind.members.map Prod.fst := by
  have hall : ∀ tag : Tag, ∀ name ∈ ["nodeType", "pos", "line"], name ∉ tag.fields := by
    intro tag
    cases tag <;> decide
  rw [Kind.keys_members]
  exact fun hmem ↦ hall kind.tag key hkey (List.mem_of_mem_filter hmem)

section Members

variable (node : Node)

theorem Node.lookup_nodeType :
    Value.lookup "nodeType" node.members = some (.string node.tag.word) := by
  rw [Node.members, Value.lookup, if_pos rfl]

theorem Node.lookup_pos : Value.lookup "pos" node.members = some (.int node.offset) := by
  rw [Node.members, Value.lookup, if_neg (by decide), lookup_append,
    lookup_eq_none (notMem_keys_members (by decide) node.kind), Option.none_or, Value.lookup,
    if_pos rfl]

theorem Node.lookup_line :
    Value.lookup "line" node.members = node.line.map fun (n : Nat) ↦ .int n := by
  rw [Node.members, Value.lookup, if_neg (by decide), lookup_append,
    lookup_eq_none (notMem_keys_members (by decide) node.kind), Option.none_or, Value.lookup,
    if_neg (by decide)]
  cases node.line <;> simp [optional, Value.lookup]

theorem Node.lookup_field {key : String} (hkey : key ∉ ["nodeType", "pos", "line"]) :
    Value.lookup key node.members = Value.lookup key node.kind.members := by
  simp only [List.mem_cons, List.not_mem_nil, or_false, not_or] at hkey
  obtain ⟨hnodeType, hpos, hline⟩ := hkey
  have hlast : Value.lookup key (("pos", .int node.offset) ::
      optional "line" (node.line.map fun (n : Nat) ↦ .int n)) = none := by
    rw [Value.lookup, if_neg (Ne.symm hpos)]
    cases node.line <;> simp [optional, Value.lookup, Ne.symm hline]
  rw [Node.members, Value.lookup, if_neg (Ne.symm hnodeType), lookup_append, hlast, Option.or_none]

end Members

/-! ### Reading what was written -/

section Reading

variable {rearrange : Value → Value}

theorem rearrange_texts (hrearrange : Rearranges rearrange) (path : List String) :
    rearrange (texts path) = texts path := by
  rw [texts, hrearrange.array, List.map_map]
  exact congrArg Value.array (List.map_congr_left fun name _ ↦ hrearrange.string name)

/-- The members of a node are looked up wherever they stand. -/
theorem member?_rearrange (hrearrange : Rearranges rearrange) (node : Node) (key : String) :
    (rearrange node.toValue).member? key = (Value.lookup key node.members).map rearrange := by
  have hkeys : (node.members.map Prod.fst).Nodup := by
    rw [Node.keys_members]
    exact node.nodup_memberNames
  obtain ⟨others, hothers, hlookup⟩ := hrearrange.object node.members hkeys
  rw [Node.toValue_eq, hothers, Value.member?, hlookup]

/-- A member that is an array of nodes is read if its nodes are. -/
theorem nodesMember?_rearrange (hrearrange : Rearranges rearrange) {value : Value} {name : String}
    {nodes : List Node}
    (hmember : value.member? name = some (rearrange (.array (Node.toValues nodes))))
    (hnodes : ∀ node ∈ nodes, Node.ofValue? (rearrange node.toValue) = some node) :
    nodesMember? value name = some nodes := by
  rw [hrearrange.array, toValues_eq_map, List.map_map] at hmember
  rw [nodesMember?_of_array hmember]
  exact ofValues?_map hnodes

/-- A member that is a node or absent is read if its node is. -/
theorem optionalMember?_rearrange {value : Value} {name : String} {child : Option Node}
    (hmember : value.member? name = child.map fun node ↦ rearrange node.toValue)
    (hchild : ∀ node ∈ child, Node.ofValue? (rearrange node.toValue) = some node) :
    optionalMember? value name = some child := by
  cases child with
  | none => exact optionalMember?_of_none hmember
  | some node =>
    have hnode := hchild node rfl
    rw [optionalMember?_of_some hmember (ofValue?_ne_null hnode), hnode]
    rfl

/-- The fields of a kind are read back if its children are. -/
theorem ofValue?_fields (hrearrange : Rearranges rearrange) (node : Node)
    (hchildren : ∀ child ∈ node.children,
      Node.ofValue? (rearrange child.toValue) = some child) :
    Kind.ofValue? node.tag (rearrange node.toValue) = some node.kind := by
  have hfield (key : String) (hkey : key ∉ ["nodeType", "pos", "line"]) :
      (rearrange node.toValue).member? key =
        (Value.lookup key node.kind.members).map rearrange := by
    rw [member?_rearrange hrearrange, node.lookup_field hkey]
  -- A field that is no node is where it was and as it was.
  have hplain (key : String) (hkey : key ∉ ["nodeType", "pos", "line"]) (item : Value)
      (hitem : Value.lookup key node.kind.members = some item) (hsame : rearrange item = item) :
      (rearrange node.toValue).member? key = some item := by
    rw [hfield key hkey, hitem, Option.map_some, hsame]
  generalize rearrange node.toValue = value at hfield hplain ⊢
  obtain ⟨kind, offset, line⟩ := node
  cases kind with
  | action pipe =>
    have hpipe : value.member? "pipe" = pipe.map fun node ↦ rearrange node.toValue := by
      rw [hfield "pipe" (by decide)]
      cases pipe <;> rfl
    have hread := optionalMember?_rearrange hpipe fun node hnode ↦
      hchildren node (Option.mem_toList.mpr hnode)
    simp only [Node.tag, Kind.tag, Kind.ofValue?, hread, Option.map_some]
  | pipe isAssign declarations commands =>
    have hassign := hplain "isAssign" (by decide) _ rfl (hrearrange.bool isAssign)
    have hdeclarations := nodesMember?_rearrange hrearrange (hfield "decl" (by decide))
      fun node hnode ↦ hchildren node (List.mem_append_left _ hnode)
    have hcommands := nodesMember?_rearrange hrearrange (hfield "cmds" (by decide))
      fun node hnode ↦ hchildren node (List.mem_append_right _ hnode)
    simp only [Node.tag, Kind.tag, Kind.ofValue?, hassign, hdeclarations, hcommands,
      Option.bind_some, bool?, bind, pure]
  | command operands =>
    have hoperands := nodesMember?_rearrange hrearrange (hfield "args" (by decide)) hchildren
    simp only [Node.tag, Kind.tag, Kind.ofValue?, hoperands, Option.map_some]
  | chain base path =>
    have hbase : value.member? "node" = base.map fun node ↦ rearrange node.toValue := by
      rw [hfield "node" (by decide)]
      cases base <;> rfl
    have hread := optionalMember?_rearrange hbase fun node hnode ↦
      hchildren node (Option.mem_toList.mpr hnode)
    have hlookup : Value.lookup "field" (Kind.chain base path).members = some (texts path) := by
      cases base <;> rfl
    have hpath := hplain "field" (by decide) _ hlookup (rearrange_texts hrearrange path)
    simp only [Node.tag, Kind.tag, Kind.ofValue?, hread, hpath, Option.bind_some, texts?_texts,
      bind, pure]
  | text text | number text | string text =>
    have htext := hplain "text" (by decide) _ rfl (hrearrange.string text)
    simp only [Node.tag, Kind.tag, Kind.ofValue?, htext, Option.bind_some, text?, Option.map_some]
  | «variable» path | identifier path | field path =>
    have hpath := hplain "ident" (by decide) _ rfl (rearrange_texts hrearrange path)
    simp only [Node.tag, Kind.tag, Kind.ofValue?, hpath, Option.bind_some, texts?_texts,
      Option.map_some]
  | bool flag =>
    have hflag := hplain "true" (by decide) _ rfl (hrearrange.bool flag)
    simp only [Node.tag, Kind.tag, Kind.ofValue?, hflag, Option.bind_some, bool?, Option.map_some]
  | dot | nil => simp only [Node.tag, Kind.tag, Kind.ofValue?]

/-- The data of a node are read back as the node, wherever the members of objects stand. -/
theorem ofValue?_rearrange (hrearrange : Rearranges rearrange) (node : Node)
    (hplaced : node.Placed) : Node.ofValue? (rearrange node.toValue) = some node := by
  obtain ⟨⟨hoffset, hline⟩, hchildren⟩ := node.placed_iff.mp hplaced
  have hkind : Kind.ofValue? node.tag (rearrange node.toValue) = some node.kind := by
    refine ofValue?_fields hrearrange node fun child hchild ↦ ?_
    have hsize := Node.sizeOf_of_mem_children hchild
    exact ofValue?_rearrange hrearrange child (hchildren child hchild)
  have hmember (key : String) := member?_rearrange hrearrange node key
  have htag : ((rearrange node.toValue).member? "nodeType").bind Tag.ofValue? = some node.tag := by
    rw [hmember, node.lookup_nodeType, Option.map_some, hrearrange.string, Option.bind_some,
      ofValue?_word]
  have hpos : ((rearrange node.toValue).member? "pos").bind count? = some node.offset := by
    rw [hmember, node.lookup_pos, Option.map_some, hrearrange.int, Option.bind_some,
      count?_natCast hoffset]
  have hlast : optionalCount? ((rearrange node.toValue).member? "line") = some node.line := by
    rw [hmember, node.lookup_line, ← optionalCount?_int hline, Option.map_map]
    exact congrArg optionalCount? (Option.map_congr fun n _ ↦ hrearrange.int n)
  have hnode : Node.mk node.kind node.offset node.line = node := by
    cases node
    rfl
  rw [Node.ofValue?, htag, hpos, hlast]
  simp only [hkind, bind, Option.bind, pure, hnode]
termination_by sizeOf node

/-- The data of an outline are read back as the outline. -/
theorem Tree.ofValue?_rearrange (hrearrange : Rearranges rearrange) (tree : Tree)
    (hplaced : tree.Placed) : Tree.ofValue? (rearrange tree.toValue) = some tree := by
  obtain ⟨name, nodes⟩ := tree
  obtain ⟨others, hothers, hlookup⟩ := hrearrange.object
    [("name", .string name), ("nodes", .array (Node.toValues nodes))]
    (show ["name", "nodes"].Nodup by decide)
  have hname : (Value.object others).member? "name" = some (.string name) := by
    rw [Value.member?, hlookup]
    exact congrArg some (hrearrange.string name)
  have hnodes : nodesMember? (.object others) "nodes" = some nodes :=
    nodesMember?_rearrange hrearrange (hlookup "nodes") fun node hnode ↦
      Outline.ofValue?_rearrange hrearrange node (hplaced node hnode)
  change Tree.ofValue? (rearrange (.object _)) = _
  rw [hothers]
  simp only [Tree.ofValue?, hname, hnodes, Option.bind_some, text?, bind, pure]

end Reading

/-! ### What is read has places of 64 bits -/

/-- A node that is a member is read from smaller data. -/
theorem exists_of_optionalMember? {value : Value} {name : String} {found : Option Node}
    (hread : optionalMember? value name = some found) :
    ∀ child ∈ found.toList, ∃ item, sizeOf item < sizeOf value ∧
      Node.ofValue? item = some child := by
  intro child hchild
  obtain rfl : found = some child := Option.mem_toList.mp hchild
  obtain ⟨item, hmember, hitem⟩ := optionalMember?_eq_some hread
  exact ⟨item, Value.sizeOf_member? hmember, hitem⟩

/-- A node in an array that is a member is read from smaller data. -/
theorem exists_of_nodesMember? {value : Value} {name : String} {nodes : List Node}
    (hread : nodesMember? value name = some nodes) :
    ∀ child ∈ nodes, ∃ item, sizeOf item < sizeOf value ∧ Node.ofValue? item = some child := by
  intro child hchild
  obtain ⟨items, hmember, hitems⟩ := nodesMember?_eq_some hread
  obtain ⟨item, hitem, hsame⟩ := exists_of_mem_ofValues? hitems child hchild
  have hsize := Value.sizeOf_member? hmember
  have hless := List.sizeOf_lt_of_mem hitem
  simp only [Value.array.sizeOf_spec] at hsize
  exact ⟨item, by omega, hsame⟩

/-- Every child that is read comes from data inside those of its parent. -/
theorem exists_of_mem_children {tag : Tag} {value : Value} {kind : Kind}
    (hkind : Kind.ofValue? tag value = some kind) (offset : Nat) (line : Option Nat) :
    ∀ child ∈ Node.children ⟨kind, offset, line⟩,
      ∃ item, sizeOf item < sizeOf value ∧ Node.ofValue? item = some child := by
  cases tag with
  | action =>
    rw [Kind.ofValue?] at hkind
    obtain ⟨found, hfound, rfl⟩ := Option.map_eq_some_iff.mp hkind
    exact exists_of_optionalMember? hfound
  | pipe =>
    simp only [Kind.ofValue?, bind, Option.bind_eq_some_iff, pure, Option.some_inj] at hkind
    obtain ⟨isAssign, -, declarations, hdeclarations, commands, hcommands, rfl⟩ := hkind
    exact List.forall_mem_append.mpr
      ⟨exists_of_nodesMember? hdeclarations, exists_of_nodesMember? hcommands⟩
  | command =>
    rw [Kind.ofValue?] at hkind
    obtain ⟨found, hfound, rfl⟩ := Option.map_eq_some_iff.mp hkind
    exact exists_of_nodesMember? hfound
  | chain =>
    simp only [Kind.ofValue?, bind, Option.bind_eq_some_iff, pure, Option.some_inj] at hkind
    obtain ⟨base, hbase, path, -, rfl⟩ := hkind
    exact exists_of_optionalMember? hbase
  | dot | nil =>
    rw [Kind.ofValue?] at hkind
    obtain rfl := Option.some.inj hkind
    exact fun child hchild ↦ absurd hchild List.not_mem_nil
  | _ =>
    rw [Kind.ofValue?] at hkind
    obtain ⟨found, -, rfl⟩ := Option.map_eq_some_iff.mp hkind
    exact fun child hchild ↦ absurd hchild List.not_mem_nil

theorem tag_of_ofValue? {tag : Tag} {value : Value} {kind : Kind}
    (hkind : Kind.ofValue? tag value = some kind) : kind.tag = tag := by
  cases tag <;>
  simp only [Kind.ofValue?, bind, Option.bind_eq_some_iff, Option.map_eq_some_iff, pure,
    Option.some_inj] at hkind
  case pipe =>
    obtain ⟨_, -, _, -, _, -, rfl⟩ := hkind
    rfl
  case chain =>
    obtain ⟨_, -, _, -, rfl⟩ := hkind
    rfl
  case dot => exact hkind ▸ rfl
  case nil => exact hkind ▸ rfl
  all_goals
    obtain ⟨_, -, rfl⟩ := hkind
    rfl

/-- What it takes to read a node: its tag, its offset, its line and the fields of the tag. -/
theorem Node.ofValue?_eq_some_iff {value : Value} {node : Node} :
    Node.ofValue? value = some node ↔
      (value.member? "nodeType").bind Tag.ofValue? = some node.tag ∧
      (value.member? "pos").bind count? = some node.offset ∧
      optionalCount? (value.member? "line") = some node.line ∧
      Kind.ofValue? node.tag value = some node.kind := by
  rw [Node.ofValue?]
  simp only [bind, Option.bind_eq_some_iff, pure, Option.some_inj]
  constructor
  · rintro ⟨tag, htag, offset, hoffset, line, hline, kind, hkind, rfl⟩
    obtain rfl := tag_of_ofValue? hkind
    exact ⟨htag, hoffset, hline, hkind⟩
  · rintro ⟨htag, hoffset, hline, hkind⟩
    refine ⟨node.tag, htag, node.offset, hoffset, node.line, hline, node.kind, hkind, ?_⟩
    cases node
    rfl

theorem isUnsigned_of_optionalCount? {found : Option Value} {line : Option Nat}
    (hline : optionalCount? found = some line) :
    ∀ n ∈ line, Number.Word.isUnsigned (n : Nat) := by
  intro n hn
  obtain rfl : line = some n := hn
  unfold optionalCount? at hline
  split at hline
  · exact absurd hline (by simp)
  · exact absurd hline (by simp)
  · obtain ⟨count, hcount, hsame⟩ := Option.map_eq_some_iff.mp hline
    obtain rfl := Option.some.inj hsame
    exact isUnsigned_of_count? hcount

/-- Whatever is read as a node has places of 64 bits. -/
theorem Node.placed_of_ofValue? (value : Value) (node : Node)
    (hnode : Node.ofValue? value = some node) : node.Placed := by
  obtain ⟨-, hpos, hline, hkind⟩ := Node.ofValue?_eq_some_iff.mp hnode
  rw [Node.placed_iff]
  refine ⟨⟨?_, isUnsigned_of_optionalCount? hline⟩, ?_⟩
  · obtain ⟨item, -, hcount⟩ := Option.bind_eq_some_iff.mp hpos
    exact isUnsigned_of_count? hcount
  · intro child hchild
    have hparts := exists_of_mem_children hkind node.offset node.line
    obtain ⟨item, hsize, hitem⟩ := hparts child (by cases node; exact hchild)
    exact Node.placed_of_ofValue? item child hitem
termination_by sizeOf value

/-- Whatever is read as an outline has places of 64 bits. -/
theorem Tree.placed_of_ofValue? {value : Value} {tree : Tree}
    (htree : Tree.ofValue? value = some tree) : tree.Placed := by
  intro node hnode
  unfold Tree.ofValue? at htree
  split at htree
  · next name items =>
    simp only [bind, Option.bind_eq_some_iff, pure, Option.some_inj] at htree
    obtain ⟨text, -, nodes, hnodes, rfl⟩ := htree
    obtain ⟨item, -, hitem⟩ := exists_of_mem_ofValues? hnodes node hnode
    exact Node.placed_of_ofValue? item node hitem
  · simp only [bind, Option.bind_eq_some_iff, pure, Option.some_inj] at htree
    obtain ⟨text, -, nodes, hnodes, rfl⟩ := htree
    obtain ⟨item, -, hitem⟩ := exists_of_nodesMember? hnodes node hnode
    exact Node.placed_of_ofValue? item node hitem

end Stencil.Outline
