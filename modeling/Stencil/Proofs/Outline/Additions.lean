import Mathlib.Logic.Relation
import Stencil.Proofs.Outline.Decoding

/-!
# Members that no field asks for

Data may have members that the reader of outlines does not know: at the outline, at any node, or
deep inside a member that is itself unknown. What is known depends on what an object is read as
(`Role`) and, for a node, on its tag (`Role.names`). `Adds` says that one object somewhere in some
data has one member more, which is unknown there or is null where the name is absent.

Nothing of that is seen: data that are read as an outline are read as the same outline with
everything that is added (`Tree.ofValue?_of_adds`).
-/

set_option autoImplicit false
set_option relaxedAutoImplicit false

namespace Stencil.Outline

/-! ### Roles -/

/-- What a value is read as: an outline, a node or nodes, or something without objects that are
read. -/
inductive Role
  | tree
  | node
  | other
deriving DecidableEq

/-- The fields of a tag that hold nodes. -/
def Tag.nodeFields : Tag → List String
  | .action => ["pipe"]
  | .pipe => ["decl", "cmds"]
  | .command => ["args"]
  | .chain => ["node"]
  | _ => []

/-- The tag that members give. -/
def tagOf? (members : List (String × Value)) : Option Tag :=
  (Value.lookup "nodeType" members).bind Tag.ofValue?

/-- The names of an object that are known. -/
def Role.names (role : Role) (members : List (String × Value)) : List String :=
  match role with
  | tree => ["name", "nodes"]
  | node => "nodeType" :: "pos" :: "line" :: ((tagOf? members).map Tag.fields).getD []
  | other => []

/-- What a member of an object is read as. -/
def Role.member (role : Role) (members : List (String × Value)) (name : String) : Role :=
  match role with
  | tree => if name = "nodes" then node else other
  | node => if name ∈ ((tagOf? members).map Tag.nodeFields).getD [] then node else other
  | other => other

/-- What an item of an array is read as. -/
def Role.item : Role → Role
  | tree => node
  | role => role

/-! ### Additions -/

/-- An object somewhere in some data has one more member, which has a name that is unknown there, or
is null where no member has the name. -/
inductive Adds : Role → Value → Value → Prop
  | unknown {role : Role} {before after : List (String × Value)} {name : String} (value : Value)
      (hname : name ∉ role.names (before ++ after)) :
      Adds role (.object (before ++ after)) (.object (before ++ (name, value) :: after))
  | null {role : Role} {before after : List (String × Value)} {name : String}
      (habsent : Value.lookup name (before ++ after) = none) :
      Adds role (.object (before ++ after)) (.object (before ++ (name, .null) :: after))
  | member {role : Role} {before after : List (String × Value)} {name : String}
      {value value' : Value}
      (hvalue : Adds (role.member (before ++ (name, value) :: after) name) value value') :
      Adds role (.object (before ++ (name, value) :: after))
        (.object (before ++ (name, value') :: after))
  | item {role : Role} {before after : List Value} {value value' : Value}
      (hvalue : Adds role.item value value') :
      Adds role (.array (before ++ value :: after)) (.array (before ++ value' :: after))

section Lookup

variable (before after : List (String × Value)) (name key : String)

theorem lookup_insert_of_ne (value : Value) (hkey : name ≠ key) :
    Value.lookup key (before ++ (name, value) :: after) = Value.lookup key (before ++ after) := by
  rw [lookup_append, lookup_append, Value.lookup, if_neg hkey]

theorem lookup_insert_of_none (value : Value)
    (habsent : Value.lookup name (before ++ after) = none) :
    Value.lookup name (before ++ (name, value) :: after) = some value := by
  rw [lookup_append, Option.or_eq_none_iff] at habsent
  rw [lookup_append, habsent.1, Option.none_or, Value.lookup, if_pos rfl]

/-- Changing one value changes at most what its name gives. -/
theorem lookup_change (value value' : Value) :
    Value.lookup key (before ++ (name, value') :: after) =
        Value.lookup key (before ++ (name, value) :: after) ∨
      name = key ∧ Value.lookup key (before ++ (name, value) :: after) = some value ∧
        Value.lookup key (before ++ (name, value') :: after) = some value' := by
  rw [lookup_append, lookup_append, Value.lookup, Value.lookup]
  by_cases hkey : name = key
  · rw [if_pos hkey, if_pos hkey]
    cases Value.lookup key before with
    | none => exact .inr ⟨hkey, rfl, rfl⟩
    | some found => exact .inl rfl
  · rw [if_neg hkey, if_neg hkey]
    exact .inl rfl

end Lookup

/-! ### What is read of changed data -/

/-- A change of some data that leaves alone what is read as a node or as nodes. -/
def KeepsNodes (value value' : Value) : Prop :=
  (∀ node, Node.ofValue? value = some node → Node.ofValue? value' = some node) ∧
  ∀ items nodes, value = .array items → Node.ofValues? items = some nodes →
    ∃ items', value' = .array items' ∧ Node.ofValues? items' = some nodes

/-- What is found under a name before and after an addition: the same, null instead of nothing, or
an object or array that something is added to. -/
inductive Kept (holdsNodes : Prop) : Option Value → Option Value → Prop
  | same (found : Option Value) : Kept holdsNodes found found
  | null : Kept holdsNodes none (some .null)
  | changed {role : Role} {value value' : Value} (hadds : Adds role value value')
      (hnodes : holdsNodes → KeepsNodes value value') :
      Kept holdsNodes (some value) (some value')

/-- A reader that reads no object and no array that holds one. -/
def IsScalar {α : Type} (read : Value → Option α) : Prop :=
  ∀ {role : Role} {value value' : Value}, Adds role value value' → read value = none

theorem isScalar_text? : IsScalar text? := by
  rintro _ _ _ (_ | _ | _ | _) <;> rfl

theorem isScalar_bool? : IsScalar bool? := by
  rintro _ _ _ (_ | _ | _ | _) <;> rfl

theorem isScalar_count? : IsScalar count? := by
  rintro _ _ _ (_ | _ | _ | _) <;> rfl

theorem isScalar_tag : IsScalar Tag.ofValue? := by
  rintro _ _ _ (_ | _ | _ | _) <;> rfl

theorem isScalar_texts? : IsScalar texts? := by
  rintro _ _ _ (_ | _ | _ | @⟨_, before, after, value, _, hvalue⟩)
  · rfl
  · rfl
  · rfl
  · rw [texts?, List.mapM_append, List.mapM_cons, isScalar_text? hvalue]
    cases before.mapM text? <;> rfl

theorem Adds.ne_null {role : Role} {value value' : Value} (hadds : Adds role value value') :
    value ≠ .null := by
  cases hadds <;> simp

theorem Kept.imp {holdsNodes holdsNodes' : Prop} {found found' : Option Value}
    (himp : holdsNodes' → holdsNodes) (hkept : Kept holdsNodes found found') :
    Kept holdsNodes' found found' := by
  cases hkept with
  | same => exact .same _
  | null => exact .null
  | changed hadds hnodes => exact .changed hadds fun hholds ↦ hnodes (himp hholds)

section Reads

variable {holdsNodes : Prop} {found found' : Option Value}

/-- What is no object reads the same. -/
theorem Kept.reads (hkept : Kept holdsNodes found found') {α : Type}
    {read : Value → Option α} (hscalar : IsScalar read) {x : α}
    (hread : found.bind read = some x) : found'.bind read = some x := by
  cases hkept with
  | same => exact hread
  | null => exact absurd hread (by simp)
  | changed hadds => exact absurd hread (by simp [hscalar hadds])

/-- A line reads the same. -/
theorem Kept.readsLine (hkept : Kept holdsNodes found found') {line : Option Nat}
    (hread : optionalCount? found = some line) : optionalCount? found' = some line := by
  cases hkept with
  | same => exact hread
  | null => exact hread
  | changed hadds =>
    rw [optionalCount?, isScalar_count? hadds] at hread
    · exact absurd hread (by simp)
    · exact fun hnull ↦ hadds.ne_null hnull

variable {value value' : Value} {name : String}

/-- A member that is a node reads the same. -/
theorem Kept.readsNode
    (hkept : Kept holdsNodes (value.member? name) (value'.member? name)) (hnodes : holdsNodes)
    {child : Option Node} (hread : optionalMember? value name = some child) :
    optionalMember? value' name = some child := by
  generalize hfirst : value.member? name = first at hkept
  generalize hsecond : value'.member? name = second at hkept
  cases hkept with
  | same =>
    cases first with
    | none => rwa [optionalMember?_of_none hsecond, ← optionalMember?_of_none hfirst]
    | some item =>
      by_cases hnull : item = .null
      · subst hnull
        rwa [optionalMember?_of_null hsecond, ← optionalMember?_of_null hfirst]
      · rwa [optionalMember?_of_some hsecond hnull, ← optionalMember?_of_some hfirst hnull]
  | null => rwa [optionalMember?_of_null hsecond, ← optionalMember?_of_none hfirst]
  | changed hadds hkeeps =>
    rw [optionalMember?_of_some hfirst hadds.ne_null] at hread
    obtain ⟨node, hnode, rfl⟩ := Option.map_eq_some_iff.mp hread
    have hnode' := (hkeeps hnodes).1 node hnode
    rw [optionalMember?_of_some hsecond (ofValue?_ne_null hnode'), hnode', Option.map_some]

/-- A member that is an array of nodes reads the same. -/
theorem Kept.readsNodes
    (hkept : Kept holdsNodes (value.member? name) (value'.member? name)) (hnodes : holdsNodes)
    {nodes : List Node} (hread : nodesMember? value name = some nodes) :
    nodesMember? value' name = some nodes := by
  obtain ⟨items, hfirst, hitems⟩ := nodesMember?_eq_some hread
  rw [hfirst] at hkept
  generalize hsecond : value'.member? name = second at hkept
  cases hkept with
  | same => rw [nodesMember?_of_array hsecond, hitems]
  | changed hadds hkeeps =>
    obtain ⟨items', rfl, hitems'⟩ := (hkeeps hnodes).2 items nodes rfl hitems
    rw [nodesMember?_of_array hsecond, hitems']

/-- The fields of a tag read the same if every one of them is kept. -/
theorem Kind.ofValue?_of_kept {tag : Tag}
    (hkept : ∀ name ∈ tag.fields,
      Kept (name ∈ tag.nodeFields) (value.member? name) (value'.member? name))
    {kind : Kind} (hread : Kind.ofValue? tag value = some kind) :
    Kind.ofValue? tag value' = some kind := by
  cases tag with
  | text | number | string =>
    rw [Kind.ofValue?] at hread ⊢
    obtain ⟨text, htext, rfl⟩ := Option.map_eq_some_iff.mp hread
    rw [(hkept "text" (by decide)).reads isScalar_text? htext, Option.map_some]
  | «variable» | identifier | field =>
    rw [Kind.ofValue?] at hread ⊢
    obtain ⟨path, hpath, rfl⟩ := Option.map_eq_some_iff.mp hread
    rw [(hkept "ident" (by decide)).reads isScalar_texts? hpath, Option.map_some]
  | bool =>
    rw [Kind.ofValue?] at hread ⊢
    obtain ⟨flag, hflag, rfl⟩ := Option.map_eq_some_iff.mp hread
    rw [(hkept "true" (by decide)).reads isScalar_bool? hflag, Option.map_some]
  | action =>
    rw [Kind.ofValue?] at hread ⊢
    obtain ⟨pipe, hpipe, rfl⟩ := Option.map_eq_some_iff.mp hread
    rw [(hkept "pipe" (by decide)).readsNode (by decide) hpipe, Option.map_some]
  | command =>
    rw [Kind.ofValue?] at hread ⊢
    obtain ⟨operands, hoperands, rfl⟩ := Option.map_eq_some_iff.mp hread
    rw [(hkept "args" (by decide)).readsNodes (by decide) hoperands, Option.map_some]
  | pipe =>
    simp only [Kind.ofValue?, bind, Option.bind_eq_some_iff, pure, Option.some_inj] at hread ⊢
    obtain ⟨isAssign, hassign, declarations, hdeclarations, commands, hcommands, rfl⟩ := hread
    have hassign' : ((value.member? "isAssign").bind bool?) = some isAssign :=
      Option.bind_eq_some_iff.mpr hassign
    exact ⟨isAssign, Option.bind_eq_some_iff.mp
        ((hkept "isAssign" (by decide)).reads isScalar_bool? hassign'),
      declarations, (hkept "decl" (by decide)).readsNodes (by decide) hdeclarations,
      commands, (hkept "cmds" (by decide)).readsNodes (by decide) hcommands, rfl⟩
  | chain =>
    simp only [Kind.ofValue?, bind, Option.bind_eq_some_iff, pure, Option.some_inj] at hread ⊢
    obtain ⟨base, hbase, path, hpath, rfl⟩ := hread
    have hpath' : ((value.member? "field").bind texts?) = some path :=
      Option.bind_eq_some_iff.mpr hpath
    exact ⟨base, (hkept "node" (by decide)).readsNode (by decide) hbase, path,
      Option.bind_eq_some_iff.mp
        ((hkept "field" (by decide)).reads isScalar_texts? hpath'), rfl⟩
  | dot | nil =>
    rw [Kind.ofValue?] at hread ⊢
    exact hread

/-- A node reads the same if every member that is known of it is kept. -/
theorem Node.ofValue?_of_kept {node : Node}
    (hkept : ∀ key ∈ "nodeType" :: "pos" :: "line" :: node.tag.fields,
      Kept (key ∈ node.tag.nodeFields) (value.member? key) (value'.member? key))
    (hread : Node.ofValue? value = some node) : Node.ofValue? value' = some node := by
  obtain ⟨htag, hpos, hline, hkind⟩ := Node.ofValue?_eq_some_iff.mp hread
  simp only [List.forall_mem_cons] at hkept
  obtain ⟨hnodeType, hoffset, hlast, hfields⟩ := hkept
  apply Node.ofValue?_eq_some_iff.mpr
  exact ⟨hnodeType.reads isScalar_tag htag, hoffset.reads isScalar_count? hpos,
    hlast.readsLine hline, Kind.ofValue?_of_kept hfields hkind⟩

end Reads

/-! ### Additions are not seen -/

theorem ofValues?_change {before after : List Value} {value value' : Value}
    (hvalue : ∀ node, Node.ofValue? value = some node → Node.ofValue? value' = some node)
    {nodes : List Node} (hread : Node.ofValues? (before ++ value :: after) = some nodes) :
    Node.ofValues? (before ++ value' :: after) = some nodes := by
  induction before generalizing nodes with
  | nil =>
    simp only [List.nil_append, Node.ofValues?, bind, Option.bind_eq_some_iff] at hread ⊢
    obtain ⟨node, hnode, rest, hrest, hsame⟩ := hread
    exact ⟨node, hvalue node hnode, rest, hrest, hsame⟩
  | cons first before ih =>
    simp only [List.cons_append, Node.ofValues?, bind, Option.bind_eq_some_iff] at hread ⊢
    obtain ⟨node, hnode, rest, hrest, hsame⟩ := hread
    exact ⟨node, hnode, rest, ih hrest, hsame⟩

section Objects

variable {role : Role} {before after : List (String × Value)} {name : String}

/-- An unknown member changes nothing that is known. -/
theorem kept_unknown (value : Value) (hname : name ∉ role.names (before ++ after)) :
    ∀ key ∈ role.names (before ++ after),
      Kept (role.member (before ++ after) key = .node) (Value.lookup key (before ++ after))
        (Value.lookup key (before ++ (name, value) :: after)) := by
  intro key hkey
  have hne : name ≠ key := fun hsame ↦ hname (hsame ▸ hkey)
  rw [lookup_insert_of_ne before after name key value hne]
  exact .same _

/-- A null is found instead of nothing. -/
theorem kept_null (habsent : Value.lookup name (before ++ after) = none) (key : String) :
    Kept (role.member (before ++ after) key = .node) (Value.lookup key (before ++ after))
      (Value.lookup key (before ++ (name, .null) :: after)) := by
  by_cases hsame : name = key
  · subst hsame
    rw [lookup_insert_of_none before after name .null habsent, habsent]
    exact .null
  · rw [lookup_insert_of_ne before after name key .null hsame]
    exact .same _

/-- A member that is added to is found as it is then. -/
theorem kept_member {value value' : Value}
    (hvalue : Adds (role.member (before ++ (name, value) :: after) name) value value')
    (hnodes : role.member (before ++ (name, value) :: after) name = .node →
      KeepsNodes value value') (key : String) :
    Kept (role.member (before ++ (name, value) :: after) key = .node)
      (Value.lookup key (before ++ (name, value) :: after))
      (Value.lookup key (before ++ (name, value') :: after)) := by
  rcases lookup_change before after name key value value' with hsame | ⟨rfl, hfirst, hsecond⟩
  · rw [hsame]
    exact .same _
  · rw [hfirst, hsecond]
    exact .changed hvalue hnodes

variable {members members' : List (String × Value)}

/-- A node reads the same if all that is known of it is kept. -/
theorem keepsNodes_of_kept (hkept : ∀ key ∈ Role.node.names members,
      Kept (Role.node.member members key = .node) (Value.lookup key members)
        (Value.lookup key members')) :
    KeepsNodes (.object members) (.object members') := by
  refine ⟨fun node hnode ↦ ?_, fun items nodes harray _ ↦ absurd harray (by simp)⟩
  have htag : tagOf? members = some node.tag := (Node.ofValue?_eq_some_iff.mp hnode).1
  refine Node.ofValue?_of_kept (fun key hkey ↦ ?_) hnode
  rw [Role.names, htag] at hkept
  refine (hkept key hkey).imp fun hmem ↦ ?_
  rw [Role.member, htag]
  exact if_pos hmem

/-- An outline reads the same if all that is known of it is kept. -/
theorem Tree.ofValue?_of_kept (hkept : ∀ key ∈ Role.tree.names members,
      Kept (Role.tree.member members key = .node) (Value.lookup key members)
        (Value.lookup key members'))
    {tree : Tree} (hread : Tree.ofValue? (.object members) = some tree) :
    Tree.ofValue? (.object members') = some tree := by
  have hname := hkept "name" List.mem_cons_self
  have hnodes : Kept (Role.tree.member members "nodes" = .node)
      ((Value.object members).member? "nodes") ((Value.object members').member? "nodes") :=
    hkept "nodes" (List.mem_cons_of_mem _ List.mem_cons_self)
  simp only [Tree.ofValue?, bind, Option.bind_eq_some_iff, pure, Option.some_inj] at hread ⊢
  obtain ⟨text, htext, nodes, hread, rfl⟩ := hread
  have htext' := hname.reads isScalar_text? (Option.bind_eq_some_iff.mpr htext)
  exact ⟨text, Option.bind_eq_some_iff.mp htext', nodes, hnodes.readsNodes rfl hread, rfl⟩

end Objects

/-- What is added to nodes is not seen. -/
theorem Adds.keepsNodes {role : Role} {value value' : Value} (hadds : Adds role value value')
    (hrole : role = .node) : KeepsNodes value value' := by
  induction hadds with
  | unknown value hname =>
    subst hrole
    exact keepsNodes_of_kept (kept_unknown value hname)
  | null habsent => exact keepsNodes_of_kept fun key _ ↦ kept_null habsent key
  | member hvalue ih =>
    subst hrole
    exact keepsNodes_of_kept fun key _ ↦ kept_member hvalue ih key
  | item hvalue ih =>
    subst hrole
    refine ⟨fun node hnode ↦ ?_, fun items nodes harray hnodes ↦ ?_⟩
    · exact absurd (Node.ofValue?_eq_some_iff.mp hnode).1 (by simp [Value.member?])
    · obtain rfl := Value.array.inj harray
      exact ⟨_, rfl, ofValues?_change (ih rfl).1 hnodes⟩

/-- An outline that is read from an array has its name and its nodes there. -/
theorem Tree.ofValue?_array {items : List Value} {tree : Tree}
    (hread : Tree.ofValue? (.array items) = some tree) :
    ∃ name nodes, items = [name, .array nodes] ∧ text? name = some tree.name ∧
      Node.ofValues? nodes = some tree.nodes := by
  unfold Tree.ofValue? at hread
  split at hread
  · next name nodes harray =>
    obtain rfl := Value.array.inj harray
    simp only [bind, Option.bind_eq_some_iff, pure, Option.some_inj] at hread
    obtain ⟨text, htext, found, hfound, rfl⟩ := hread
    exact ⟨name, nodes, rfl, htext, hfound⟩
  · exact absurd hread (by simp [Value.member?])

/-- What is added to an outline is not seen. -/
theorem Tree.ofValue?_of_adds {value value' : Value} (hadds : Adds .tree value value')
    {tree : Tree} (hread : Tree.ofValue? value = some tree) : Tree.ofValue? value' = some tree := by
  cases hadds with
  | unknown value hname => exact Tree.ofValue?_of_kept (kept_unknown value hname) hread
  | null habsent => exact Tree.ofValue?_of_kept (fun key _ ↦ kept_null habsent key) hread
  | member hvalue =>
    exact Tree.ofValue?_of_kept (fun key _ ↦ kept_member hvalue hvalue.keepsNodes key) hread
  | @item _ before after value value' hvalue =>
    obtain ⟨name, nodes, hitems, hname, hnodes⟩ := Tree.ofValue?_array hread
    match before with
    | [] =>
      obtain rfl : value = name := (List.cons.inj hitems).1
      rw [isScalar_text? hvalue] at hname
      exact absurd hname (by simp)
    | [first] =>
      obtain ⟨rfl, hrest⟩ := List.cons.inj hitems
      obtain ⟨rfl, rfl⟩ := List.cons.inj hrest
      obtain ⟨nodes', rfl, hnodes'⟩ := (hvalue.keepsNodes rfl).2 nodes tree.nodes rfl hnodes
      change Tree.ofValue? (.array [first, .array nodes']) = _
      simp only [Tree.ofValue?, hname, hnodes', bind, Option.bind, pure]
    | first :: second :: others =>
      exact absurd (congrArg List.length hitems) (by simp)

end Stencil.Outline
