import Mathlib.Data.List.Forall2
import Stencil.Outline.Visit

/-!
# The order of a walk

A walk meets the nodes of a tree in pre-order: a node before what stands inside it (`partsOf`), the
targets of a pipeline before its commands, and nothing of a comment (`sourcesOf`). To each of them
that an outline has a place for, the visitor is shown a node without children (`presented?`).

What a visitor does to a tree is therefore told by a list. `visitAll` shows the visitor the nodes of
a list, one after another, and ends where it refuses one or where an outline has no place for one.
A walk *follows* a list (`Follows`) if it has the same effects and the same early end, and what it
builds at its end is told by the nodes that the visitor left. The walk of every tree follows the
pre-order of the tree (`walkNodes_follows`): what it builds has the shape of the tree (`Depicts`),
and its own pre-order is the list of nodes that the visitor left, filled in.
-/

set_option autoImplicit false
set_option relaxedAutoImplicit false

namespace Stencil.Outline

/-! ### Parts of a tree -/

/-- A node that leaves nothing behind. -/
def isComment : Syntax.Node → Bool
  | .comment .. => true
  | _ => false

/-- A node that an outline has no place for. -/
def isUnsupported : Syntax.Node → Bool
  | .branch .. => true
  | .template .. => true
  | .breakLoop _ => true
  | .continueLoop _ => true
  | _ => false

/-- The nodes that stand right inside a node, in order. -/
def partsOf : Syntax.Node → List Syntax.Node
  | .action _ inner => [.pipeline inner]
  | .pipeline inner => inner.targets.map .var ++ inner.commands.map .command
  | .command inner => inner.operands
  | .chain _ base _ => [base]
  | _ => []

/-- Nodes without the comments among them. -/
def shown (nodes : List Syntax.Node) : List Syntax.Node := nodes.filter fun node ↦ !isComment node

theorem sizeOf_of_mem_partsOf {node part : Syntax.Node} (hpart : part ∈ partsOf node) :
    sizeOf part < sizeOf node := by
  cases node with
  | action position inner =>
    obtain rfl := List.mem_singleton.mp hpart
    cases position
    simp only [Syntax.Node.action.sizeOf_spec, Syntax.Node.pipeline.sizeOf_spec,
      Syntax.Position.mk.sizeOf_spec]
    omega
  | pipeline inner =>
    obtain ⟨position, isAssign, targets, commands⟩ := inner
    simp only [Syntax.Node.pipeline.sizeOf_spec, Syntax.Pipeline.mk.sizeOf_spec]
    change part ∈ targets.map Syntax.Node.var ++ commands.map Syntax.Node.command at hpart
    rcases List.mem_append.mp hpart with hpart | hpart
    · obtain ⟨target, htarget, rfl⟩ := List.mem_map.mp hpart
      have hsize := List.sizeOf_lt_of_mem htarget
      simp only [Syntax.Node.var.sizeOf_spec]
      omega
    · obtain ⟨command, hcommand, rfl⟩ := List.mem_map.mp hpart
      have hsize := List.sizeOf_lt_of_mem hcommand
      simp only [Syntax.Node.command.sizeOf_spec]
      omega
  | command inner =>
    obtain ⟨position, operands⟩ := inner
    have hsize := List.sizeOf_lt_of_mem (show part ∈ operands from hpart)
    simp only [Syntax.Node.command.sizeOf_spec, Syntax.Command.mk.sizeOf_spec]
    omega
  | chain position base path =>
    obtain rfl := List.mem_singleton.mp hpart
    simp only [Syntax.Node.chain.sizeOf_spec]
    omega
  | _ => exact absurd hpart List.not_mem_nil

/-- A node and what stands inside it in pre-order, without comments. -/
def sourcesOf (node : Syntax.Node) : List Syntax.Node :=
  if isComment node then [] else
    node :: (partsOf node).attach.flatMap fun part ↦ sourcesOf part.1
termination_by sizeOf node
decreasing_by exact sizeOf_of_mem_partsOf part.2

theorem sourcesOf_eq (node : Syntax.Node) :
    sourcesOf node =
      if isComment node then [] else node :: (partsOf node).flatMap sourcesOf := by
  rw [sourcesOf, List.flatMap_subtype fun _ _ ↦ rfl, List.unattach_attach]

section Constructs

variable (position : Syntax.Position)

theorem sourcesOf_action (inner : Syntax.Pipeline) :
    sourcesOf (.action position inner) =
      .action position inner :: sourcesOf (.pipeline inner) := by
  rw [sourcesOf_eq]
  simp [isComment, partsOf]

theorem sourcesOf_pipeline (inner : Syntax.Pipeline) :
    sourcesOf (.pipeline inner) =
      .pipeline inner :: ((inner.targets.map .var).flatMap sourcesOf ++
        (inner.commands.map .command).flatMap sourcesOf) := by
  rw [sourcesOf_eq]
  simp [isComment, partsOf]

theorem sourcesOf_command (inner : Syntax.Command) :
    sourcesOf (.command inner) = .command inner :: inner.operands.flatMap sourcesOf := by
  rw [sourcesOf_eq]
  rfl

theorem sourcesOf_chain (base : Syntax.Node) (path : List String) :
    sourcesOf (.chain position base path) = .chain position base path :: sourcesOf base := by
  rw [sourcesOf_eq]
  simp [isComment, partsOf]

end Constructs

/-- A node with nothing inside it is all that is met of it. -/
theorem sourcesOf_of_parts {node : Syntax.Node} (hcomment : isComment node = false)
    (hparts : partsOf node = []) : sourcesOf node = [node] := by
  rw [sourcesOf_eq, hcomment, hparts]
  rfl

theorem shown_of_forall {nodes : List Syntax.Node}
    (hnodes : ∀ node ∈ nodes, isComment node = false) : shown nodes = nodes := by
  refine List.filter_eq_self.mpr fun node hnode ↦ ?_
  rw [hnodes node hnode]
  rfl

/-! ### Parts of an outline -/

theorem Node.sizeOf_of_mem_children {node child : Node} (hchild : child ∈ node.children) :
    sizeOf child < sizeOf node := by
  obtain ⟨kind, offset, line⟩ := node
  cases kind with
  | action pipe =>
    obtain rfl : pipe = some child := Option.mem_toList.mp hchild
    simp only [Node.mk.sizeOf_spec, Kind.action.sizeOf_spec, Option.some.sizeOf_spec]
    omega
  | pipe isAssign declarations commands =>
    simp only [Node.mk.sizeOf_spec, Kind.pipe.sizeOf_spec]
    rcases List.mem_append.mp hchild with hchild | hchild <;>
    · have hsize := List.sizeOf_lt_of_mem hchild
      omega
  | command operands =>
    have hsize := List.sizeOf_lt_of_mem (show child ∈ operands from hchild)
    simp only [Node.mk.sizeOf_spec, Kind.command.sizeOf_spec]
    omega
  | chain base path =>
    obtain rfl : base = some child := Option.mem_toList.mp hchild
    simp only [Node.mk.sizeOf_spec, Kind.chain.sizeOf_spec, Option.some.sizeOf_spec]
    omega
  | _ => exact absurd hchild List.not_mem_nil

/-- A node of an outline and what is below it in pre-order. -/
def Node.preorder (node : Node) : List Node :=
  node :: node.children.attach.flatMap fun child ↦ child.1.preorder
termination_by sizeOf node
decreasing_by exact Node.sizeOf_of_mem_children child.2

theorem Node.preorder_eq (node : Node) :
    node.preorder = node :: node.children.flatMap Node.preorder := by
  rw [Node.preorder, List.flatMap_subtype fun _ _ ↦ rfl, List.unattach_attach]

/-! ### What a visitor is shown -/

/-- The tag of a node with the fields of the tag, apart from children. -/
def kindOf? : Syntax.Node → Option Kind
  | .text _ text => some (.text text)
  | .action .. => some (.action none)
  | .pipeline inner => some (.pipe inner.isAssign [] [])
  | .command _ => some (.command [])
  | .identifier _ name => some (.identifier [name])
  | .var reference => some (.variable reference.path)
  | .dot _ => some .dot
  | .nil _ => some .nil
  | .field _ path => some (.field path)
  | .chain _ _ path => some (.chain none path)
  | .bool _ value => some (.bool value)
  | .number literal => some (.number literal.text)
  | .string _ _ text => some (.string text)
  | _ => none

/-- A kind without children. -/
def Kind.hollow : Kind → Kind
  | .action _ => .action none
  | .pipe isAssign _ _ => .pipe isAssign [] []
  | .command _ => .command []
  | .chain _ path => .chain none path
  | kind => kind

/-- A kind without children, and without the fields that are taken of a child. -/
def Kind.bare : Kind → Kind
  | .chain _ _ => .chain none []
  | kind => kind.hollow

/-- The node that a visitor is shown of a node, if there is one. -/
def presented? (source : Syntax.Node) : Option Node :=
  (kindOf? source).map fun kind ↦ located kind.bare source.position

theorem Kind.children_bare (kind : Kind) (offset : Nat) (line : Option Nat) :
    Node.children ⟨kind.bare, offset, line⟩ = [] := by
  cases kind <;> rfl

/-- A visitor is shown every node but comments and those without a place in an outline. -/
theorem presented?_eq_none_iff (source : Syntax.Node) :
    presented? source = none ↔ isComment source ∨ isUnsupported source := by
  cases source <;> simp [presented?, kindOf?, isComment, isUnsupported]

section Visits

variable {σ ε α β : Type} {visitor : Visitor σ ε}

/-- Shows the nodes of a list to a visitor, one after another, and gives the nodes that it left. -/
def visitAll (visitor : Visitor σ ε) : List Syntax.Node → Walk σ ε (List Node)
  | [] => return []
  | source :: rest =>
    match presented? source with
    | none => throw (.unsupported ⟨source.kindName, source.position⟩)
    | some node => do
      let left ← present visitor source node
      return left :: (← visitAll visitor rest)

/-- A step goes on from the state in which the one before it ended, unless that failed. -/
theorem run_bind (first : Walk σ ε α) (next : α → Walk σ ε β) (state : σ) :
    (first >>= next).run state =
      match first.run state with
      | (.ok value, after) => (next value).run after
      | (.error stop, after) => (.error stop, after) := by
  change (match first.run state with | (result, after) => ExceptT.bindCont next result after) = _
  rcases first.run state with ⟨result | result, after⟩ <;> rfl

/-- A visitor's refusal ends a walk and is its reason. -/
theorem run_present (source : Syntax.Node) (node : Node) (state : σ) :
    (present visitor source node).run state =
      match (visitor source node).run state with
      | (.ok changed, after) => (.ok changed, after)
      | (.error reason, after) => (.error (.refused reason), after) := rfl

/-- What comes of showing a visitor a list of which it is shown the first node. -/
theorem run_visitAll_cons {source : Syntax.Node} {node : Node}
    (hsource : presented? source = some node) (rest : List Syntax.Node) (state : σ) :
    (visitAll visitor (source :: rest)).run state =
      match (visitor source node).run state with
      | (.ok left, after) =>
        match (visitAll visitor rest).run after with
        | (.ok others, last) => (.ok (left :: others), last)
        | (.error stop, last) => (.error stop, last)
      | (.error reason, after) => (.error (.refused reason), after) := by
  rw [visitAll, hsource]
  dsimp only
  rw [run_bind, run_present]
  rcases (visitor source node).run state with ⟨reason | left, after⟩
  · rfl
  · dsimp only
    rw [run_bind]
    rcases (visitAll visitor rest).run after with ⟨stop | others, last⟩ <;> rfl

theorem visitAll_append (first second : List Syntax.Node) :
    visitAll visitor (first ++ second) = do
      let left ← visitAll visitor first
      return left ++ (← visitAll visitor second) := by
  induction first with
  | nil => simp [visitAll]
  | cons source rest ih =>
    simp only [List.cons_append, visitAll, ih]
    cases presented? source with
    | none => rfl
    | some node => simp only [bind_assoc, pure_bind, List.cons_append]

/-! ### Following a list -/

/-- A walk has the effects and the early end of showing its visitor the nodes of a list, and what
it builds at its end is right for the nodes that the visitor left. -/
def Follows (visitor : Visitor σ ε) (walk : Walk σ ε α) (order : List Syntax.Node)
    (good : α → List Node → Prop) : Prop :=
  ∀ state,
    (∃ built left after, walk.run state = (.ok built, after) ∧
      (visitAll visitor order).run state = (.ok left, after) ∧ good built left) ∨
    ∃ stop after, walk.run state = (.error stop, after) ∧
      (visitAll visitor order).run state = (.error stop, after)

/-- A walk comes to its end with the visits that it follows. -/
theorem Follows.run_ok {walk : Walk σ ε α} {order : List Syntax.Node}
    {good : α → List Node → Prop} (hwalk : Follows visitor walk order good) {state after : σ}
    {left : List Node} (hvisit : (visitAll visitor order).run state = (.ok left, after)) :
    ∃ built, walk.run state = (.ok built, after) ∧ good built left := by
  rcases hwalk state with ⟨built, left', after', hrun, hall, hbuilt⟩ | ⟨stop, after', -, hall⟩
  · obtain ⟨hleft, rfl⟩ := Prod.mk.inj (hall.symm.trans hvisit)
    obtain rfl := Except.ok.inj hleft
    exact ⟨built, hrun, hbuilt⟩
  · exact absurd (Prod.mk.inj (hall.symm.trans hvisit)).1 (by simp)

/-- A walk ends early with the visits that it follows. -/
theorem Follows.run_error {walk : Walk σ ε α} {order : List Syntax.Node}
    {good : α → List Node → Prop} (hwalk : Follows visitor walk order good) {state after : σ}
    {stop : Stop ε} (hvisit : (visitAll visitor order).run state = (.error stop, after)) :
    walk.run state = (.error stop, after) := by
  rcases hwalk state with ⟨built, left', after', -, hall, -⟩ | ⟨stop', after', hrun, hall⟩
  · exact absurd (Prod.mk.inj (hall.symm.trans hvisit)).1 (by simp)
  · obtain ⟨hstop, rfl⟩ := Prod.mk.inj (hall.symm.trans hvisit)
    obtain rfl := Except.error.inj hstop
    exact hrun

theorem Follows.pure {good : α → List Node → Prop} {value : α} (hvalue : good value []) :
    Follows visitor (pure value) [] good :=
  fun state ↦ .inl ⟨value, [], state, rfl, rfl, hvalue⟩

theorem Follows.mono {walk : Walk σ ε α} {order : List Syntax.Node}
    {good good' : α → List Node → Prop} (hwalk : Follows visitor walk order good)
    (hgood : ∀ built left, good built left → good' built left) :
    Follows visitor walk order good' := by
  intro state
  rcases hwalk state with ⟨built, left, after, hrun, hvisit, hbuilt⟩ | hstop
  · exact .inl ⟨built, left, after, hrun, hvisit, hgood built left hbuilt⟩
  · exact .inr hstop

/-- A walk goes on behind the list of its first part. -/
theorem Follows.bind {walk : Walk σ ε α} {next : α → Walk σ ε β} {order more : List Syntax.Node}
    {good : α → List Node → Prop} {good' : β → List Node → Prop}
    (hwalk : Follows visitor walk order good)
    (hnext : ∀ built left, good built left →
      Follows visitor (next built) more fun last later ↦ good' last (left ++ later)) :
    Follows visitor (walk >>= next) (order ++ more) good' := by
  intro state
  rw [run_bind, visitAll_append, run_bind]
  rcases hwalk state with ⟨built, left, after, hrun, hvisit, hbuilt⟩ | ⟨stop, after, hrun, hvisit⟩
  · rw [hrun, hvisit]
    dsimp only
    rw [run_bind]
    rcases hnext built left hbuilt after with
      ⟨last, later, final, hrun', hvisit', hlast⟩ | ⟨stop, final, hrun', hvisit'⟩
    · rw [hrun', hvisit']
      exact .inl ⟨last, left ++ later, final, rfl, rfl, hlast⟩
    · rw [hrun', hvisit']
      exact .inr ⟨stop, final, rfl, rfl⟩
  · rw [hrun, hvisit]
    exact .inr ⟨stop, after, rfl, rfl⟩

theorem Follows.map {walk : Walk σ ε α} {order : List Syntax.Node}
    {good : α → List Node → Prop} {good' : β → List Node → Prop} {build : α → β}
    (hwalk : Follows visitor walk order good)
    (hbuild : ∀ built left, good built left → good' (build built) left) :
    Follows visitor (walk >>= fun built ↦ Pure.pure (build built)) order good' := by
  have hall : Follows visitor (walk >>= fun built ↦ Pure.pure (build built)) (order ++ []) good' :=
    hwalk.bind fun built left hbuilt ↦ .pure (by
      rw [List.append_nil]
      exact hbuild built left hbuilt)
  rwa [List.append_nil] at hall

/-- A walk ends at a node without a place in an outline. -/
theorem Follows.unsupported {source : Syntax.Node} (hsource : presented? source = none)
    (more : List Syntax.Node) (good : α → List Node → Prop) :
    Follows visitor (throw (.unsupported ⟨source.kindName, source.position⟩)) (source :: more)
      good := by
  intro state
  refine .inr ⟨.unsupported ⟨source.kindName, source.position⟩, state, rfl, ?_⟩
  rw [visitAll, hsource]
  rfl

/-- A visitor keeps the kind of every node that it is shown and accepts, and leaves it at a place
that is right for its source. -/
def Leaves (visitor : Visitor σ ε) (placed : Syntax.Node → Nat → Option Nat → Prop) : Prop :=
  ∀ source node state left after, presented? source = some node →
    (visitor source node).run state = (.ok left, after) →
      left.kind = node.kind ∧ placed source left.offset left.line

/-- Showing one node is following a list of one. -/
theorem Follows.present {placed : Syntax.Node → Nat → Option Nat → Prop}
    (hvisitor : Leaves visitor placed) {source : Syntax.Node} {node : Node}
    (hsource : presented? source = some node) :
    Follows visitor (present visitor source node) [source] fun built left ↦
      left = [built] ∧ built.kind = node.kind ∧ placed source built.offset built.line := by
  intro state
  have hvisit : visitAll visitor [source] =
      Outline.present visitor source node >>= fun left ↦ Pure.pure [left] := by
    rw [visitAll, hsource]
    rfl
  rw [hvisit, run_bind, run_present]
  rcases hanswer : (visitor source node).run state with ⟨reason | left, after⟩
  · exact .inr ⟨.refused reason, after, rfl, rfl⟩
  · exact .inl ⟨left, [left], after, rfl, rfl, rfl,
      hvisitor source node state left after hsource hanswer⟩

/-- A walk that shows one node and goes on follows the node and then what it goes on with. -/
theorem Follows.presenting {placed : Syntax.Node → Nat → Option Nat → Prop}
    (hvisitor : Leaves visitor placed) {source : Syntax.Node} {node : Node}
    (hsource : presented? source = some node) {next : Node → Walk σ ε α}
    {more : List Syntax.Node} {good : α → List Node → Prop}
    (hnext : ∀ kept, kept.kind = node.kind → placed source kept.offset kept.line →
      Follows visitor (next kept) more fun built later ↦ good built (kept :: later)) :
    Follows visitor (Outline.present visitor source node >>= next) (source :: more) good := by
  refine (Follows.present hvisitor hsource).bind ?_
  rintro kept left ⟨rfl, hkind, hplaced⟩
  exact hnext kept hkind hplaced

end Visits

end Stencil.Outline
