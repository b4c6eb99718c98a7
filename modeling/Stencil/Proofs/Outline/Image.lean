import Stencil.Proofs.Outline.Order

/-!
# The outline of a tree is its image

A node of an outline stands for a node of a tree if it has its tag, the fields of the tag and a
place that is right for it, and what stands inside the one stands for what stands inside the other,
apart from comments (`Depicts`). What a walk builds stands for what it walked, and its pre-order is
the list of nodes that the visitor left (`walkNodes_follows`).

For a visitor that accepts every node as it is, that settles the outline (`outline_image`): it is
the image of the tree, or the walk ends at the first node in pre-order that an outline has no place
for.
-/

set_option autoImplicit false
set_option relaxedAutoImplicit false

namespace Stencil.Outline

/-! ### What an outline shows of a tree -/

/-- How many of the children of a kind are declarations. -/
def Kind.declared : Kind → Nat
  | .pipe _ declarations _ => declarations.length
  | _ => 0

/-- How many of the nodes right inside a node are targets of a pipeline. -/
def targetsOf : Syntax.Node → Nat
  | .pipeline inner => inner.targets.length
  | _ => 0

theorem Kind.hollow_of_bare {kind : Kind} (hbare : kind.bare = kind) :
    kind.hollow = kind ∧ kind.declared = 0 := by
  cases kind <;> simp_all [Kind.bare, Kind.hollow, Kind.declared]

theorem targetsOf_of_parts {source : Syntax.Node} (hparts : partsOf source = []) :
    targetsOf source = 0 := by
  cases source with
  | pipeline inner =>
    have htargets := (List.append_eq_nil_iff.mp hparts).1
    rw [targetsOf, List.map_eq_nil_iff.mp htargets, List.length_nil]
  | _ => rfl

/-- A node of an outline stands for a node of a tree: it has the tag of the node, the fields of the
tag and a place that is right for it, and its children stand one for one for what is right inside
the node, apart from comments, declarations for targets. -/
inductive Depicts (placed : Syntax.Node → Nat → Option Nat → Prop) : Syntax.Node → Node → Prop
  | intro {source : Syntax.Node} {node : Node} (hkind : kindOf? source = some node.kind.hollow)
      (hplaced : placed source node.offset node.line)
      (hchildren : List.Forall₂ (Depicts placed) (shown (partsOf source)) node.children)
      (hdeclared : node.kind.declared = targetsOf source) :
      Depicts placed source node

/-- A node has the tag and the place of another. -/
def Agrees (node other : Node) : Prop :=
  node.tag = other.tag ∧ node.offset = other.offset ∧ node.line = other.line

/-- The nodes of an outline stand for nodes of a tree, and in pre-order they are where a list of
nodes says. -/
structure Grown (placed : Syntax.Node → Nat → Option Nat → Prop) (sources : List Syntax.Node)
    (built left : List Node) : Prop where
  depicts : List.Forall₂ (Depicts placed) (shown sources) built
  agrees : List.Forall₂ Agrees left (built.flatMap Node.preorder)

/-- Two lists that a third one goes with one for one go with one another. -/
theorem forall₂_meet {α β γ : Type} {first : β → α → Prop} {second : β → γ → Prop}
    {both : α → γ → Prop} {xs : List α} {ys : List β} {zs : List γ}
    (hboth : ∀ b ∈ ys, ∀ a c, first b a → second b c → both a c)
    (hfirst : List.Forall₂ first ys xs) (hsecond : List.Forall₂ second ys zs) :
    List.Forall₂ both xs zs := by
  induction hfirst generalizing zs with
  | nil => exact (List.forall₂_nil_left_iff.mp hsecond) ▸ .nil
  | cons hhead _ ih =>
    obtain ⟨other, others, hhead', htail', rfl⟩ := List.forall₂_cons_left_iff.mp hsecond
    obtain ⟨hboth, hrest⟩ := List.forall_mem_cons.mp hboth
    exact .cons (hboth _ _ hhead hhead') (ih hrest htail')

section Growth

variable {placed : Syntax.Node → Nat → Option Nat → Prop}

theorem Grown.nil : Grown placed [] [] [] := ⟨.nil, .nil⟩

theorem Grown.append {sources sources' : List Syntax.Node} {built built' left left' : List Node}
    (hfirst : Grown placed sources built left) (hsecond : Grown placed sources' built' left') :
    Grown placed (sources ++ sources') (built ++ built') (left ++ left') where
  depicts := by
    rw [shown, List.filter_append]
    exact List.rel_append hfirst.depicts hsecond.depicts
  agrees := by
    rw [List.flatMap_append]
    exact List.rel_append hfirst.agrees hsecond.agrees

/-- A comment leaves nothing behind. -/
theorem Grown.comment {source : Syntax.Node} (hsource : isComment source = true) :
    Grown placed [source] [] [] where
  depicts := by
    rw [shown, List.filter_cons_of_neg (by simp [hsource])]
    exact .nil
  agrees := .nil

/-- A node that is filled in grows from what is inside it. -/
theorem Grown.node {source : Syntax.Node} {node kept : Node} {left : List Node}
    (hsource : isComment source = false) (hdepicts : Depicts placed source node)
    (hagrees : Agrees kept node)
    (hchildren : List.Forall₂ Agrees left (node.children.flatMap Node.preorder)) :
    Grown placed [source] [node] (kept :: left) where
  depicts := by
    rw [shown, List.filter_cons_of_pos (by simp [hsource])]
    exact .cons hdepicts .nil
  agrees := by
    rw [List.flatMap_singleton, Node.preorder_eq]
    exact .cons hagrees hchildren

end Growth

/-! ### Walks -/

section Walks

variable {σ ε : Type} {visitor : Visitor σ ε}
  {placed : Syntax.Node → Nat → Option Nat → Prop}

/-- A leaf is built of its kind. -/
theorem leaf_follows (hvisitor : Leaves visitor placed) {source : Syntax.Node} {kind : Kind}
    (hkind : kindOf? source = some kind) (hbare : kind.bare = kind)
    (hparts : partsOf source = []) (hsource : isComment source = false) :
    Follows visitor (leaf visitor source kind) (sourcesOf source)
      fun built left ↦ Grown placed [source] [built] left := by
  have hpresented : presented? source = some (located kind source.position) := by
    rw [presented?, hkind, Option.map_some, hbare]
  rw [sourcesOf_of_parts hsource hparts]
  refine (Follows.present hvisitor hpresented).mono ?_
  rintro built left ⟨rfl, hkept, hplaced⟩
  obtain ⟨hhollow, hdeclared⟩ := Kind.hollow_of_bare hbare
  have hchildren : built.children = [] := by
    obtain ⟨own, offset, line⟩ := built
    obtain rfl : own = kind := hkept
    rw [← hbare]
    exact Kind.children_bare own offset line
  have hdepicts : Depicts placed source built := by
    apply Depicts.intro
    · rw [hkind, hkept]
      exact congrArg some hhollow.symm
    · exact hplaced
    · rw [hparts, hchildren]
      exact .nil
    · rw [hkept, targetsOf_of_parts hparts]
      exact hdeclared
  refine .node hsource hdepicts ⟨rfl, rfl, rfl⟩ ?_
  rw [hchildren]
  exact .nil

theorem walkVariables_follows (hvisitor : Leaves visitor placed) (targets : List Syntax.Variable) :
    Follows visitor (walkVariables visitor targets) ((targets.map .var).flatMap sourcesOf)
      (Grown placed (targets.map .var)) := by
  induction targets with
  | nil => exact .pure .nil
  | cons target rest ih =>
    have htarget : Follows visitor (leaf visitor (.var target) (.variable target.path))
        (sourcesOf (.var target)) fun built left ↦ Grown placed [.var target] [built] left :=
      leaf_follows hvisitor rfl rfl rfl rfl
    exact htarget.bind fun _ _ hbuilt ↦ ih.map fun _ _ hnodes ↦ hbuilt.append hnodes

/-- A leaf of a tree is a leaf of its outline. -/
theorem some_leaf_follows (hvisitor : Leaves visitor placed) {source : Syntax.Node} {kind : Kind}
    (hkind : kindOf? source = some kind) (hbare : kind.bare = kind)
    (hparts : partsOf source = []) (hsource : isComment source = false) :
    Follows visitor (leaf visitor source kind >>= fun node ↦ pure (some node)) (sourcesOf source)
      fun built left ↦ Grown placed [source] built.toList left :=
  (leaf_follows hvisitor hkind hbare hparts hsource).map fun _ _ hbuilt ↦ hbuilt

mutual

/-- Every node is walked in pre-order. -/
theorem walkNode_follows (hvisitor : Leaves visitor placed) (source : Syntax.Node) :
    Follows visitor (walkNode visitor source) (sourcesOf source)
      fun built left ↦ Grown placed [source] built.toList left := by
  match source with
  | .comment _ _ =>
    rw [sourcesOf_eq, walkNode]
    exact .pure (.comment rfl)
  | .action position inner =>
    rw [sourcesOf_action, walkNode]
    refine .presenting hvisitor rfl fun node hkind hplaced ↦ ?_
    refine (walkPipeline_follows hvisitor inner).map fun pipe later hpipe ↦ ?_
    obtain ⟨kind, offset, line⟩ := node
    obtain rfl : kind = .action none := hkind
    exact .node rfl (.intro rfl hplaced hpipe.depicts rfl) ⟨rfl, rfl, rfl⟩ hpipe.agrees
  | .pipeline inner =>
    rw [walkNode]
    exact (walkPipeline_follows hvisitor inner).map fun _ _ hbuilt ↦ hbuilt
  | .command inner =>
    rw [walkNode]
    exact (walkCommand_follows hvisitor inner).map fun _ _ hbuilt ↦ hbuilt
  | .chain position base path =>
    rw [sourcesOf_chain, walkNode]
    refine .presenting hvisitor rfl fun node hkind hplaced ↦ ?_
    refine (walkNode_follows hvisitor base).map fun built later hbuilt ↦ ?_
    obtain ⟨kind, offset, line⟩ := node
    obtain rfl : kind = .chain none [] := hkind
    exact .node rfl (.intro rfl hplaced hbuilt.depicts rfl) ⟨rfl, rfl, rfl⟩ hbuilt.agrees
  | .text _ _ => exact some_leaf_follows hvisitor rfl rfl rfl rfl
  | .identifier _ _ => exact some_leaf_follows hvisitor rfl rfl rfl rfl
  | .var _ => exact some_leaf_follows hvisitor rfl rfl rfl rfl
  | .dot _ => exact some_leaf_follows hvisitor rfl rfl rfl rfl
  | .nil _ => exact some_leaf_follows hvisitor rfl rfl rfl rfl
  | .field _ _ => exact some_leaf_follows hvisitor rfl rfl rfl rfl
  | .bool _ _ => exact some_leaf_follows hvisitor rfl rfl rfl rfl
  | .number _ => exact some_leaf_follows hvisitor rfl rfl rfl rfl
  | .string _ _ _ => exact some_leaf_follows hvisitor rfl rfl rfl rfl
  | .branch .. | .template .. | .breakLoop _ | .continueLoop _ =>
    rw [sourcesOf_eq, walkNode]
    · exact Follows.unsupported rfl _ _
    all_goals simp

/-- Every pipeline is walked in pre-order. -/
theorem walkPipeline_follows (hvisitor : Leaves visitor placed) (inner : Syntax.Pipeline) :
    Follows visitor (walkPipeline visitor inner) (sourcesOf (.pipeline inner))
      fun built left ↦ Grown placed [.pipeline inner] [built] left := by
  obtain ⟨position, isAssign, targets, commands⟩ := inner
  rw [sourcesOf_pipeline, walkPipeline]
  refine .presenting hvisitor rfl fun node hkind hplaced ↦ ?_
  refine (walkVariables_follows hvisitor targets).bind fun declarations later hdeclarations ↦ ?_
  refine (walkCommands_follows hvisitor commands).map fun stages last hstages ↦ ?_
  obtain ⟨kind, offset, line⟩ := node
  obtain rfl : kind = .pipe isAssign [] [] := hkind
  have hall := hdeclarations.append hstages
  have hlength : declarations.length = targets.length := by
    have htargets : shown (targets.map .var) = targets.map .var := by
      refine shown_of_forall fun node hnode ↦ ?_
      obtain ⟨target, -, rfl⟩ := List.mem_map.mp hnode
      rfl
    rw [← hdeclarations.depicts.length_eq, htargets, List.length_map]
  exact .node rfl (.intro rfl hplaced hall.depicts hlength) ⟨rfl, rfl, rfl⟩ hall.agrees

/-- Every list of commands is walked in pre-order. -/
theorem walkCommands_follows (hvisitor : Leaves visitor placed) (commands : List Syntax.Command) :
    Follows visitor (walkCommands visitor commands) ((commands.map .command).flatMap sourcesOf)
      (Grown placed (commands.map .command)) := by
  match commands with
  | [] => exact .pure .nil
  | command :: rest =>
    exact (walkCommand_follows hvisitor command).bind fun _ _ hbuilt ↦
      (walkCommands_follows hvisitor rest).map fun _ _ hnodes ↦ hbuilt.append hnodes

/-- Every command is walked in pre-order. -/
theorem walkCommand_follows (hvisitor : Leaves visitor placed) (inner : Syntax.Command) :
    Follows visitor (walkCommand visitor inner) (sourcesOf (.command inner))
      fun built left ↦ Grown placed [.command inner] [built] left := by
  obtain ⟨position, operands⟩ := inner
  rw [sourcesOf_command, walkCommand]
  refine .presenting hvisitor rfl fun node hkind hplaced ↦ ?_
  refine (walkNodes_follows hvisitor operands).map fun built later hbuilt ↦ ?_
  obtain ⟨kind, offset, line⟩ := node
  obtain rfl : kind = .command [] := hkind
  exact .node rfl (.intro rfl hplaced hbuilt.depicts rfl) ⟨rfl, rfl, rfl⟩ hbuilt.agrees

/-- Every list of nodes is walked in pre-order. -/
theorem walkNodes_follows (hvisitor : Leaves visitor placed) (nodes : List Syntax.Node) :
    Follows visitor (walkNodes visitor nodes) (nodes.flatMap sourcesOf) (Grown placed nodes) := by
  match nodes with
  | [] => exact .pure .nil
  | node :: rest =>
    exact (walkNode_follows hvisitor node).bind fun _ _ hbuilt ↦
      (walkNodes_follows hvisitor rest).map fun _ _ hnodes ↦ hbuilt.append hnodes

end

end Walks

/-! ### The walk of a visitor that accepts -/

/-- No comment is met on a walk. -/
theorem isComment_of_mem_sourcesOf (node : Syntax.Node) :
    ∀ source ∈ sourcesOf node, isComment source = false := by
  intro source hsource
  rw [sourcesOf_eq] at hsource
  by_cases hcomment : isComment node = true
  · rw [if_pos hcomment] at hsource
    exact absurd hsource List.not_mem_nil
  · rw [if_neg hcomment] at hsource
    rcases List.mem_cons.mp hsource with rfl | hbelow
    · exact Bool.not_eq_true _ ▸ hcomment
    · obtain ⟨part, hpart, hmem⟩ := List.mem_flatMap.mp hbelow
      exact isComment_of_mem_sourcesOf part source hmem
termination_by sizeOf node
decreasing_by exact sizeOf_of_mem_partsOf hpart

theorem Kind.tag_bare (kind : Kind) : kind.bare.tag = kind.tag := by
  cases kind <;> rfl

/-- The place of a node of a tree. -/
def atSource (source : Syntax.Node) (offset : Nat) (line : Option Nat) : Prop :=
  offset = source.position.offset ∧ line = some source.position.line

section Accepting

variable {σ ε : Type} {visitor : Visitor σ ε}

/-- A visitor that accepts what it is shown and changes nothing of it. -/
def Visitor.Accepts (visitor : Visitor σ ε) : Prop :=
  ∀ source node state, ((visitor source node).run state).1 = .ok node

theorem Visitor.accepting_accepts : (Visitor.accepting : Visitor σ ε).Accepts :=
  fun _ _ _ ↦ rfl

theorem Visitor.Accepts.leaves (hvisitor : visitor.Accepts) : Leaves visitor atSource := by
  intro source node state left after hsource hrun
  have hleft : left = node := by
    have haccept := hvisitor source node state
    rw [hrun] at haccept
    exact Except.ok.inj haccept
  obtain ⟨kind, -, rfl⟩ := Option.map_eq_some_iff.mp hsource
  subst hleft
  exact ⟨rfl, rfl, rfl⟩

/-- A visitor that accepts is shown nodes up to the first without a place in an outline, and leaves
them as they were shown. -/
theorem visitAll_accepts (hvisitor : visitor.Accepts) (order : List Syntax.Node)
    (horder : ∀ source ∈ order, isComment source = false) (state : σ) :
    ((visitAll visitor order).run state).1 =
      match order.find? isUnsupported with
      | some found => .error (.unsupported ⟨found.kindName, found.position⟩)
      | none => .ok (order.filterMap presented?) := by
  induction order generalizing state with
  | nil => rfl
  | cons source rest ih =>
    by_cases hfound : isUnsupported source = true
    · have hnone : presented? source = none := (presented?_eq_none_iff source).mpr (.inr hfound)
      rw [List.find?_cons_of_pos hfound, visitAll, hnone]
      rfl
    · obtain ⟨node, hnode⟩ : ∃ node, presented? source = some node := by
        rw [← Option.ne_none_iff_exists', Ne, presented?_eq_none_iff,
          horder source List.mem_cons_self]
        simp [hfound]
      have haccept := hvisitor source node state
      rw [List.find?_cons_of_neg hfound, List.filterMap_cons_some hnode, run_visitAll_cons hnode]
      rcases hanswer : (visitor source node).run state with ⟨answer, after⟩
      rw [hanswer] at haccept
      obtain rfl : answer = .ok node := haccept
      have hrest := ih (fun later hlater ↦ horder later (List.mem_cons_of_mem _ hlater)) after
      dsimp only
      rcases hothers : (visitAll visitor rest).run after with ⟨others, last⟩
      rw [hothers] at hrest
      obtain rfl : others = _ := hrest
      cases rest.find? isUnsupported <;> rfl

/-- Without a node that has no place in an outline, a visitor is shown a node for every node. -/
theorem forall₂_presented {order : List Syntax.Node}
    (horder : ∀ source ∈ order, isComment source = false)
    (hfind : order.find? isUnsupported = none) :
    List.Forall₂ (fun node source ↦ presented? source = some node)
      (order.filterMap presented?) order := by
  induction order with
  | nil => exact .nil
  | cons source rest ih =>
    obtain ⟨hsource, hrest⟩ := List.forall_mem_cons.mp horder
    obtain ⟨hfound, hnone⟩ := List.forall_mem_cons.mp (List.find?_eq_none.mp hfind)
    obtain ⟨node, hnode⟩ : ∃ node, presented? source = some node := by
      rw [← Option.ne_none_iff_exists', Ne, presented?_eq_none_iff, hsource]
      simp [hfound]
    rw [List.filterMap_cons_some hnode]
    exact .cons hnode (ih hrest (List.find?_eq_none.mpr hnone))

/-- What a visitor is shown has the tag of its source, and so has what agrees with it. -/
theorem tag_of_presented {source : Syntax.Node} {node shown : Node}
    (hshown : presented? source = some shown) (hagrees : Agrees shown node) :
    (kindOf? source).map Kind.tag = some node.tag ∧ atSource source node.offset node.line := by
  obtain ⟨kind, hkind, rfl⟩ := Option.map_eq_some_iff.mp hshown
  obtain ⟨htag, hoffset, hline⟩ := hagrees
  rw [hkind, Option.map_some, ← htag]
  exact ⟨congrArg some (Kind.tag_bare kind).symm, hoffset.symm, hline.symm⟩

/-- An outline is read off a walk. -/
theorem ofNodes_eq (state : σ) (name : String) (nodes : List Syntax.Node) :
    ofNodes visitor state name nodes =
      match (walkNodes visitor nodes).run state with
      | (.ok built, after) => (.ok ⟨name, built⟩, after)
      | (.error stop, after) => (.error stop, after) := rfl

theorem isComment_of_mem_flatMap (nodes : List Syntax.Node) :
    ∀ source ∈ nodes.flatMap sourcesOf, isComment source = false := by
  intro source hsource
  obtain ⟨node, -, hmem⟩ := List.mem_flatMap.mp hsource
  exact isComment_of_mem_sourcesOf node source hmem

/-- A visitor that accepts gets an outline if every node has a place in one. -/
theorem Visitor.Accepts.ofNodes_eq_ok (hvisitor : visitor.Accepts) (state : σ) (name : String)
    {nodes : List Syntax.Node} (hfind : (nodes.flatMap sourcesOf).find? isUnsupported = none) :
    ∃ built, (ofNodes visitor state name nodes).1 = .ok ⟨name, built⟩ ∧
      Grown atSource nodes built ((nodes.flatMap sourcesOf).filterMap presented?) := by
  have hvisit := visitAll_accepts hvisitor _ (isComment_of_mem_flatMap nodes) state
  rcases hall : (visitAll visitor (nodes.flatMap sourcesOf)).run state with ⟨result, after⟩
  rw [hall, hfind] at hvisit
  obtain rfl : result = .ok _ := hvisit
  obtain ⟨built, hrun, hgrown⟩ := (walkNodes_follows hvisitor.leaves nodes).run_ok hall
  rw [ofNodes_eq, hrun]
  exact ⟨built, rfl, hgrown⟩

/-- A visitor that accepts gets no outline if there is a node without a place in one. -/
theorem Visitor.Accepts.ofNodes_eq_error (hvisitor : visitor.Accepts) (state : σ) (name : String)
    {nodes : List Syntax.Node} {found : Syntax.Node}
    (hfind : (nodes.flatMap sourcesOf).find? isUnsupported = some found) :
    (ofNodes visitor state name nodes).1 =
      .error (.unsupported ⟨found.kindName, found.position⟩) := by
  have hvisit := visitAll_accepts hvisitor _ (isComment_of_mem_flatMap nodes) state
  rcases hall : (visitAll visitor (nodes.flatMap sourcesOf)).run state with ⟨result, after⟩
  rw [hall, hfind] at hvisit
  obtain rfl : result = .error _ := hvisit
  rw [ofNodes_eq, (walkNodes_follows hvisitor.leaves nodes).run_error hall]

/-- The outline of a tree is the exact image of the tree, if the tree has one. A visitor that
accepts everything as it is meets the nodes of the tree in pre-order, comments left out. The first
of them that is a control structure, an invocation or a loop control ends the walk, with its kind
and position. Without one, every node stands in the outline once, inside the same node and in the
same order, with its tag, the fields of the tag, its offset and its line, and nothing else does. -/
theorem outline_image (hvisitor : visitor.Accepts) (state : σ) (name : String)
    (nodes : List Syntax.Node) :
    match (nodes.flatMap sourcesOf).find? isUnsupported with
    | some found => (ofNodes visitor state name nodes).1 =
        .error (.unsupported ⟨found.kindName, found.position⟩)
    | none => ∃ built, (ofNodes visitor state name nodes).1 = .ok ⟨name, built⟩ ∧
        List.Forall₂ (Depicts atSource) (shown nodes) built ∧
        List.Forall₂
          (fun source node ↦ (kindOf? source).map Kind.tag = some node.tag ∧
            atSource source node.offset node.line)
          (nodes.flatMap sourcesOf) (built.flatMap Node.preorder) := by
  cases hfind : (nodes.flatMap sourcesOf).find? isUnsupported with
  | some found => exact hvisitor.ofNodes_eq_error state name hfind
  | none =>
    obtain ⟨built, hbuilt, hgrown⟩ := hvisitor.ofNodes_eq_ok state name hfind
    refine ⟨built, hbuilt, hgrown.depicts,
      forall₂_meet ?_ (forall₂_presented (isComment_of_mem_flatMap nodes) hfind) hgrown.agrees⟩
    intro shown _ source node hshown hagrees
    exact tag_of_presented hshown hagrees

end Accepting

/-- A visitor that counts the nodes that it is shown. -/
def Visitor.counting {ε : Type} : Visitor Nat ε := fun _ node count ↦ (.ok node, count + 1)

/-- A field taken of a comment, and a text on the next line. -/
def commentedField : List Syntax.Node :=
  [.chain ⟨0, 1⟩ (.comment ⟨0, 1⟩ "/**/") ["Name"], .text ⟨12, 2⟩ "!"]

/-- A counting visitor is shown a chain and a text, and the comment leaves no base behind. -/
theorem outline_image_counting :
    (Visitor.counting : Visitor Nat Empty).Accepts ∧
      ∃ built, (ofNodes (Visitor.counting : Visitor Nat Empty) 0 "greeting" commentedField).1 =
          .ok ⟨"greeting", built⟩ ∧
        List.Forall₂ (Depicts atSource) commentedField built := by
  have haccepts : (Visitor.counting : Visitor Nat Empty).Accepts := fun _ _ _ ↦ rfl
  have himage := outline_image haccepts 0 "greeting" commentedField
  have hfind : (commentedField.flatMap sourcesOf).find? isUnsupported = none := by
    simp [commentedField, sourcesOf_eq, partsOf, isComment, isUnsupported]
  rw [hfind] at himage
  obtain ⟨built, hbuilt, hdepicts, -⟩ := himage
  exact ⟨haccepts, built, hbuilt, hdepicts⟩

end Stencil.Outline
