import Stencil.Proofs.Outline.Image

/-!
# What a visitor is asked and what comes of it

A visitor may keep a state, move the nodes that it is shown, or refuse one of them.
`Visitor.recorded` is a visitor that writes down every call with its answer. What it has written
down at the end of a walk is told by the pre-order of the tree (`visitor_protocol`): one call for
each node, up to the first refusal or the first node without a place in an outline, and what the
walk ends with is told by the answers. An outline is the one that a visitor gets who changes
nothing, with the places that the visitor left.
-/

set_option autoImplicit false
set_option relaxedAutoImplicit false

namespace Stencil.Outline

/-! ### Calls -/

/-- A call of a visitor: the node of the tree, the node that the visitor is shown of it, and its
answer, which is the node that it leaves or a reason for refusing it. -/
structure Call (ε : Type) where
  source : Syntax.Node
  shown : Node
  answer : Except ε Node

section Recording

variable {σ ε : Type}

/-- A visitor that does what another does and writes the calls down. -/
def Visitor.recorded (visitor : Visitor σ ε) : Visitor (σ × List (Call ε)) ε :=
  fun source node ⟨state, calls⟩ ↦
    let ⟨answer, after⟩ := (visitor source node).run state
    (answer, after, calls ++ [⟨source, node, answer⟩])

/-- The calls that a list of nodes leads to, and what comes of them. -/
inductive Session : List Syntax.Node → List (Call ε) → Except (Stop ε) (List Node) → Prop
  | finished : Session [] [] (.ok [])
  /-- An outline has no place for the next node, and the visitor is not called. -/
  | unsupported {source : Syntax.Node} (hsource : presented? source = none)
      (rest : List Syntax.Node) :
      Session (source :: rest) [] (.error (.unsupported ⟨source.kindName, source.position⟩))
  /-- The visitor refuses the next node, and is not called again. -/
  | refused {source : Syntax.Node} {node : Node} (hsource : presented? source = some node)
      (reason : ε) (rest : List Syntax.Node) :
      Session (source :: rest) [⟨source, node, .error reason⟩] (.error (.refused reason))
  /-- The visitor accepts the next node, and all the others too. -/
  | accepted {source : Syntax.Node} {node left : Node} {rest : List Syntax.Node}
      {calls : List (Call ε)} {result : Except (Stop ε) (List Node)}
      (hsource : presented? source = some node) (hrest : Session rest calls result) :
      Session (source :: rest) (⟨source, node, .ok left⟩ :: calls) (result.map (left :: ·))

/-- Writing calls down changes nothing else, and what is written down is a session. -/
theorem run_visitAll_recorded (visitor : Visitor σ ε) (order : List Syntax.Node) (state : σ)
    (earlier : List (Call ε)) :
    ∃ calls result after, Session order calls result ∧
      (visitAll visitor order).run state = (result, after) ∧
      (visitAll visitor.recorded order).run (state, earlier) =
        (result, after, earlier ++ calls) := by
  induction order generalizing state earlier with
  | nil => exact ⟨[], .ok [], state, .finished, rfl, by rw [List.append_nil]; rfl⟩
  | cons source rest ih =>
    cases hsource : presented? source with
    | none =>
      refine ⟨[], _, state, .unsupported hsource rest, ?_, ?_⟩
      · rw [visitAll, hsource]
        rfl
      · rw [visitAll, hsource, List.append_nil]
        rfl
    | some node =>
      rw [run_visitAll_cons hsource, run_visitAll_cons hsource]
      have hrecorded : (visitor.recorded source node).run (state, earlier) =
          (((visitor source node).run state).1, ((visitor source node).run state).2,
            earlier ++ [⟨source, node, ((visitor source node).run state).1⟩]) := rfl
      rw [hrecorded]
      rcases (visitor source node).run state with ⟨reason | left, after⟩
      · exact ⟨_, _, after, .refused hsource reason rest, rfl, rfl⟩
      · obtain ⟨calls, result, last, hsession, hrun, hrun'⟩ :=
          ih after (earlier ++ [⟨source, node, .ok left⟩])
        dsimp only
        rw [hrun, hrun', List.append_assoc]
        refine ⟨⟨source, node, .ok left⟩ :: calls, result.map (left :: ·), last,
          .accepted hsource hsession, ?_, ?_⟩ <;>
        cases result <;> rfl

/-! ### What is written down -/

variable {order : List Syntax.Node} {calls : List (Call ε)} {result : Except (Stop ε) (List Node)}

/-- The visitor is called for the nodes in order, once for each. -/
theorem Session.sources_isPrefix (hsession : Session order calls result) :
    calls.map Call.source <+: order := by
  induction hsession with
  | finished => exact List.prefix_rfl
  | unsupported => exact List.nil_prefix
  | refused _ _ rest => exact ⟨rest, rfl⟩
  | accepted _ _ ih => exact List.cons_prefix_cons.mpr ⟨rfl, ih⟩

/-- The visitor is shown what there is to show of each node. -/
theorem Session.presented (hsession : Session order calls result) :
    ∀ call ∈ calls, presented? call.source = some call.shown := by
  induction hsession with
  | finished => exact fun _ hcall ↦ absurd hcall List.not_mem_nil
  | unsupported => exact fun _ hcall ↦ absurd hcall List.not_mem_nil
  | refused hsource => exact List.forall_mem_singleton.mpr hsource
  | accepted hsource _ ih => exact List.forall_mem_cons.mpr ⟨hsource, ih⟩

/-- A refusal is the last call and what the walk ends with. -/
theorem Session.of_refused (hsession : Session order calls result) {earlier later : List (Call ε)}
    {call : Call ε} {reason : ε} (hcalls : calls = earlier ++ call :: later)
    (hanswer : call.answer = .error reason) :
    later = [] ∧ result = .error (.refused reason) := by
  induction hsession generalizing earlier with
  | finished => exact absurd hcalls (by simp)
  | unsupported => exact absurd hcalls (by simp)
  | refused hsource refusal rest =>
    cases earlier with
    | nil =>
      obtain ⟨rfl, rfl⟩ := List.cons.inj hcalls
      exact ⟨rfl, by rw [Except.error.inj hanswer]⟩
    | cons first others => exact absurd (List.cons.inj hcalls).2 (by simp)
  | accepted hsource hrest ih =>
    cases earlier with
    | nil =>
      obtain ⟨rfl, -⟩ := List.cons.inj hcalls
      exact absurd hanswer (by simp)
    | cons first others =>
      obtain ⟨rfl, rfl⟩ := ih (List.cons.inj hcalls).2
      exact ⟨rfl, rfl⟩

/-- Without a refusal, a walk goes on to the first node without a place in an outline. -/
theorem Session.of_unsupported (hsession : Session order calls result)
    (haccepted : ∀ call ∈ calls, ∃ left, call.answer = .ok left) {found : Syntax.Node}
    {rest : List Syntax.Node} (horder : order = calls.map Call.source ++ found :: rest) :
    presented? found = none ∧ result = .error (.unsupported ⟨found.kindName, found.position⟩) := by
  induction hsession with
  | finished => exact absurd horder (by simp)
  | unsupported hsource =>
    obtain ⟨rfl, rfl⟩ := List.cons.inj horder
    exact ⟨hsource, rfl⟩
  | refused hsource reason =>
    obtain ⟨left, hleft⟩ := haccepted _ List.mem_cons_self
    exact absurd hleft (by simp)
  | accepted hsource _ ih =>
    obtain ⟨hfound, rfl⟩ := ih (List.forall_mem_cons.mp haccepted).2 (List.cons.inj horder).2
    exact ⟨hfound, rfl⟩

/-- Without a refusal and without such a node, the visitor leaves a node for every call. -/
theorem Session.of_finished (hsession : Session order calls result)
    (haccepted : ∀ call ∈ calls, ∃ left, call.answer = .ok left)
    (horder : order = calls.map Call.source) :
    ∃ lefts, result = .ok lefts ∧
      List.Forall₂ (fun left call ↦ call.answer = .ok left) lefts calls := by
  induction hsession with
  | finished => exact ⟨[], rfl, .nil⟩
  | unsupported => exact absurd horder (by simp)
  | refused hsource reason =>
    obtain ⟨left, hleft⟩ := haccepted _ List.mem_cons_self
    exact absurd hleft (by simp)
  | @accepted _ _ left _ _ _ hsource _ ih =>
    obtain ⟨lefts, rfl, hlefts⟩ :=
      ih (List.forall_mem_cons.mp haccepted).2 (List.cons.inj horder).2
    exact ⟨left :: lefts, rfl, .cons rfl hlefts⟩

/-- A visitor is called for no node without a place in an outline. -/
theorem Session.find?_eq_none (hsession : Session order calls result)
    (horder : order = calls.map Call.source) : order.find? isUnsupported = none := by
  rw [List.find?_eq_none]
  intro source hsource hunsupported
  rw [horder] at hsource
  obtain ⟨call, hcall, rfl⟩ := List.mem_map.mp hsource
  have hnone := (presented?_eq_none_iff call.source).mpr (.inr hunsupported)
  rw [hsession.presented call hcall] at hnone
  exact absurd hnone (by simp)

end Recording

/-! ### Places -/

/-- Two nodes are the same apart from their places and those of what is below them. -/
inductive Alike : Node → Node → Prop
  | intro {node other : Node} (hkind : node.kind.hollow = other.kind.hollow)
      (hdeclared : node.kind.declared = other.kind.declared)
      (hchildren : List.Forall₂ Alike node.children other.children) : Alike node other

/-- Two nodes are at the same place. -/
def SamePlace (node other : Node) : Prop := node.offset = other.offset ∧ node.line = other.line

/-- What stands for the same node is the same apart from places. -/
theorem Depicts.alike {placed placed' : Syntax.Node → Nat → Option Nat → Prop}
    {source : Syntax.Node} {node other : Node} (hnode : Depicts placed source node)
    (hother : Depicts placed' source other) : Alike node other := by
  obtain ⟨hkind, -, hchildren, hdeclared⟩ := hnode
  obtain ⟨hkind', -, hchildren', hdeclared'⟩ := hother
  apply Alike.intro
  · exact Option.some.inj (hkind.symm.trans hkind')
  · exact hdeclared.trans hdeclared'.symm
  · refine forall₂_meet ?_ hchildren hchildren'
    intro part hpart child child' hchild hchild'
    have hsize := sizeOf_of_mem_partsOf (List.mem_of_mem_filter hpart)
    exact Depicts.alike hchild hchild'
termination_by sizeOf source

theorem toList_inj {value value' : Option Node} (hlist : value.toList = value'.toList) :
    value = value' := by
  cases value <;> cases value' <;> simp_all

/-- A kind is told by its fields, its children and how many of these are declarations. -/
theorem Kind.eq_of_children {kind kind' : Kind} {offset offset' : Nat} {line line' : Option Nat}
    (hkind : kind.hollow = kind'.hollow) (hdeclared : kind.declared = kind'.declared)
    (hchildren : Node.children ⟨kind, offset, line⟩ = Node.children ⟨kind', offset', line'⟩) :
    kind = kind' := by
  cases kind <;> cases kind' <;> simp_all [Kind.hollow, Kind.declared, Node.children]
  case action.action => exact toList_inj hchildren
  case pipe.pipe => exact List.append_inj hchildren hdeclared
  case chain.chain => exact toList_inj hchildren

/-- Lists of nodes that are told by their places, in front of more of them. -/
theorem eq_of_places_of_forall {nodes others more more' : List Node}
    (hnodes : ∀ node ∈ nodes, ∀ (other : Node) (more more' : List Node), Alike node other →
      List.Forall₂ SamePlace (node.preorder ++ more) (other.preorder ++ more') →
        node = other ∧ List.Forall₂ SamePlace more more')
    (halike : List.Forall₂ Alike nodes others)
    (hplaces : List.Forall₂ SamePlace (nodes.flatMap Node.preorder ++ more)
      (others.flatMap Node.preorder ++ more')) :
    nodes = others ∧ List.Forall₂ SamePlace more more' := by
  induction halike with
  | nil => exact ⟨rfl, hplaces⟩
  | cons hhead _ ih =>
    obtain ⟨hnode, hrest⟩ := List.forall_mem_cons.mp hnodes
    rw [List.flatMap_cons, List.flatMap_cons, List.append_assoc, List.append_assoc] at hplaces
    obtain ⟨rfl, hbehind⟩ := hnode _ _ _ hhead hplaces
    obtain ⟨rfl, hmore⟩ := ih hrest hbehind
    exact ⟨rfl, hmore⟩

/-- Apart from places, a node is all that there is to it: one that is the same apart from places,
and has the same places in pre-order, is the same. -/
theorem Alike.eq_of_places (node other : Node) (more more' : List Node) (halike : Alike node other)
    (hplaces : List.Forall₂ SamePlace (node.preorder ++ more) (other.preorder ++ more')) :
    node = other ∧ List.Forall₂ SamePlace more more' := by
  obtain ⟨hkind, hdeclared, hchildren⟩ := halike
  rw [Node.preorder_eq, Node.preorder_eq, List.cons_append, List.cons_append] at hplaces
  obtain ⟨⟨hoffset, hline⟩, hbelow⟩ := List.forall₂_cons.mp hplaces
  have hsame : node.children = other.children ∧ List.Forall₂ SamePlace more more' := by
    refine eq_of_places_of_forall ?_ hchildren hbelow
    intro child hchild other more more' halike hplaces
    have hsize := Node.sizeOf_of_mem_children hchild
    exact Alike.eq_of_places child other more more' halike hplaces
  obtain ⟨kind, offset, line⟩ := node
  obtain ⟨kind', offset', line'⟩ := other
  obtain rfl : kind = kind' := Kind.eq_of_children hkind hdeclared hsame.1
  obtain rfl : offset = offset' := hoffset
  obtain rfl : line = line' := hline
  exact ⟨rfl, hsame.2⟩
termination_by sizeOf node

/-! ### The protocol of a visitor -/

section Protocol

variable {σ ε : Type} {visitor : Visitor σ ε}

/-- A visitor that leaves the tag and the fields of every node that it accepts alone. -/
def Visitor.KeepsKinds (visitor : Visitor σ ε) : Prop :=
  ∀ source node state left after,
    (visitor source node).run state = (.ok left, after) → left.kind = node.kind

/-- Any place is right. -/
def anywhere : Syntax.Node → Nat → Option Nat → Prop := fun _ _ _ ↦ True

theorem Visitor.KeepsKinds.leaves (hvisitor : visitor.KeepsKinds) : Leaves visitor anywhere :=
  fun source node state left after _ hrun ↦ ⟨hvisitor source node state left after hrun, trivial⟩

theorem Visitor.KeepsKinds.recorded (hvisitor : visitor.KeepsKinds) :
    visitor.recorded.KeepsKinds := by
  intro source node state left after hrun
  obtain ⟨state, calls⟩ := state
  have hanswer : ((visitor source node).run state).1 = .ok left := congrArg Prod.fst hrun
  exact hvisitor source node state left _ (Prod.ext hanswer rfl)

/-- What is built of the same nodes is the same if the same nodes were left. -/
theorem Grown.unique {placed placed' : Syntax.Node → Nat → Option Nat → Prop}
    {sources : List Syntax.Node} {built built' left : List Node}
    (hgrown : Grown placed sources built left) (hgrown' : Grown placed' sources built' left) :
    built = built' := by
  have halike : List.Forall₂ Alike built built' := by
    refine forall₂_meet ?_ hgrown.depicts hgrown'.depicts
    exact fun source _ node other hnode hother ↦ hnode.alike hother
  have hplaces : List.Forall₂ SamePlace (built.flatMap Node.preorder)
      (built'.flatMap Node.preorder) :=
    forall₂_meet (fun _ _ _ _ hnode hother ↦
      ⟨hnode.2.1.symm.trans hother.2.1, hnode.2.2.symm.trans hother.2.2⟩)
      hgrown.agrees hgrown'.agrees
  have hbehind : List.Forall₂ SamePlace (built.flatMap Node.preorder ++ [])
      (built'.flatMap Node.preorder ++ []) := by
    rw [List.append_nil, List.append_nil]
    exact hplaces
  exact (eq_of_places_of_forall (fun node _ ↦ Alike.eq_of_places node) halike hbehind).1

/-- Writing calls down changes nothing else about a walk, and what is written down is the session of
its pre-order. -/
theorem ofNodes_recorded (hvisitor : visitor.KeepsKinds) (state : σ) (name : String)
    (nodes : List Syntax.Node) :
    ∃ calls result, Session (nodes.flatMap sourcesOf) calls result ∧
      ofNodes visitor.recorded (state, []) name nodes =
        ((ofNodes visitor state name nodes).1, (ofNodes visitor state name nodes).2, calls) ∧
      match result with
      | .ok lefts => ∃ built, (ofNodes visitor state name nodes).1 = .ok ⟨name, built⟩ ∧
          Grown anywhere nodes built lefts
      | .error stop => (ofNodes visitor state name nodes).1 = .error stop := by
  obtain ⟨calls, result, after, hsession, hvisit, hvisit'⟩ :=
    run_visitAll_recorded visitor (nodes.flatMap sourcesOf) state []
  have hwalk := walkNodes_follows hvisitor.leaves nodes
  have hwalk' := walkNodes_follows hvisitor.recorded.leaves nodes
  refine ⟨calls, result, hsession, ?_⟩
  rw [ofNodes_eq, ofNodes_eq]
  cases result with
  | error stop =>
    rw [hwalk.run_error hvisit, hwalk'.run_error hvisit']
    exact ⟨rfl, rfl⟩
  | ok lefts =>
    obtain ⟨built, hrun, hgrown⟩ := hwalk.run_ok hvisit
    obtain ⟨built', hrun', hgrown'⟩ := hwalk'.run_ok hvisit'
    obtain rfl := hgrown.unique hgrown'
    rw [hrun, hrun']
    exact ⟨rfl, built, rfl, hgrown⟩

theorem isUnsupported_of_presented {nodes : List Syntax.Node} {source : Syntax.Node}
    (hsource : source ∈ nodes.flatMap sourcesOf) (hnone : presented? source = none) :
    isUnsupported source = true := by
  have hcomment := isComment_of_mem_flatMap nodes source hsource
  simpa [hcomment] using (presented?_eq_none_iff source).mp hnone

/-- The calls of a visitor that leaves tags and fields alone, on any nodes. They are made for the
nodes in pre-order, one for each, and show what there is to show of the node: an action, a pipeline,
a command and a chain without children, a chain without its fields too. A refusal is the last call,
and the walk ends with its reason. If nothing is refused, the walk ends at the first node that an
outline has no place for, if there is one. Otherwise the calls go to the end, and the outline is
that of a visitor who changes nothing, apart from the places, which are those that the visitor
left. -/
theorem visitor_protocol (hvisitor : visitor.KeepsKinds) (state : σ) (name : String)
    (nodes : List Syntax.Node) :
    ∃ calls : List (Call ε),
      ofNodes visitor.recorded (state, []) name nodes =
        ((ofNodes visitor state name nodes).1, (ofNodes visitor state name nodes).2, calls) ∧
      calls.map Call.source <+: nodes.flatMap sourcesOf ∧
      (∀ call ∈ calls, ∃ kind, kindOf? call.source = some kind ∧
        call.shown = located kind.bare call.source.position) ∧
      (∀ earlier call later reason, calls = earlier ++ call :: later →
        call.answer = .error reason →
          later = [] ∧ (ofNodes visitor state name nodes).1 = .error (.refused reason)) ∧
      ((∀ call ∈ calls, ∃ left, call.answer = .ok left) →
        (∀ found rest, nodes.flatMap sourcesOf = calls.map Call.source ++ found :: rest →
          isUnsupported found ∧ (ofNodes visitor state name nodes).1 =
            .error (.unsupported ⟨found.kindName, found.position⟩)) ∧
        (nodes.flatMap sourcesOf = calls.map Call.source →
          ∃ built plain, (ofNodes visitor state name nodes).1 = .ok ⟨name, built⟩ ∧
            (ofNodes (Visitor.accepting : Visitor Unit ε) () name nodes).1 = .ok ⟨name, plain⟩ ∧
            List.Forall₂ Alike built plain ∧
            List.Forall₂ (fun node call ↦ ∃ left, call.answer = .ok left ∧ Agrees left node)
              (built.flatMap Node.preorder) calls)) := by
  obtain ⟨calls, result, hsession, hrecorded, hresult⟩ :=
    ofNodes_recorded hvisitor state name nodes
  refine ⟨calls, hrecorded, hsession.sources_isPrefix, ?_, ?_, fun haccepted ↦ ⟨?_, ?_⟩⟩
  · intro call hcall
    obtain ⟨kind, hkind, hshown⟩ := Option.map_eq_some_iff.mp (hsession.presented call hcall)
    exact ⟨kind, hkind, hshown.symm⟩
  · intro earlier call later reason hcalls hanswer
    obtain ⟨hlater, rfl⟩ := hsession.of_refused hcalls hanswer
    exact ⟨hlater, hresult⟩
  · intro found rest horder
    obtain ⟨hnone, rfl⟩ := hsession.of_unsupported haccepted horder
    have hmem : found ∈ nodes.flatMap sourcesOf := by
      rw [horder]
      exact List.mem_append_right _ List.mem_cons_self
    exact ⟨isUnsupported_of_presented hmem hnone, hresult⟩
  · intro horder
    obtain ⟨lefts, rfl, hlefts⟩ := hsession.of_finished haccepted horder
    obtain ⟨built, hbuilt, hgrown⟩ := hresult
    have haccepts : (Visitor.accepting : Visitor Unit ε).Accepts := Visitor.accepting_accepts
    obtain ⟨plain, hplain, hgrown'⟩ :=
      haccepts.ofNodes_eq_ok () name (hsession.find?_eq_none horder)
    refine ⟨built, plain, hbuilt, hplain, ?_, ?_⟩
    · exact forall₂_meet (fun source _ node other hnode hother ↦ hnode.alike hother)
        hgrown.depicts hgrown'.depicts
    · exact forall₂_meet (fun left _ node call hnode hcall ↦ ⟨left, hcall, hnode⟩)
        hgrown.agrees hlefts

/-- A visitor that leaves every node at the start and refuses a text. -/
def Visitor.wary : Visitor Nat String := fun _ node count ↦
  match node.kind with
  | .text text => (.error text, count)
  | kind => (.ok ⟨kind, 0, none⟩, count + 1)

/-- A visitor that refuses texts is called for a chain and then for the text that it refuses. -/
theorem visitor_protocol_wary :
    Visitor.wary.KeepsKinds ∧ ∃ calls : List (Call String),
      ofNodes Visitor.wary.recorded (0, []) "greeting" commentedField =
        (.error (.refused "!"), 1, calls) ∧
      calls.map Call.source <+: commentedField.flatMap sourcesOf ∧
      ∀ call ∈ calls, ∃ kind, kindOf? call.source = some kind ∧
        call.shown = located kind.bare call.source.position := by
  have hkeeps : Visitor.wary.KeepsKinds := by
    intro source node state left after hrun
    obtain ⟨kind, offset, line⟩ := node
    cases kind <;> cases hrun <;> rfl
  obtain ⟨calls, hrecorded, hprefix, hshown, -⟩ :=
    visitor_protocol hkeeps 0 "greeting" commentedField
  exact ⟨hkeeps, calls, hrecorded, hprefix, hshown⟩

end Protocol

end Stencil.Outline
