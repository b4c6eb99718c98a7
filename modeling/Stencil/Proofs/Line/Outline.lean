import Stencil.Proofs.Line.Execution

/-!
# The outline of a line template

The outline of a line has a text for each text that is not empty and an action for each path, and
every node stands at the byte offset and on the line at which the source before it ends
(`LineTemplate.outlineFrom`). The brackets of a path, its dots and its names are part of the source
before what follows them, and no node of their own.

With it a line is told for both purposes that bracketed templates serve: it is compiled, what it
is compiled to writes the texts and the values of the paths (`LineTemplate.render`), and its outline
is this one, whatever functions there are (`LineTemplate.line_law`).
-/

set_option autoImplicit false
set_option relaxedAutoImplicit false

namespace Stencil.LineTemplate

open Syntax Outline

/-! ### Nodes -/

/-- The node of a kind that stands behind a source. -/
def nodeBehind (before : String) (kind : Kind) : Outline.Node :=
  ⟨kind, before.utf8ByteSize, some (1 + before.toList.count '\n')⟩

/-- The outline of a path as an operand: a field of the dot, and a chain at the second segment if
there are more. -/
def Path.operandBehind (before : String) (path : Path) : Outline.Node :=
  let field := nodeBehind before (.field [path.first.name])
  match path.more with
  | [] => field
  | _ => nodeBehind (before ++ "." ++ path.first.name)
      (.chain (some field) (path.more.map Segment.name))

/-- The outline of the action of a path. -/
def Path.actionBehind (before : String) (path : Path) : Outline.Node :=
  let command := nodeBehind before (.command [path.operandBehind before])
  nodeBehind before (.action (some (nodeBehind before (.pipe false [] [command]))))

/-- The outline of a text, if it is not empty. -/
def Plain.textsBehind (before : String) (text : Plain) : List Outline.Node :=
  if text.text = "" then [] else [nodeBehind before (.text text.text)]

/-- The outline of a text and the slots after it. -/
def outlineFrom (before : String) (text : Plain) : List Slot → List Outline.Node
  | [] => text.textsBehind before
  | slot :: rest =>
    text.textsBehind before ++ slot.path.actionBehind (before ++ text.text ++ "[") ::
      outlineFrom (behindSlot before text slot.path) slot.after rest

/-- The outline of a line. -/
def outline (line : LineTemplate) : List Outline.Node := outlineFrom "" line.start line.slots

/-! ### Walks -/

section Walks

variable {σ ε : Type}

/-- A visitor that accepts every node is shown them to no effect. -/
theorem present_accepting (source : Syntax.Node) (node : Outline.Node) :
    present (Visitor.accepting : Visitor σ ε) source node = pure node := rfl

theorem leaf_accepting (source : Syntax.Node) (kind : Kind) :
    leaf (Visitor.accepting : Visitor σ ε) source kind = pure (located kind source.position) := rfl

/-- Nodes in a row are walked in a row. -/
theorem walkNodes_append (visitor : Visitor σ ε) (first second : List Syntax.Node) :
    walkNodes visitor (first ++ second) = do
      let built ← walkNodes visitor first
      return built ++ (← walkNodes visitor second) := by
  induction first with
  | nil => simp [walkNodes]
  | cons node rest ih =>
    simp only [List.cons_append, walkNodes, ih, bind_assoc, pure_bind, List.append_assoc]

/-- A node that a text ends in front of stands behind it. -/
theorem located_place (before : String) (kind : Kind) :
    located kind (place before) = nodeBehind before kind := by
  rw [located, offset_place, line_place, nodeBehind]

/-- Segments are walked past by their names. -/
theorem place_segment (before : String) (segment : Segment) :
    (place before).advance segment.chars = place (before ++ "." ++ segment.name) := by
  rw [place_append, place_append, ← Position.advance_append]
  simp [Segment.chars, Segment.name]

/-- The outline of a path as an operand is built of its operand. -/
theorem walkNode_operand (before : String) (path : Path) :
    walkNode (Visitor.accepting : Visitor σ ε) (path.operand (place before)) =
      pure (some (path.operandBehind before)) := by
  obtain ⟨first, more⟩ := path
  have hfield : walkNode (Visitor.accepting : Visitor σ ε) (.field (place before) [first.name]) =
      pure (some (nodeBehind before (.field [first.name]))) := by
    rw [walkNode, leaf_accepting, pure_bind]
    exact congrArg (fun node ↦ pure (some node)) (located_place before _)
  cases more with
  | nil => exact hfield
  | cons second others =>
    rw [Path.operand]
    dsimp only
    rw [walkNode, present_accepting, pure_bind, hfield, pure_bind, place_segment, located_place]
    rfl

/-- The outline of a path is built of its action. -/
theorem walkNode_path (before : String) (path : Path) :
    walkNode (Visitor.accepting : Visitor σ ε) (path.node (place before)) =
      pure (some (path.actionBehind before)) := by
  have hcommand : walkCommand (Visitor.accepting : Visitor σ ε)
      ⟨place before, [path.operand (place before)]⟩ =
        pure (nodeBehind before (.command [path.operandBehind before])) := by
    simp only [walkCommand, walkNodes, present_accepting, walkNode_operand, pure_bind,
      located_place]
    rfl
  have hpipeline : walkPipeline (Visitor.accepting : Visitor σ ε)
      ⟨place before, false, [], [⟨place before, [path.operand (place before)]⟩]⟩ =
        pure (nodeBehind before (.pipe false []
          [nodeBehind before (.command [path.operandBehind before])])) := by
    simp only [walkPipeline, walkVariables, walkCommands, hcommand, present_accepting, pure_bind,
      located_place]
    rfl
  rw [Path.node, walkNode, present_accepting, pure_bind, hpipeline, pure_bind, located_place]
  rfl

/-- The outline of a text is built of its node. -/
theorem walkNodes_text (before : String) (text : Plain) :
    walkNodes (Visitor.accepting : Visitor σ ε) (text.nodes (place before)) =
      pure (text.textsBehind before) := by
  by_cases hempty : text.text = ""
  · rw [Plain.nodes, if_pos hempty, Plain.textsBehind, if_pos hempty, walkNodes]
  · rw [Plain.nodes, if_neg hempty, Plain.textsBehind, if_neg hempty]
    simp only [walkNodes, walkNode, leaf_accepting, pure_bind, Syntax.Node.position, located_place]
    rfl

/-- The outline of a line is built of its nodes. -/
theorem walkNodes_nodesFrom (before : String) (text : Plain) (slots : List Slot) :
    walkNodes (Visitor.accepting : Visitor σ ε) (nodesFrom (place before) text slots) =
      pure (outlineFrom before text slots) := by
  induction slots generalizing before text with
  | nil => exact walkNodes_text before text
  | cons slot rest ih =>
    rw [nodesFrom_cons, walkNodes_append, walkNodes_text, pure_bind, walkNodes, walkNode_path,
      pure_bind, ih, pure_bind, pure_bind, outlineFrom]
    rfl

end Walks

/-- Every line has its outline. -/
theorem outline_source (line : LineTemplate) (bracketed : Bracketed) (name : String) :
    bracketed.outline name line.source = .ok ⟨name, line.outline⟩ := by
  have hwalk : walkNodes (Visitor.accepting : Visitor Unit Empty) line.nodes =
      pure line.outline := walkNodes_nodesFrom "" line.start line.slots
  have htrees : bracketed.trees name line.source = .ok ⟨[⟨name, name, ⟨{}, line.nodes⟩⟩]⟩ :=
    line.parse_source name bracketed.functions.has
  have hfind : TreeSet.find? ⟨[⟨name, name, ⟨{}, line.nodes⟩⟩]⟩ name =
      some ⟨name, name, ⟨{}, line.nodes⟩⟩ := by
    simp [TreeSet.find?]
  simp only [Bracketed.outline, Bracketed.outlineWith, htrees, hfind, Option.map_some,
    Option.getD_some, ofNodes, hwalk]
  rfl

/-! ### The law of lines -/

/-- Every line is compiled. On any data, what it is compiled to writes the texts and the values of
the paths in turn, up to the first path that meets a value without fields if there is one, and fails
there and nowhere else. The outline of the line has its texts and paths where they stand in the
source. -/
theorem line_law (line : LineTemplate) (bracketed : Bracketed) (name : String) :
    (∃ template, bracketed.compile name line.source = .ok template ∧
      ∀ data : Value,
        (template.execute data none none).output = (line.render data).1 ∧
          Ends name (line.render data).2 (template.execute data none none).error) ∧
      bracketed.outline name line.source = .ok ⟨name, line.outline⟩ := by
  refine ⟨⟨line.template bracketed name, line.compile_source bracketed name, fun data ↦ ?_⟩,
    line.outline_source bracketed name⟩
  exact line.execute_template bracketed name data

end Stencil.LineTemplate
