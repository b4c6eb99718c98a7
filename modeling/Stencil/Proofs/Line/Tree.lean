import Stencil.Proofs.Grammar.Starts
import Stencil.Proofs.Grammar.Trees
import Stencil.Proofs.Line.Source

/-!
# The tree of a line template

The items of a line are its texts, brackets and segments (`LineTemplate.lex_source`), and what the
grammar makes of them is one node for each text that is not empty and one action for each path
(`LineTemplate.nodes`). The first segment of a path is a field of the dot; further segments are
fields taken of it. The parser accepts every line, whatever functions there are, and gives this tree
and no other (`LineTemplate.parse_source`).
-/

set_option autoImplicit false
set_option relaxedAutoImplicit false

namespace Stencil.LineTemplate

open Syntax

/-! ### Items -/

/-- The items of segments in a row. -/
def segmentItems (position : Position) : List Segment → List Item
  | [] => []
  | segment :: rest =>
    ⟨.field, position, String.ofList segment.chars⟩ ::
      segmentItems (position.advance segment.chars) rest

/-- The items of a text and the slots after it. -/
def itemsFrom (position : Position) (text : Plain) : List Slot → List Item
  | [] => textItem position text.text.toList ++ [⟨.eof, position.advance text.text.toList, ""⟩]
  | slot :: rest =>
    let opening := position.advance text.text.toList
    let start := opening.next '['
    let closing := start.advance (segmentChars slot.path.segments)
    textItem position text.text.toList ++ ⟨.leftDelim, opening, "["⟩ ::
      (segmentItems start slot.path.segments ++
        ⟨.rightDelim, closing, "]"⟩ :: itemsFrom (closing.next ']') slot.after rest)

theorem itemsOf_segments (position : Position) (segments : List Segment) :
    itemsOf Delimiters.brackets position (segments.map Segment.piece) =
      segmentItems position segments := by
  induction segments generalizing position with
  | nil => rfl
  | cons segment rest ih => simp [itemsOf, Segment.piece, Piece.item?, Piece.text, segmentItems, ih]

theorem texts_segments (segments : List Segment) :
    texts Delimiters.brackets (segments.map Segment.piece) = segmentChars segments := by
  induction segments with
  | nil => rfl
  | cons segment rest ih => simp [Segment.piece, Piece.text, segmentChars, ih]

/-- The items of a scan of a line are those of its texts and slots. -/
theorem items_piecesFrom (position : Position) (text : Plain) (slots : List Slot) :
    Scan.items Delimiters.brackets position ⟨piecesFrom text slots, none⟩ =
      itemsFrom position text slots := by
  induction slots generalizing position text with
  | nil => simp [Scan.items, piecesFrom, itemsFrom, lastItem]
  | cons slot rest ih =>
    have hsplit : piecesFrom text (slot :: rest) = (textPieces text.text.toList ++
        ([.opening none] ++ (slot.path.segments.map Segment.piece ++ [.closing none]))) ++
          piecesFrom slot.after rest := by
      simp [piecesFrom]
    rw [hsplit, Scan.items_append, ih]
    simp only [itemsFrom, itemsOf_append, itemsOf_textPieces, itemsOf_segments, texts_append,
      texts_textPieces, texts_segments, Position.advance_append]
    simp [itemsOf, Piece.item?, Piece.text, leftMarker, rightMarker, Delimiters.brackets,
      Delimiters.ofStrings]

/-- The items of a line are those of its texts and slots. -/
theorem lex_source (line : LineTemplate) :
    lex Delimiters.brackets line.source = itemsFrom {} line.start line.slots := by
  have hitems := line.scans.lexFrom_eq {}
  rw [items_piecesFrom] at hitems
  exact hitems

/-! ### Nodes -/

/-- The operand that a path at a position is. -/
def Path.operand (position : Position) (path : Path) : Node :=
  match path.more with
  | [] => .field position [path.first.name]
  | _ => .chain (position.advance path.first.chars) (.field position [path.first.name])
      (path.more.map Segment.name)

/-- The action that a path at a position is. -/
def Path.node (position : Position) (path : Path) : Node :=
  .action position ⟨position, false, [], [⟨position, [path.operand position]⟩]⟩

/-- The node of a text, if it is not empty. -/
def Plain.nodes (position : Position) (text : Plain) : List Node :=
  if text.text = "" then [] else [.text position text.text]

/-- The nodes of a text and the slots after it. -/
def nodesFrom (position : Position) (text : Plain) : List Slot → List Node
  | [] => text.nodes position
  | slot :: rest =>
    let start := (position.advance text.text.toList).next '['
    let closing := start.advance (segmentChars slot.path.segments)
    text.nodes position ++
      slot.path.node start :: nodesFrom (closing.next ']') slot.after rest

/-! ### What the grammar makes of a path -/

section Derivations

variable {setting : Parse.Setting} {s : Parse.State}

/-- No spaces are skipped where the next item is none. -/
theorem skipSpaces_of_rest {item : Item} {rest : List Item} (hrest : s.rest = item :: rest)
    (hkind : item.kind ≠ .space) : s.skipSpaces = s := by
  obtain ⟨line, items, visible, trees, actionLine, loopDepth, depth⟩ := s
  cases hrest
  simp [Parse.State.skipSpaces, Parse.State.skipFrom, hkind]

/-- An item that is no space is read where it stands. -/
theorem exists_reads {item : Item} {rest : List Item} (hrest : s.rest = item :: rest)
    (hkind : item.kind ≠ .space) :
    ∃ after, s.Reads item after ∧ after.rest = rest ∧ after.trees = s.trees := by
  refine ⟨{ s with line := item.position.line, rest := rest }, ⟨?_, rfl⟩, rfl, rfl⟩
  rw [skipSpaces_of_rest hrest hkind]
  exact hrest

theorem peek_of_rest {item : Item} {rest : List Item} (hrest : s.rest = item :: rest) :
    s.peek = item := by
  rw [Parse.State.peek, hrest]
  rfl

/-- A name without dots is not split. -/
theorem splitDots_eq {text : List Char} (hdot : '.' ∉ text) :
    Parse.splitDots text = [String.ofList text] := by
  induction text with
  | nil => rfl
  | cons c rest ih =>
    rw [List.mem_cons, not_or] at hdot
    rw [Parse.splitDots, ih hdot.2]
    simp [Ne.symm hdot.1, String.ofList_cons]

/-- The name of a segment is one name. -/
theorem Segment.splitDots_eq (segment : Segment) :
    Parse.splitDots (segment.first :: segment.rest) = [segment.name] := by
  refine LineTemplate.splitDots_eq fun hdot ↦ ?_
  exact ne_of_isNameChar (segment.named '.' hdot) (by decide) rfl

/-- The name of a field is that of its segment. -/
@[simp]
theorem fieldName_segment (segment : Segment) (position : Position) :
    Parse.fieldName ⟨.field, position, String.ofList segment.chars⟩ = segment.name := by
  simp [Parse.fieldName, Segment.chars, Segment.name]

/-- Segments that follow a term are the fields taken of it. -/
theorem fieldsFrom_segments (segments : List Segment) (position : Position) {item : Item}
    (hkind : item.kind ≠ .field) (rest : List Item) (line : Nat) :
    ∃ after, Parse.fieldsFrom line (segmentItems position segments ++ item :: rest) =
      (segments.map Segment.name, after, item :: rest) := by
  induction segments generalizing position line with
  | nil => exact ⟨line, by simp [segmentItems, Parse.fieldsFrom, hkind]⟩
  | cons segment others ih =>
    obtain ⟨after, hafter⟩ := ih (position.advance segment.chars) position.line
    refine ⟨after, ?_⟩
    simp [segmentItems, Parse.fieldsFrom, hafter]

/-- Segments after a field are fields taken of it. -/
theorem chained_segments (second : Segment) (others : List Segment) {start position : Position}
    {path : List String} {item : Item} {rest : List Item} (hkind : item.kind ≠ .field)
    (hrest : s.rest = segmentItems position (second :: others) ++ item :: rest) :
    ∃ after, Parse.Chained (.field start path) s
      (.chain position (.field start path) ((second :: others).map Segment.name)) after ∧
        after.rest = item :: rest ∧ after.trees = s.trees := by
  obtain ⟨line, hfields⟩ :=
    fieldsFrom_segments (second :: others) position hkind rest s.line
  rw [← hrest] at hfields
  have hpeek : s.peek = ⟨.field, position, String.ofList second.chars⟩ := peek_of_rest hrest
  have hchained : Parse.Chained (.field start path) s
      (Parse.takeFields (.field start path) s.peek.position s.fields.value) s.fields.state :=
    .fields (by rw [hpeek]) rfl
  refine ⟨s.fields.state, ?_, by simp [Parse.State.fields, hfields], rfl⟩
  simpa only [Parse.State.fields, hfields, hpeek, Parse.takeFields] using hchained

/-- A path is an operand. -/
theorem derives_operand (setting : Parse.Setting) (path : Path) (position : Position) {item : Item}
    {rest : List Item} (hkind : item.kind ≠ .field)
    (hrest : s.rest = segmentItems position path.segments ++ item :: rest) :
    ∃ after, Parse.DerivesPhrase setting (.operand (path.operand position)) s after ∧
      after.rest = item :: rest ∧ after.trees = s.trees := by
  obtain ⟨first, more⟩ := path
  obtain ⟨afterFirst, hread, hafter, htrees⟩ := exists_reads hrest (by simp)
  have hterm : Parse.IsTerm setting s.visible ⟨.field, position, String.ofList first.chars⟩
      (.field position [first.name]) := by
    have hfield := @Parse.IsTerm.field setting s.visible
      ⟨.field, position, String.ofList first.chars⟩ rfl
    simpa [Segment.chars, first.splitDots_eq] using hfield
  cases more with
  | nil =>
    have hpeek : afterFirst.peek.kind ≠ .field := by
      rw [peek_of_rest hafter]
      exact hkind
    exact ⟨afterFirst, .term hread hterm (.alone hpeek), hafter, htrees⟩
  | cons second others =>
    obtain ⟨after, hchained, hrest', htrees'⟩ := chained_segments second others hkind hafter
    exact ⟨after, .term hread hterm hchained, hrest', htrees'.trans htrees⟩

/-- That an item starts an action which is a pipeline without a declaration. -/
structure StartsTerm (item : Item) : Prop where
  startsOperand : Parse.startsOperand item.kind = true
  startsControl : Parse.startsControl item.kind = false
  no_variable : item.kind ≠ .variable
  no_space : item.kind ≠ .space
  no_closer : item.kind ≠ .rightDelim

/-- An operand and the right delimiter after it are a pipeline. -/
theorem derives_pipeline {first closing : Item} {items rest : List Item} {operand : Node}
    (hfirst : StartsTerm first) (hclosing : closing.kind = .rightDelim)
    (hrest : s.rest = first :: items)
    (hoperand : ∃ after, Parse.DerivesPhrase setting (.operand operand) s after ∧
      after.rest = closing :: rest ∧ after.trees = s.trees) :
    ∃ after, Parse.DerivesPhrase setting (.pipeline .command .rightDelim
        ⟨first.position, false, [], [⟨first.position, [operand]⟩]⟩) s after ∧
      after.rest = rest ∧ after.trees = s.trees := by
  obtain ⟨_, hread, _⟩ := exists_reads hrest hfirst.no_space
  have hskip : s.skipSpaces = s := skipSpaces_of_rest hrest hfirst.no_space
  have hpeek : s.peek = first := peek_of_rest hrest
  obtain ⟨afterOperand, hoperand, hafter, htrees⟩ := hoperand
  obtain ⟨after, hclose, hrest', htrees'⟩ := exists_reads hafter (by simp [hclosing])
  have hend : afterOperand.peek.kind = .rightDelim := by
    rw [peek_of_rest hafter]
    exact hclosing
  have hoperands : Parse.DerivesPhrase setting (.operands [operand]) s afterOperand :=
    .operandsLast (hskip.symm ▸ hoperand) (by simp [hend]) (.closer (.inl hend))
  have hcommand : Parse.DerivesPhrase setting (.command ⟨first.position, [operand]⟩) s
      afterOperand := by
    have hderives := Parse.DerivesPhrase.command hoperands (by simp)
    rwa [hskip, hpeek] at hderives
  have hcommands : Parse.DerivesPhrase setting
      (.commands .rightDelim [⟨first.position, [operand]⟩]) s after :=
    .commandsMore hread hfirst.no_closer hfirst.startsOperand hcommand
      (.commandsEnd hclose hclosing)
  have hdeclares : Parse.Declares 0 s {} s := by
    have hnone := @Parse.Declares.none 0 s
      (Parse.not_startsDeclaration_of_kind hread hfirst.no_variable)
    rwa [hskip] at hnone
  refine ⟨after, ?_, hrest', htrees'.trans htrees⟩
  have hderives := @Parse.DerivesPhrase.pipeline setting .command .rightDelim s s after {} _
    hdeclares hcommands (by simp) rfl
  rwa [hskip, hpeek] at hderives

/-- The action of an operand is a statement, whatever follows the right delimiter. -/
theorem derives_action {opening first closing : Item} {items rest : List Item} {operand : Node}
    (hopening : opening.kind = .leftDelim) (hfirst : StartsTerm first)
    (hclosing : closing.kind = .rightDelim) (hrest : s.rest = opening :: first :: items)
    (hoperand : ∀ s' : Parse.State, s'.rest = first :: items →
      ∃ after, Parse.DerivesPhrase setting (.operand operand) s' after ∧
        after.rest = closing :: rest ∧ after.trees = s'.trees) :
    ∃ after, Parse.DerivesPassage setting (.statement (.node (.action first.position
        ⟨first.position, false, [], [⟨first.position, [operand]⟩]⟩))) s after ∧
      after.rest = rest ∧ after.trees = s.trees := by
  obtain ⟨afterOpening, hopen, hafter, htrees⟩ := exists_reads hrest (by simp [hopening])
  have hinside : (afterOpening.enterAction opening.position.line).rest = first :: items := hafter
  obtain ⟨_, hread, _⟩ := exists_reads hinside hfirst.no_space
  have hskip := skipSpaces_of_rest hinside hfirst.no_space
  have hpeek := peek_of_rest hinside
  obtain ⟨after, hpipeline, hrest', htrees'⟩ :=
    derives_pipeline hfirst hclosing hinside (hoperand _ hinside)
  have haction := Parse.DerivesPassage.pipelineAction hread hfirst.startsControl hpipeline
  rw [hskip, hpeek] at haction
  exact ⟨_, .delimited hopen hopening haction, hrest', htrees'.trans htrees⟩

/-- The action of a path is a statement, whatever follows the right bracket. -/
theorem derives_path (setting : Parse.Setting) (path : Path) {opening closing : Item}
    {position : Position} {rest : List Item} (hopening : opening.kind = .leftDelim)
    (hclosing : closing.kind = .rightDelim)
    (hrest : s.rest = opening :: (segmentItems position path.segments ++ closing :: rest)) :
    ∃ after, Parse.DerivesPassage setting (.statement (.node (path.node position))) s after ∧
      after.rest = rest ∧ after.trees = s.trees := by
  have hfirst : StartsTerm ⟨.field, position, String.ofList path.first.chars⟩ :=
    ⟨rfl, rfl, nofun, nofun, nofun⟩
  exact derives_action hopening hfirst hclosing hrest fun _ hinside ↦
    derives_operand setting path position (by simp [hclosing]) hinside

/-! ### What the grammar makes of a line -/

/-- A text is a node of its own in front of what follows it. -/
theorem derives_text (text : Plain) {position : Position} {nodes : List Node} {items : List Item}
    (hrest : s.rest = textItem position text.text.toList ++ items)
    (hitems : ∀ s' : Parse.State, s'.rest = items →
      ∃ after, Parse.DerivesRoot setting nodes s' after ∧ after.trees = s'.trees) :
    ∃ after, Parse.DerivesRoot setting (text.nodes position ++ nodes) s after ∧
      after.trees = s.trees := by
  by_cases hempty : text.text = ""
  · rw [Plain.nodes, if_pos hempty]
    refine hitems s ?_
    rw [hrest, hempty]
    rfl
  · have hne : text.text.toList.isEmpty = false := by simpa using hempty
    rw [textItem, hne, String.ofList_toList] at hrest
    obtain ⟨afterText, hread, hafter, htrees⟩ := exists_reads hrest (by simp)
    obtain ⟨after, hothers, htrees'⟩ := hitems afterText hafter
    have hpeek : s.peek.kind = .text := by rw [peek_of_rest hrest]
    have hopens (afterWord : Parse.State) : ¬ Parse.OpensDefinition s afterWord := by
      intro hopens
      have hdelimited := hopens.delimited
      simp [hpeek] at hdelimited
    rw [Plain.nodes, if_neg hempty]
    exact ⟨after, .statement (by simp [hpeek]) hopens (.text hread rfl) hothers,
      htrees'.trans htrees⟩

/-- The texts and paths of a line are nodes of their own. -/
theorem derives_nodes (setting : Parse.Setting) (text : Plain) (slots : List Slot)
    {position : Position} (hrest : s.rest = itemsFrom position text slots) :
    ∃ after, Parse.DerivesRoot setting (nodesFrom position text slots) s after ∧
      after.trees = s.trees := by
  induction slots generalizing s text position with
  | nil =>
    have hend (s' : Parse.State) (hrest' : s'.rest =
        [⟨.eof, position.advance text.text.toList, ""⟩]) :
        ∃ after, Parse.DerivesRoot setting [] s' after ∧ after.trees = s'.trees :=
      ⟨s', .finished (by rw [peek_of_rest hrest']), rfl⟩
    simpa [nodesFrom] using derives_text text hrest hend
  | cons slot rest ih =>
    refine derives_text text hrest fun s' hrest' ↦ ?_
    obtain ⟨afterPath, hpath, hafter, htrees⟩ := derives_path setting slot.path rfl rfl hrest'
    obtain ⟨after, hothers, htrees'⟩ := ih slot.after hafter
    have hpeek : s'.peek.kind ≠ .eof := by
      rw [peek_of_rest hrest']
      simp
    exact ⟨after, .statement hpeek (Parse.not_opensDefinition hpath) hpath hothers,
      htrees'.trans htrees⟩

end Derivations

/-- The nodes of a line. -/
def nodes (line : LineTemplate) : List Node := nodesFrom {} line.start line.slots

/-- The first item of a line stands at its start. -/
theorem position_head (position : Position) (text : Plain) (slots : List Slot) :
    ((itemsFrom position text slots).headD Parse.State.exhausted).position = position := by
  have htext (items : List Item) (hitems : text.text = "" →
      (items.headD Parse.State.exhausted).position = position) :
      ((textItem position text.text.toList ++ items).headD Parse.State.exhausted).position =
        position := by
    by_cases hempty : text.text = ""
    · rw [hempty]
      exact hitems hempty
    · have hne : text.text.toList.isEmpty = false := by simpa using hempty
      rw [textItem, hne]
      rfl
  cases slots with
  | nil => exact htext _ fun hempty ↦ by rw [hempty]; rfl
  | cons slot rest => exact htext _ fun hempty ↦ by rw [hempty]; rfl

/-- The parser accepts every line, with one tree of its texts and paths. -/
theorem parse_source (line : LineTemplate) (name : String) (isFunction : String → Bool) :
    parse name Delimiters.brackets isFunction line.source =
      .ok ⟨[⟨name, name, ⟨{}, line.nodes⟩⟩]⟩ := by
  have hlex := line.lex_source
  have hrest : (Parse.State.initial (lex Delimiters.brackets line.source)).rest =
      itemsFrom {} line.start line.slots := hlex
  obtain ⟨after, hderives, htrees⟩ :=
    derives_nodes ⟨name, isFunction⟩ line.start line.slots hrest
  have hposition : (Parse.State.initial (lex Delimiters.brackets line.source)).peek.position =
      {} := by
    rw [Parse.State.peek, hrest]
    exact position_head {} line.start line.slots
  refine parse_eq_ok_iff.mpr ⟨_, after, hderives, ?_⟩
  rw [hposition]
  exact Parse.define_of_empty htrees _

end Stencil.LineTemplate
