import Stencil.Bracketed
import Stencil.Proofs.Execution.Steps
import Stencil.Proofs.Line.Tree

/-!
# The meaning of a line template

A line is executed by writing its texts and the values of its paths in turn, up to the first path
that meets a value without fields (`LineTemplate.render`). `LineTemplate.follow` walks a path: a
member of an object that is not there is null, and so is every member of null.
-/

set_option autoImplicit false
set_option relaxedAutoImplicit false

namespace Stencil.LineTemplate

open Syntax Exec

/-! ### Paths -/

/-- What a path leads to from a value: the value at its end, or the name and the value without
fields at which it breaks off. -/
def follow (value : Value) (path : List String) : Except (String × Value) Value :=
  match path with
  | [] => .ok value
  | name :: rest =>
    match value with
    | .object members => follow ((Value.lookup name members).getD .null) rest
    | .null => follow .null rest
    | _ => .error (name, value)

/-- A path is followed from where its first part leads. -/
theorem follow_append (value : Value) (first second : List String) :
    follow value (first ++ second) = (follow value first).bind (follow · second) := by
  induction first generalizing value with
  | nil => rfl
  | cons name rest ih =>
    cases value with
    | object members => exact ih ((Value.lookup name members).getD .null)
    | null => exact ih .null
    | _ => rfl

section Evaluation

variable {frame : Frame}

/-- The fields of a path are the value that the path leads to.
Assumes: a missing key gives null. -/
theorem fieldPath_eq (hmissing : frame.missingKey = .default) (node : Node) (receiver : Value)
    (path : List String) :
    fieldPath frame node false receiver path =
      match follow receiver path with
      | .ok value => pure value
      | .error (name, found) => fail frame node (.noFields name found.typeName) := by
  induction path generalizing receiver with
  | nil => rfl
  | cons name rest ih =>
    cases receiver with
    | object members =>
      have hfield : fieldOf frame node (false && rest.isEmpty) (.object members) name =
          pure ((Value.lookup name members).getD .null) := by
        cases hlookup : Value.lookup name members <;> simp [fieldOf, hlookup, hmissing]
      rw [fieldPath, hfield, pure_bind]
      exact ih _
    | null =>
      have hfield : fieldOf frame node (false && rest.isEmpty) .null name = pure .null := by
        simp [fieldOf, hmissing]
      rw [fieldPath, hfield, pure_bind]
      exact ih .null
    | _ => rfl

/-- Segments end no line. -/
theorem line_advance_segment (position : Position) (segment : Segment) :
    (position.advance segment.chars).line = position.line := by
  have hcount : segment.chars.count '\n' = 0 := by
    rw [List.count_eq_zero]
    intro hmem
    rcases List.mem_cons.mp hmem with hdot | hname
    · cases hdot
    · exact ne_of_isNameChar (segment.named '\n' hname) (by decide) rfl
  rw [Position.advance_line, hcount, Nat.add_zero]

/-- A path as a command is the value that it leads to.
Assumes: a missing key gives null. -/
theorem evalCommand_path (hmissing : frame.missingKey = .default) (dot : Value) (path : Path)
    (position : Position) :
    ∃ node : Node, node.position.line = position.line ∧
      evalCommand frame dot none ⟨position, [path.operand position]⟩ =
        match follow dot path.names with
        | .ok value => pure value
        | .error (name, found) => fail frame node (.noFields name found.typeName) := by
  obtain ⟨first, more⟩ := path
  cases more with
  | nil =>
    exact ⟨.field position [first.name], rfl,
      fieldPath_eq hmissing (.field position [first.name]) dot [first.name]⟩
  | cons second others =>
    have hnames : Path.names ⟨first, second :: others⟩ =
        [first.name] ++ (second :: others).map Segment.name := rfl
    have hbase : evalOperand frame dot (.field position [first.name]) =
        fieldPath frame (.field position [first.name]) false dot [first.name] := rfl
    rw [hnames, follow_append, Path.operand]
    dsimp only
    rw [evalCommand_chain frame dot none position _ [] (by simp) (by simp), hbase,
      fieldPath_eq hmissing]
    cases hfollow : follow dot [first.name] with
    | error stop => exact ⟨.field position [first.name], rfl, rfl⟩
    | ok value =>
      refine ⟨.chain (position.advance first.chars) (.field position [first.name])
        ((second :: others).map Segment.name), line_advance_segment position first, ?_⟩
      dsimp only
      rw [pure_bind]
      exact fieldPath_eq hmissing _ value _

/-- The action of a path writes the value that the path leads to.
Assumes: a missing key gives null. -/
theorem runNode_path (hmissing : frame.missingKey = .default) (invoke : Invoker) (dot : Value)
    (path : Path) (position : Position) :
    ∃ node : Node, node.position.line = position.line ∧
      runNode frame invoke dot (path.node position) =
        match follow dot path.names with
        | .ok value => emit value.output >>= fun _ ↦ pure .normal
        | .error (name, found) => fail frame node (.noFields name found.typeName) := by
  obtain ⟨node, hline, hcommand⟩ := evalCommand_path hmissing dot path position
  refine ⟨node, hline, ?_⟩
  have hpipeline : evalPipeline frame dot ⟨position, false, [],
      [⟨position, [path.operand position]⟩]⟩ =
        evalCommand frame dot none ⟨position, [path.operand position]⟩ := by
    simp [evalPipeline, evalCommands, bindVariables]
  rw [Path.node, runNode, hpipeline, hcommand]
  cases follow dot path.names with
  | ok value => rfl
  | error stop => rfl

end Evaluation

/-! ### Lines -/

/-- Where a line breaks off: the line of the path, and the name and the value without fields at
which the path does. -/
structure Stop where
  line : Nat
  name : String
  found : Value

/-- The source of a line up to the end of a slot, from the source before it. -/
def behindSlot (before : String) (text : Plain) (path : Path) : String :=
  before ++ text.text ++ "[." ++ ".".intercalate path.names ++ "]"

/-- What a text and the slots after it write, and where they break off if they do. They stand behind
a text, in which their lines are counted. -/
def renderFrom (data : Value) (before : String) (text : Plain) : List Slot → String × Option Stop
  | [] => (text.text, none)
  | slot :: rest =>
    match follow data slot.path.names with
    | .error (name, found) =>
      (text.text, some ⟨1 + (before ++ text.text).toList.count '\n', name, found⟩)
    | .ok value =>
      let (written, stop) := renderFrom data (behindSlot before text slot.path) slot.after rest
      (text.text ++ value.output ++ written, stop)

/-- What a line writes, and where it breaks off if it does. -/
def render (line : LineTemplate) (data : Value) : String × Option Stop :=
  renderFrom data "" line.start line.slots

/-- The position behind a text. -/
def place (before : String) : Position := Position.advance {} before.toList

theorem place_append (before text : String) :
    place (before ++ text) = (place before).advance text.toList := by
  rw [place, String.toList_append, Position.advance_append, place]

theorem line_place (before : String) : (place before).line = 1 + before.toList.count '\n' :=
  Position.advance_line {} before.toList

theorem offset_place (before : String) : (place before).offset = before.utf8ByteSize := by
  rw [place, Position.advance_offset, String.ofList_toList, Nat.zero_add]

/-- The nodes of a text, a slot and what follows stand where the source before them ends. -/
theorem nodesFrom_cons (before : String) (text : Plain) (slot : Slot) (rest : List Slot) :
    nodesFrom (place before) text (slot :: rest) =
      text.nodes (place before) ++ slot.path.node (place (before ++ text.text ++ "[")) ::
        nodesFrom (place (behindSlot before text slot.path)) slot.after rest := by
  have hpath := toList_intercalate slot.path.first slot.path.more
  change '.' :: (".".intercalate slot.path.names).toList = segmentChars slot.path.segments at hpath
  have hstart : place (before ++ text.text ++ "[") =
      ((place before).advance text.text.toList).next '[' := by
    rw [place_append, place_append]
    rfl
  have hend : place (behindSlot before text slot.path) =
      ((place (before ++ text.text ++ "[")).advance
        (segmentChars slot.path.segments)).next ']' := by
    rw [behindSlot, ← hpath, hstart, place_append, place_append, place_append, place_append]
    rfl
  rw [nodesFrom, hend, hstart]

/-- That an execution in a frame ends as a line does: normally, or with the fault of the path at
which it breaks off. -/
def EndsAs (frame : Frame) (stop : Option Stop) (result : Except ExecError Flow) : Prop :=
  match stop with
  | none => result = .ok .normal
  | some stop =>
    ∃ node, result = .error (.eval ⟨frame.tree.parseName, stop.line, frame.tree.name, node,
      .noFields stop.name stop.found.typeName⟩)

section Lines

variable {frame : Frame}

/-- A text is written in front of what follows it. -/
theorem run_text (frame : Frame) (invoke : Invoker) (dot : Value) (position : Position)
    (text : Plain) (nodes : List Node) {state : Exec.State} (hroom : state.sink.room = none) :
    ∃ middle : Exec.State, middle.sink.room = none ∧
      middle.sink.output = state.sink.output ++ text.text ∧
      (runNodes frame invoke dot (text.nodes position ++ nodes)).run state =
        (runNodes frame invoke dot nodes).run middle := by
  by_cases hempty : text.text = ""
  · exact ⟨state, hroom, by simp [hempty], by rw [Plain.nodes, if_pos hempty, List.nil_append]⟩
  · obtain ⟨sink, hwrite, hroom', houtput⟩ := Sink.exists_write hroom text.text
    refine ⟨{ state with sink := sink }, hroom', houtput, ?_⟩
    have hrun : (runNode frame invoke dot (.text position text.text)).run state =
        (.ok .normal, { state with sink := sink }) := by
      rw [runNode, run_bind, run_emit, hwrite]
      rfl
    rw [Plain.nodes, if_neg hempty, List.singleton_append, runNodes, run_bind, hrun]

/-- The nodes of a line write what the line does and end as it does.
Assumes: a missing key gives null, and the sink has no limit. -/
theorem run_nodesFrom (hmissing : frame.missingKey = .default) (invoke : Invoker) (data : Value)
    (before : String) (text : Plain) (slots : List Slot) {state : Exec.State}
    (hroom : state.sink.room = none) :
    ∃ result after,
      (runNodes frame invoke data (nodesFrom (place before) text slots)).run state =
        (result, after) ∧
      after.sink.output = state.sink.output ++ (renderFrom data before text slots).1 ∧
      EndsAs frame (renderFrom data before text slots).2 result := by
  induction slots generalizing before text state with
  | nil =>
    obtain ⟨middle, _, houtput, hrun⟩ :=
      run_text frame invoke data (place before) text [] hroom
    rw [List.append_nil] at hrun
    exact ⟨.ok .normal, middle, hrun, houtput, rfl⟩
  | cons slot rest ih =>
    rw [nodesFrom_cons]
    obtain ⟨middle, hroomMiddle, houtput, hrun⟩ :=
      run_text frame invoke data (place before) text
        (slot.path.node (place (before ++ text.text ++ "[")) ::
          nodesFrom (place (behindSlot before text slot.path)) slot.after rest) hroom
    obtain ⟨node, hline, hpath⟩ :=
      runNode_path hmissing invoke data slot.path (place (before ++ text.text ++ "["))
    rw [hrun, runNodes, run_bind, hpath, renderFrom]
    cases hfollow : follow data slot.path.names with
    | error stop =>
      obtain ⟨name, found⟩ := stop
      have hlines : (before ++ text.text ++ "[").toList.count '\n' =
          (before ++ text.text).toList.count '\n' := by
        simp
      dsimp only
      rw [run_fail, faultAt, errorAt, hline, line_place, hlines]
      exact ⟨_, middle, rfl, houtput, node.canonical, rfl⟩
    | ok value =>
      obtain ⟨sink, hwrite, hroomSink, houtputSink⟩ :=
        Sink.exists_write hroomMiddle value.output
      obtain ⟨result, after, hrest, houtputRest, hends⟩ :=
        @ih (behindSlot before text slot.path) slot.after { middle with sink := sink } hroomSink
      refine ⟨result, after, ?_, ?_, hends⟩
      · dsimp only
        rw [run_bind, run_emit, hwrite]
        exact hrest
      · rw [houtputRest]
        change sink.output ++ _ = _
        rw [houtputSink, houtput]
        simp [String.append_assoc]

end Lines

/-- The template that a line is compiled to. -/
def template (line : LineTemplate) (bracketed : Bracketed) (name : String) : Template where
  name := name
  delimiters := Delimiters.brackets
  functions := bracketed.functions
  trees := ⟨[⟨name, name, ⟨{}, line.nodes⟩⟩]⟩

/-- Every line is compiled. -/
theorem compile_source (line : LineTemplate) (bracketed : Bracketed) (name : String) :
    bracketed.compile name line.source = .ok (line.template bracketed name) := by
  simp only [Bracketed.compile, Bracketed.trees, parse_source, bind, Except.bind, pure, Except.pure,
    template]

/-- That an execution ends as a line does: without an error, or with the fault of the path at which
it breaks off. -/
def Ends (name : String) (stop : Option Stop) (error : Option ExecError) : Prop :=
  match stop with
  | none => error = none
  | some stop =>
    ∃ node, error = some (.eval ⟨name, stop.line, name, node,
      .noFields stop.name stop.found.typeName⟩)

/-- The template of a line writes what the line does and ends as it does. -/
theorem execute_template (line : LineTemplate) (bracketed : Bracketed) (name : String)
    (data : Value) :
    ((line.template bracketed name).execute data none none).output = (line.render data).1 ∧
      Ends name (line.render data).2
        ((line.template bracketed name).execute data none none).error := by
  have hfind : (line.template bracketed name).program.trees.find? name =
      some ⟨name, name, ⟨{}, line.nodes⟩⟩ := by
    simp [Template.program, template, TreeSet.find?]
  obtain ⟨result, after, hrun, houtput, hends⟩ :=
    @run_nodesFrom ((line.template bracketed name).program.frame ⟨name, name, ⟨{}, line.nodes⟩⟩) rfl
      (invoker (line.template bracketed name).program maxInvocations) data "" line.start line.slots
      ⟨Scope.initial data, Sink.limited none⟩ rfl
  have hbody :
      (runBody ((line.template bracketed name).program.frame ⟨name, name, ⟨{}, line.nodes⟩⟩)
        (invoker (line.template bracketed name).program maxInvocations) data ⟨{}, line.nodes⟩).run
          ⟨Scope.initial data, Sink.limited none⟩ = (result, after) := hrun
  have hexecute : (line.template bracketed name).execute data none none = _ :=
    execute_eq hfind name none data
  rw [hbody] at hexecute
  have hwritten : after.sink.output = (line.render data).1 := by
    rw [houtput]
    exact String.empty_append
  change EndsAs _ (line.render data).2 result at hends
  rw [hexecute]
  cases hstop : (line.render data).2 with
  | none =>
    rw [hstop] at hends
    cases hends
    exact ⟨hwritten, rfl⟩
  | some stop =>
    rw [hstop] at hends
    obtain ⟨node, rfl⟩ := hends
    exact ⟨hwritten, node, rfl⟩

end Stencil.LineTemplate
