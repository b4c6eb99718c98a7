import Stencil.Proofs.Execution.Assignments
import Stencil.Proofs.Execution.Faults
import Stencil.Proofs.Execution.Machine

/-!
# The stack of variables

A statement puts variables on the stack and takes them off again, and only an assignment gives a new
value to one that was there before. The records of assignments go on from pipelines to statements
(`nodeRecord`, `nodesRecord`), where a loop has those of its rounds one after the other
(`loopRecord`). A template that is invoked has variables of its own, so it adds nothing.

A loop is told by its rounds (`rounds`), each with the state before it and the state in which its
body starts. The names are the same at every start, and the variables that the loop declares have
the values of the round (`start_of_mem_rounds`).

`variables_disciplined` puts this together. Behind a control structure the names are those from
before it. A template statement is no control structure, and what its argument declares is there
afterwards (`not_names_template`).
-/

set_option autoImplicit false
set_option relaxedAutoImplicit false

namespace Stencil.Syntax

/-- The names that a pipeline declares, the innermost first. -/
def Pipeline.declaredNames (pipeline : Pipeline) : List String :=
  if pipeline.isAssign then [] else (pipeline.targets.filterMap Variable.name?).reverse

theorem Pipeline.writes_subset_targetsOf (pipeline : Pipeline) (assigning : Bool) :
    writes pipeline.isAssign pipeline.targets assigning ⊆ pipeline.targetsOf assigning := by
  obtain ⟨position, isAssign, targets, commands⟩ := pipeline
  exact List.subset_append_right _ _

/-- Whether a node is a control structure. -/
def Node.isControl : Node → Bool
  | .branch .. => true
  | _ => false

end Stencil.Syntax

namespace Stencil.Exec

open Syntax

/-! ### Rounds -/

/-- A round that a loop gets to: its index and item, the state before it, and the state in which its
body starts. -/
structure Round where
  index : Value
  item : Value
  before : State
  start : State

section Rounds

variable (frame : Frame) (invoke : Invoker) (head : Pipeline) (body : Body)

/-- The rounds that a loop gets to. -/
def rounds : List (Value × Value) → State → List Round
  | [], _ => []
  | (index, item) :: rest, state =>
    match (bindRound frame head index item).run state with
    | (.error _, _) => []
    | (.ok _, start) =>
      ⟨index, item, state, start⟩ ::
        match (runRound frame invoke head body (index, item)).run state with
        | (.ok .breaking, _) | (.error _, _) => []
        | (.ok _, after) => rounds rest after

/-- The variables that a loop declares, with their values in a round, the innermost first. -/
def roundVariables (index item : Value) : Scope :=
  match head.isAssign, head.targets with
  | false, [target] => (target.name?.map (·, item)).toList
  | false, [first, second] =>
    (second.name?.map (·, item)).toList ++ (first.name?.map (·, index)).toList
  | _, _ => []

/-- That the rounds of a loop, from a state on, all start alike. -/
structure RoundsAlike (pairs : List (Value × Value)) (state : State) : Prop where
  map_prefix : (rounds frame invoke head body pairs state).map
    (fun round ↦ (round.index, round.item)) <+: pairs
  /-- The loop gets to all rounds, unless the body breaks in the last one that it gets to. -/
  map_eq : (rounds frame invoke head body pairs state).map
      (fun round ↦ (round.index, round.item)) = pairs ∨
    ∃ last ∈ (rounds frame invoke head body pairs state).getLast?, ∃ reached,
      (runBody frame invoke last.item body).run last.start = (.ok .breaking, reached)
  names_eq : ∀ round ∈ rounds frame invoke head body pairs state,
    round.start.scope.names = state.scope.names
  variables_prefix : ∀ round ∈ rounds frame invoke head body pairs state,
    roundVariables head round.index round.item <+: round.start.scope

/-- The assignments of giving the variables of a loop their values for a round. -/
def bindRoundRecord (index item : Value) : Record :=
  match head.targets, head.isAssign with
  | [target], true => .assign target item
  | first :: second :: _, true =>
    (Record.assign first index).andThen (assign frame first index) fun _ ↦ .assign second item
  | _, _ => .empty

/-- The assignments of a loop, by those of its body on an item. -/
def loopRecord (record : Value → Record) (pairs : List (Value × Value)) : Record := fun state ↦
  (rounds frame invoke head body pairs state).flatMap fun round ↦
    bindRoundRecord frame head round.index round.item round.before ++
      record round.item round.start

end Rounds

/-! ### Records of statements -/

section Records

variable (frame : Frame) (invoke : Invoker)

/-- The assignments of a control structure, by those of its body on a dot and those of its else
part. -/
def branchRecord (dot : Value) (kind : BranchKind) (position : Position) (head : Pipeline)
    (body : Body) (otherwise : Option Body) (record : Value → Record) (other : Record) : Record :=
  (pipelineRecord frame dot head).andThen (evalPipeline frame dot head) fun value ↦
    match kind with
    | .conditional => if value.isTrue then record dot else other
    | .context => if value.isTrue then record value else other
    | .loop =>
      Record.empty.andThen (loopItems frame (.branch kind position head body otherwise)
        head.targets.length value) fun pairs ↦
          if pairs.isEmpty then other else loopRecord frame invoke head body record pairs

mutual

/-- The assignments of a statement. -/
def nodeRecord (dot : Value) : Node → Record
  | .action _ inner => pipelineRecord frame dot inner
  | .branch kind position head body otherwise =>
    branchRecord frame invoke dot kind position head body otherwise (fun dot ↦ bodyRecord dot body)
      (match otherwise with
      | none => .empty
      | some other => bodyRecord dot other)
  | .template _ _ argument =>
    match argument with
    | none => .empty
    | some inner => pipelineRecord frame dot inner
  | _ => .empty

/-- The assignments of statements. -/
def nodesRecord (dot : Value) : List Node → Record
  | [] => .empty
  | node :: rest =>
    (nodeRecord dot node).andThen (runNode frame invoke dot node) fun flow ↦
      match flow with
      | .normal => nodesRecord dot rest
      | _ => .empty

/-- The assignments of a body. -/
def bodyRecord (dot : Value) : Body → Record
  | ⟨_, nodes⟩ => nodesRecord dot nodes

end

end Records

/-! ### Loops -/

section Loops

variable {frame : Frame} {invoke : Invoker} {head : Pipeline} {body : Body}
  {targets : Bool → List Variable} {outer : List String} {state start after : State}
  {index item : Value}

theorem exists_of_names_cons {scope : Scope} {name : String} {others : List String}
    (hnames : scope.names = name :: others) :
    ∃ value rest, scope = (name, value) :: rest ∧ Scope.names rest = others := by
  cases scope with
  | nil => cases hnames
  | cons slot rest =>
    obtain ⟨rfl, rfl⟩ := List.cons.inj hnames
    exact ⟨slot.2, rest, rfl, rfl⟩

/-- That what a pipeline declares stands in front of other variables. -/
structure Declared (pipeline : Pipeline) (outer : List String) (state : State) : Prop where
  isNamed : pipeline.isAssign = false → ∀ target ∈ pipeline.targets, target.IsNamed
  names_eq : state.scope.names = pipeline.declaredNames ++ outer

theorem Declared.of_names_eq {pipeline : Pipeline} (hdeclared : Declared pipeline outer state)
    (hnames : after.scope.names = state.scope.names) : Declared pipeline outer after :=
  ⟨hdeclared.isNamed, hnames.trans hdeclared.names_eq⟩

/-- What a pipeline declares stands in front of variables from before it and of those that its
commands have declared. -/
theorem exists_declared_evalPipeline {dot : Value} {pipeline : Pipeline} {value : Value}
    (hrun : (evalPipeline frame dot pipeline).run state = (.ok value, after)) :
    ∃ outer, Declared pipeline outer after ∧ state.scope.names <:+ outer := by
  obtain ⟨position, isAssign, bound, commands⟩ := pipeline
  obtain ⟨last, middle, hmiddle, hrest⟩ := exists_of_run_bind state hrun
  obtain ⟨⟨⟩, reached, hbind, hpure⟩ := exists_of_run_bind middle hrest
  cases hpure
  have hgrows := (evalCommands_tracks frame dot none commands hmiddle).grows
  refine ⟨middle.scope.names, ?_, hgrows⟩
  cases isAssign with
  | true =>
    have hends : Ends (bindVariables frame true (last.getD .null) bound) middle
        (fun _ after ↦ after.scope.names = middle.scope.names) fun _ ↦ True :=
      bindVariables_assign_ends fun _ _ ↦ ⟨fun _ ↦ trivial, fun _ _ _ ↦ trivial⟩
    exact ⟨nofun, hends.of_run hbind⟩
  | false =>
    have hends : Ends (bindVariables frame false (last.getD .null) bound) middle
        (fun _ after ↦ (∀ target ∈ bound, target.name? ≠ none) ∧
          after.scope.names = (bound.filterMap Variable.name?).reverse ++ middle.scope.names)
        fun _ ↦ True := bindVariables_declare_ends fun _ _ _ ↦ trivial
    obtain ⟨hnamed, hnames⟩ := hends.of_run hbind
    exact ⟨fun _ ↦ hnamed, hnames⟩

/-- The items of a loop change nothing. -/
theorem eq_of_run_loopItems {node : Node} {count : Nat} {value : Value}
    {pairs : List (Value × Value)}
    (hrun : (loopItems frame node count value).run state = (.ok pairs, after)) : after = state :=
  (loopItems_ends allowsRegular_true node count value : Ends _ _ _ fun _ ↦ True).of_run hrun

theorem names_of_run_assign {target : Variable} {value : Value}
    (hrun : (assign frame target value).run state = (.ok (), after)) :
    after.scope.names = state.scope.names :=
  (assign_ends ⟨fun _ ↦ trivial, fun _ _ _ ↦ trivial⟩ : Ends _ _ _ fun _ ↦ True).of_run hrun

/-- New values for two variables in front of others do not change those. -/
theorem setAt_two {scope : Scope} {inner : List String} (hnames : scope.names = inner ++ outer)
    (hinner : 2 ≤ inner.length) (first second : Value) :
    ((scope.setAt 0 first).setAt 1 second).names = scope.names ∧
      ∀ slot < outer.length,
        ((scope.setAt 0 first).setAt 1 second).valueAt? slot = scope.valueAt? slot := by
  have hlength : scope.length = inner.length + outer.length := by
    rw [← Scope.length_names, hnames, List.length_append]
  have hkept : (scope.setAt 0 first).length = scope.length := by
    rw [← Scope.length_names, Scope.names_setAt, Scope.length_names]
  refine ⟨(Scope.names_setAt _ 1 second).trans (Scope.names_setAt _ 0 first), fun slot hslot ↦ ?_⟩
  rw [Scope.valueAt?_setAt (by omega), Scope.valueAt?_setAt (by omega)]

/-- A round gives new values to the variables of the loop, and to no others unless it assigns
them. -/
theorem bindRound_settles (hdeclared : Declared head outer state)
    (hassigned : writes head.isAssign head.targets true ⊆ targets true)
    (hrun : (bindRound frame head index item).run state = (.ok (), start)) :
    start.scope.names = state.scope.names ∧ roundVariables head index item <+: start.scope ∧
      Settles targets outer.length state start (bindRoundRecord frame head index item state) := by
  obtain ⟨hnamed, hnames⟩ := hdeclared
  obtain ⟨position, isAssign, bound, commands⟩ := head
  match bound, isAssign with
  | [], false | [], true =>
    cases hrun
    exact ⟨rfl, List.nil_prefix, .of_scope rfl⟩
  | [target], true =>
    refine ⟨names_of_run_assign hrun, List.nil_prefix, ?_⟩
    exact .of_assign (hassigned List.mem_cons_self) hrun
  | first :: second :: more, true =>
    obtain ⟨⟨⟩, middle, hfirst, hsecond⟩ := exists_of_run_bind state hrun
    have hrecord : bindRoundRecord frame ⟨position, true, first :: second :: more, commands⟩ index
        item state = [⟨first, index, state.scope⟩] ++ [⟨second, item, middle.scope⟩] := by
      change (Record.assign first index).andThen _ _ state = _
      rw [Record.andThen, hfirst]
      rfl
    refine ⟨(names_of_run_assign hsecond).trans (names_of_run_assign hfirst), List.nil_prefix, ?_⟩
    rw [hrecord]
    exact .trans (.of_assign (hassigned List.mem_cons_self) hfirst)
      (.of_assign (hassigned (List.mem_cons_of_mem _ List.mem_cons_self)) hsecond)
  | [target], false =>
    obtain ⟨name, hname⟩ := Option.ne_none_iff_exists'.mp (hnamed rfl target List.mem_cons_self)
    simp only [Pipeline.declaredNames, List.filterMap_cons_some hname] at hnames
    obtain ⟨old, rest, hscope, rfl⟩ := exists_of_names_cons hnames
    cases hrun
    obtain ⟨scope, sink⟩ := state
    dsimp only at hscope
    subst hscope
    refine ⟨rfl, ⟨rest, ?_⟩, .of_values rfl fun slot hslot ↦ ?_⟩
    · simp only [roundVariables, hname]
      rfl
    · exact Scope.valueAt?_setAt (by simpa using hslot) item
  | first :: second :: more, false =>
    cases hrun
    obtain ⟨hfirst, hothers⟩ := List.forall_mem_cons.mp (hnamed rfl)
    obtain ⟨name, hname⟩ := Option.ne_none_iff_exists'.mp hfirst
    obtain ⟨other, hother⟩ := Option.ne_none_iff_exists'.mp (hothers second List.mem_cons_self)
    simp only [Pipeline.declaredNames, List.filterMap_cons_some hname,
      List.filterMap_cons_some hother] at hnames
    obtain ⟨hkept, hvalues⟩ := setAt_two hnames (by simp) item index
    refine ⟨hkept, ?_, .of_values hkept hvalues⟩
    cases more with
    | nil =>
      obtain ⟨_, inner, hscope, hinner⟩ := exists_of_names_cons hnames
      obtain ⟨_, rest, rfl, -⟩ := exists_of_names_cons hinner
      simp only [roundVariables, hname, hother, hscope]
      exact ⟨rest, rfl⟩
    | cons => exact List.nil_prefix

/-- A round gives the variables of the loop their values and then runs the body. -/
theorem exists_of_runRound {flow : Flow}
    (hrun : (runRound frame invoke head body (index, item)).run state = (.ok flow, after)) :
    ∃ start reached, (bindRound frame head index item).run state = (.ok (), start) ∧
      (runBody frame invoke item body).run start = (.ok flow, reached) ∧
      after = { reached with scope := reached.scope.keep state.scope.length } := by
  rw [runRound, run_withScope] at hrun
  split at hrun
  next flow reached hinside =>
    cases hrun
    obtain ⟨⟨⟩, start, hstart, hrest⟩ := exists_of_run_bind state hinside
    exact ⟨start, reached, hstart, hrest, rfl⟩
  next => cases hrun

/-- A round leaves the variables from before it, with the values that it assigns to them. -/
theorem runRound_settles {record : Record} (hbody : Tracks targets (runBody frame invoke item body)
      record)
    (hdeclared : Declared head outer state)
    (hassigned : writes head.isAssign head.targets true ⊆ targets true) {flow : Flow}
    (hrun : (runRound frame invoke head body (index, item)).run state = (.ok flow, after)) :
    ∃ start, (bindRound frame head index item).run state = (.ok (), start) ∧
      after.scope.names = state.scope.names ∧
      Settles targets outer.length state after
        (bindRoundRecord frame head index item state ++ record start) := by
  obtain ⟨start, reached, hstart, hrest, rfl⟩ := exists_of_runRound hrun
  obtain ⟨hkept, -, hbound⟩ := bindRound_settles hdeclared hassigned hstart
  have houter : outer.length ≤ state.scope.length := by
    rw [← Scope.length_names, hdeclared.names_eq, List.length_append]
    exact Nat.le_add_left _ _
  have hstarted : state.scope.length = start.scope.length := by
    rw [← Scope.length_names, ← hkept, Scope.length_names]
  have hall := hbound.trans ((hbody hrest).mono (fun _ ↦ List.Subset.refl _) (hstarted ▸ houter))
  exact ⟨start, hstart, hall.grows.names_keep, hall.keep houter⟩

variable {record : Value → Record}

/-- Every round of a loop starts with the same names, and the variables of the loop have the values
of the round. -/
theorem start_of_mem_rounds
    (hbody : ∀ item, Tracks targets (runBody frame invoke item body) (record item))
    (hdeclared : Declared head outer state)
    (hassigned : writes head.isAssign head.targets true ⊆ targets true)
    {pairs : List (Value × Value)} {round : Round}
    (hround : round ∈ rounds frame invoke head body pairs state) :
    round.start.scope.names = state.scope.names ∧
      roundVariables head round.index round.item <+: round.start.scope := by
  induction pairs generalizing state with
  | nil => cases hround
  | cons pair rest ih =>
    obtain ⟨index, item⟩ := pair
    rw [rounds] at hround
    split at hround
    next => cases hround
    next start hstart =>
      obtain ⟨hkept, hvariables, -⟩ := bindRound_settles hdeclared hassigned hstart
      rcases List.mem_cons.mp hround with rfl | hround
      · exact ⟨hkept, hvariables⟩
      split at hround
      next => cases hround
      next => cases hround
      next after hnot hafter =>
        obtain ⟨-, -, hsame, -⟩ := runRound_settles (hbody item) hdeclared hassigned hafter
        rw [← hsame]
        exact ih (hdeclared.of_names_eq hsame) hround

/-- The rounds that a loop gets to are the first of those that it has. -/
theorem map_rounds_prefix (pairs : List (Value × Value)) (state : State) :
    (rounds frame invoke head body pairs state).map (fun round ↦ (round.index, round.item)) <+:
      pairs := by
  induction pairs generalizing state with
  | nil => exact List.nil_prefix
  | cons pair rest ih =>
    rw [rounds]
    split
    next => exact List.nil_prefix
    next =>
      rw [List.map_cons, List.prefix_cons_inj]
      split
      next => exact List.nil_prefix
      next => exact List.nil_prefix
      next => exact ih _

/-- A loop gets to all its rounds, unless the body breaks in the last one that it gets to. -/
theorem map_rounds_eq {pairs : List (Value × Value)}
    (hrun : (runRounds (runRound frame invoke head body) pairs).run state = (.ok (), after)) :
    (rounds frame invoke head body pairs state).map (fun round ↦ (round.index, round.item)) =
        pairs ∨
      ∃ last ∈ (rounds frame invoke head body pairs state).getLast?, ∃ reached,
        (runBody frame invoke last.item body).run last.start = (.ok .breaking, reached) := by
  induction pairs generalizing state with
  | nil => exact .inl rfl
  | cons pair rest ih =>
    obtain ⟨index, item⟩ := pair
    obtain ⟨flow, behind, hround, hrest⟩ := exists_of_run_bind state hrun
    obtain ⟨start, reached, hstart, hbody, -⟩ := exists_of_runRound hround
    rw [rounds, hstart]
    dsimp only
    rw [hround]
    cases flow with
    | breaking => exact .inr ⟨_, rfl, reached, hbody⟩
    | normal | continuing =>
      rcases ih hrest with hall | ⟨last, hlast, hbreaks⟩
      · exact .inl (congrArg ((index, item) :: ·) hall)
      · refine .inr ⟨last, ?_, hbreaks⟩
        rw [Option.mem_def] at hlast ⊢
        rw [List.getLast?_cons, hlast]
        rfl

/-- A loop leaves the variables from before it, with the values that its rounds assign to them. -/
theorem runRounds_settles
    (hbody : ∀ item, Tracks targets (runBody frame invoke item body) (record item))
    (hdeclared : Declared head outer state)
    (hassigned : writes head.isAssign head.targets true ⊆ targets true)
    {pairs : List (Value × Value)}
    (hrun : (runRounds (runRound frame invoke head body) pairs).run state = (.ok (), after)) :
    Settles targets outer.length state after
      (loopRecord frame invoke head body record pairs state) := by
  induction pairs generalizing state with
  | nil =>
    cases hrun
    exact .of_scope rfl
  | cons pair rest ih =>
    obtain ⟨index, item⟩ := pair
    obtain ⟨flow, reached, hround, hrest⟩ := exists_of_run_bind state hrun
    obtain ⟨start, hstart, hsame, hsettles⟩ :=
      runRound_settles (hbody item) hdeclared hassigned hround
    rw [loopRecord, rounds, hstart]
    dsimp only
    rw [hround, List.flatMap_cons]
    cases flow with
    | breaking =>
      cases hrest
      rw [List.flatMap_nil, List.append_nil]
      exact hsettles
    | normal | continuing => exact hsettles.trans (ih (hdeclared.of_names_eq hsame) hrest)

end Loops

/-! ### Statements -/

section Statements

variable {frame : Frame} {invoke : Invoker} {targets : Bool → List Variable}

/-- A control structure is tracked by its record if its parts are. -/
theorem branch_tracks {dot : Value} {kind : BranchKind} {position : Position} {head : Pipeline}
    {body : Body} {otherwise : Option Body} {record : Value → Record} {other : Record}
    (hhead : ∀ assigning, head.targetsOf assigning ⊆ targets assigning)
    (hbody : ∀ dot, Tracks targets (runBody frame invoke dot body) (record dot))
    (hother : Tracks targets (runOtherwise frame invoke dot otherwise) other) :
    Tracks targets (runNode frame invoke dot (.branch kind position head body otherwise))
      (branchRecord frame invoke dot kind position head body otherwise record other) := by
  rw [runNode_branch]
  refine .withScope fun state flow after hrun ↦ ?_
  obtain ⟨value, middle, hmiddle, hrest⟩ := exists_of_run_bind state hrun
  have hfirst := (evalPipeline_tracks frame dot head hmiddle).mono hhead (Nat.le_refl _)
  have hlength := Scope.length_le_of_names hfirst.grows
  rw [branchRecord, Record.andThen, hmiddle]
  refine hfirst.trans ?_
  have hpart {step : Exec Flow} {record : Record} (hstep : Tracks targets step record)
      (hrun : step.run middle = (.ok flow, after)) :
      Settles targets state.scope.length middle after (record middle) :=
    (hstep hrun).mono (fun _ ↦ List.Subset.refl _) hlength
  cases kind with
  | conditional => exact hpart (.ite (hbody dot) hother) hrest
  | context => exact hpart (.ite (hbody value) hother) hrest
  | loop =>
    obtain ⟨pairs, reached, hitems, hloop⟩ := exists_of_run_bind middle hrest
    obtain rfl := eq_of_run_loopItems hitems
    dsimp only
    rw [Record.andThen, hitems]
    dsimp only
    split at hloop
    next hempty =>
      rw [if_pos hempty]
      exact hpart hother hloop
    next hpairs =>
      rw [if_neg hpairs]
      obtain ⟨⟨⟩, behind, hrounds, hpure⟩ := exists_of_run_bind reached hloop
      cases hpure
      obtain ⟨outer, hdeclared, houter⟩ := exists_declared_evalPipeline hmiddle
      have hassigned := List.Subset.trans (head.writes_subset_targetsOf true) (hhead true)
      exact (runRounds_settles hbody hdeclared hassigned hrounds).mono (fun _ ↦ List.Subset.refl _)
        (by simpa using houter.length_le)

variable (frame)

mutual

/-- Running a statement is tracked by its record. -/
theorem runNode_tracks (hinvoke : invoke.Keeps fun _ ↦ True) (dot : Value) : (node : Node) →
    Tracks (node.targetsOf ·) (runNode frame invoke dot node) (nodeRecord frame invoke dot node)
  | .text _ text => (Tracks.emit text).thenStill fun _ ↦ .pure _
  | .comment .. | .breakLoop _ | .continueLoop _ => .pure _
  | .action _ inner => by
    refine (evalPipeline_tracks frame dot inner).thenStill fun value ↦ ?_
    split
    · exact (Tracks.emit _).thenStill fun _ ↦ .pure _
    · exact .pure _
  | .branch _ _ head body none =>
    have hbody (dot : Value) := runBody_tracks hinvoke dot body
    branch_tracks (fun _ ↦ List.subset_append_left _ _)
      (fun dot ↦ (hbody dot).mono fun _ ↦
        List.subset_append_of_subset_right _ (List.subset_append_left _ _))
      (.pure _)
  | .branch _ _ head body (some other) =>
    have hbody (dot : Value) := runBody_tracks hinvoke dot body
    have hother := runBody_tracks hinvoke dot other
    branch_tracks (fun _ ↦ List.subset_append_left _ _)
      (fun dot ↦ (hbody dot).mono fun _ ↦
        List.subset_append_of_subset_right _ (List.subset_append_left _ _))
      (hother.mono fun _ ↦ List.subset_append_of_subset_right _ (List.subset_append_right _ _))
  | .template position name argument => by
    have hname := hinvoke name
    rw [runNode]
    cases hcall : invoke name with
    | error fault => exact .fail frame _ fault _
    | ok run =>
      rw [hcall] at hname
      have hrun (data : Value) : Tracks ((Node.template position name argument).targetsOf ·)
          (run data >>= fun _ ↦ pure Flow.normal) .empty :=
        (Tracks.still (hname data)).thenStill fun _ ↦ .pure _
      cases argument with
      | none => exact (Tracks.pure Value.null).thenStill hrun
      | some inner => exact (evalPipeline_tracks frame dot inner).thenStill hrun
  | .pipeline _ | .command _ | .identifier .. | .var _ | .dot _ | .nil _ | .field .. | .chain ..
  | .bool .. | .number _ | .string .. => .fail frame _ _ _

/-- Running statements is tracked by their record. -/
theorem runNodes_tracks (hinvoke : invoke.Keeps fun _ ↦ True) (dot : Value) :
    (nodes : List Node) → Tracks (Node.allTargetsOf · nodes) (runNodes frame invoke dot nodes)
      (nodesRecord frame invoke dot nodes)
  | [] => .pure _
  | node :: rest =>
    .bind ((runNode_tracks hinvoke dot node).mono fun _ ↦ List.subset_append_left _ _) fun flow ↦
      match flow with
      | .normal =>
        (runNodes_tracks hinvoke dot rest).mono fun _ ↦ List.subset_append_right _ _
      | .breaking | .continuing => .pure _

/-- Running a body is tracked by its record. -/
theorem runBody_tracks (hinvoke : invoke.Keeps fun _ ↦ True) (dot : Value) : (body : Body) →
    Tracks (body.targetsOf ·) (runBody frame invoke dot body) (bodyRecord frame invoke dot body)
  | ⟨_, nodes⟩ => runNodes_tracks hinvoke dot nodes

end

end Statements

/-! ### The stack -/

/-- The templates of a program have variables of their own. -/
theorem invoker_keeps_scope (program : Program) (depth : Nat) :
    (invoker program depth).Keeps fun _ ↦ True := by
  intro name
  cases depth with
  | zero =>
    rw [invoker]
    cases program.trees.find? name <;> exact fun _ _ ↦ trivial
  | succ depth =>
    rw [invoker]
    cases program.trees.find? name with
    | none => exact fun _ _ ↦ trivial
    | some tree =>
      intro data state
      unfold Ends
      rw [run_runTree]
      rcases (runBody (program.frame tree) (invoker program depth) data tree.root).run
        { state with scope := Scope.initial data } with ⟨(_ | _ | _) | _, after⟩
      · trivial
      · trivial
      · trivial
      · rfl

section Stack

variable {frame : Frame} {invoke : Invoker} {dot : Value} {state after : State} {flow : Flow}

/-- Behind a control structure the names are those from before it. -/
theorem names_runNode_branch (hinvoke : invoke.Keeps fun _ ↦ True) {node : Node}
    (hcontrol : node.isControl = true)
    (hrun : (runNode frame invoke dot node).run state = (.ok flow, after)) :
    after.scope.names = state.scope.names := by
  have hgrows := (runNode_tracks frame hinvoke dot node hrun).grows
  cases node with
  | branch kind position head body otherwise =>
    rw [runNode_branch, run_withScope] at hrun
    split at hrun
    next reached hreached =>
      cases hrun
      refine (hgrows.eq_of_length_le ?_).symm
      simp [Scope.keep]
      omega
    next => cases hrun
  | _ => cases hcontrol

/-- Behind a template statement the variables are those from right behind its argument. -/
theorem exists_argument (hinvoke : invoke.Keeps fun _ ↦ True) {position : Position} {name : String}
    {argument : Option Pipeline}
    (hrun : (runNode frame invoke dot (.template position name argument)).run state =
      (.ok flow, after)) :
    ∃ data middle, (evalArgument frame dot argument).run state = (.ok data, middle) ∧
      after.scope = middle.scope := by
  have hname := hinvoke name
  rw [runNode] at hrun
  cases hcall : invoke name with
  | error fault =>
    rw [hcall] at hrun
    cases hrun
  | ok run =>
    rw [hcall] at hrun hname
    have hargument : (evalArgument frame dot argument >>= fun data ↦ do
        run data
        return Flow.normal).run state = (.ok flow, after) := by
      cases argument <;> exact hrun
    obtain ⟨data, middle, hmiddle, hrest⟩ := exists_of_run_bind state hargument
    obtain ⟨⟨⟩, reached, hreached, hpure⟩ := exists_of_run_bind middle hrest
    cases hpure
    exact ⟨data, middle, hmiddle, (hname data middle).of_run hreached⟩

/-- Behind the head of a loop, every round starts with the names from there, and with the values of
the round. -/
theorem exists_roundsAlike (hinvoke : invoke.Keeps fun _ ↦ True) {position : Position}
    {head : Pipeline} {body : Body} {otherwise : Option Body}
    (hrun : (runNode frame invoke dot (.branch .loop position head body otherwise)).run state =
      (.ok flow, after)) :
    ∃ value middle pairs, (evalPipeline frame dot head).run state = (.ok value, middle) ∧
      (loopItems frame (.branch .loop position head body otherwise) head.targets.length value).run
        middle = (.ok pairs, middle) ∧
      RoundsAlike frame invoke head body pairs middle := by
  rw [runNode_branch, run_withScope] at hrun
  split at hrun
  next inner reached hreached =>
    obtain ⟨value, middle, hmiddle, hrest⟩ := exists_of_run_bind state hreached
    obtain ⟨pairs, same, hitems, hloop⟩ := exists_of_run_bind middle hrest
    obtain rfl := eq_of_run_loopItems hitems
    obtain ⟨outer, hdeclared, -⟩ := exists_declared_evalPipeline hmiddle
    have hbody (item : Value) := (runBody_tracks frame hinvoke item body).mono
      fun assigning ↦ List.subset_append_right (head.targetsOf assigning) (body.targetsOf assigning)
    have hassigned := List.Subset.trans (head.writes_subset_targetsOf true)
      (List.subset_append_left _ (body.targetsOf true))
    have hstart (round : Round) (hround : round ∈ rounds frame invoke head body pairs same) :=
      start_of_mem_rounds hbody hdeclared hassigned hround
    refine ⟨value, same, pairs, hmiddle, hitems, map_rounds_prefix pairs same, ?_,
      fun round hround ↦ (hstart round hround).1, fun round hround ↦ (hstart round hround).2⟩
    split at hloop
    next hempty =>
      rw [List.isEmpty_iff.mp hempty]
      exact .inl rfl
    next =>
      obtain ⟨⟨⟩, behind, hrounds, -⟩ := exists_of_run_bind same hloop
      exact map_rounds_eq hrounds
  next => cases hrun

end Stack

/-- The stack of variables is kept in order, whatever statements are run, whenever they end well.
Statements in a row put no variables on it but those that they declare. Behind a control structure
the names are those from before it, and behind a template statement those from right behind its
argument. Every round of a loop starts with the names from right behind the head of the loop, where
the one or two variables that the loop declares have the values of the round. A slot from before
has the value that the last assignment to it has left there; so it has changed its value only if
there is an assignment to the variable of its name in the statement, and is what that name meant
when the assignment was made. -/
theorem variables_disciplined (program : Program) (depth : Nat) (frame : Frame) (dot : Value) :
    (∀ {nodes : List Node} {state after : State} {flow : Flow},
      (runNodes frame (invoker program depth) dot nodes).run state = (.ok flow, after) →
      Settles (Node.allTargetsOf · nodes) state.scope.length state after
        (nodesRecord frame (invoker program depth) dot nodes state)) ∧
    (∀ {node : Node} {state after : State} {flow : Flow},
      (runNode frame (invoker program depth) dot node).run state = (.ok flow, after) →
      Settles (node.targetsOf ·) state.scope.length state after
        (nodeRecord frame (invoker program depth) dot node state) ∧
      (node.isControl = true → after.scope.names = state.scope.names) ∧
      ∀ slot < state.scope.length, after.scope.valueAt? slot ≠ state.scope.valueAt? slot →
        ∃ assignment ∈ nodeRecord frame (invoker program depth) dot node state,
          assignment.target ∈ node.targetsOf true ∧ assignment.slot? = some slot ∧
            state.scope.nameAt? slot = assignment.target.name?) ∧
    (∀ {position : Position} {name : String} {argument : Option Pipeline} {state after : State}
      {flow : Flow},
      (runNode frame (invoker program depth) dot (.template position name argument)).run state =
        (.ok flow, after) →
      ∃ data middle, (evalArgument frame dot argument).run state = (.ok data, middle) ∧
        after.scope = middle.scope) ∧
    ∀ {position : Position} {head : Pipeline} {body : Body} {otherwise : Option Body}
      {state after : State} {flow : Flow},
      (runNode frame (invoker program depth) dot (.branch .loop position head body otherwise)).run
        state = (.ok flow, after) →
      ∃ value middle pairs, (evalPipeline frame dot head).run state = (.ok value, middle) ∧
        (loopItems frame (.branch .loop position head body otherwise) head.targets.length value).run
          middle = (.ok pairs, middle) ∧
        RoundsAlike frame (invoker program depth) head body pairs middle := by
  have hinvoke := invoker_keeps_scope program depth
  refine ⟨fun {nodes state after flow} hrun ↦ runNodes_tracks frame hinvoke dot nodes hrun,
    fun {node state after flow} hrun ↦ ?_, exists_argument hinvoke, exists_roundsAlike hinvoke⟩
  have hsettles := runNode_tracks frame hinvoke dot node hrun
  exact ⟨hsettles, fun hcontrol ↦ names_runNode_branch hinvoke hcontrol hrun,
    fun slot hslot hchanged ↦ hsettles.exists_assignment hslot hchanged⟩

/-- A pipeline that declares a variable, or assigns it, with the dot for its value. -/
def bindingDot (isAssign : Bool) : Pipeline :=
  ⟨{}, isAssign, [⟨{}, ["$x"]⟩], [⟨{}, [.dot {}]⟩]⟩

/-- A program of one template without anything in it. -/
def blankProgram : Program := ⟨⟨[⟨"card", "card", ⟨{}, []⟩⟩]⟩, {}, .default⟩

/-- A frame of the program. -/
def blankFrame : Frame := blankProgram.frame ⟨"card", "card", ⟨{}, []⟩⟩

/-- A loop over the items of the dot that declares a variable and assigns it. -/
def assigningLoop : Node :=
  .branch .loop {} (bindingDot false) ⟨{}, [.action {} (bindingDot true)]⟩ none

/-- An invocation with an argument that declares a variable. -/
def declaringTemplate : Node := .template {} "card" (some (bindingDot false))

/-- A conditional on the dot that assigns a variable from before it. -/
def assigningCondition : Node :=
  .branch .conditional {} ⟨{}, false, [], [⟨{}, [.dot {}]⟩]⟩ ⟨{}, [.action {} (bindingDot true)]⟩
    none

/-- A state with a variable and a sink that takes every text. -/
def boundState (value : Value) : State := ⟨[("$x", value), ("$", .null)], Sink.limited none⟩

/-- A loop over two items that declares a variable and assigns it; a conditional that assigns a
variable from before it, the new value of which is from that assignment; an invocation whose
argument declares a variable; and the last two in a row. -/
theorem variables_disciplined_assigning :
    (∃ value middle pairs,
      (evalPipeline blankFrame (.array [.int 1, .int 2]) (bindingDot false)).run
        (boundState .null) = (.ok value, middle) ∧
      (loopItems blankFrame assigningLoop 1 value).run middle = (.ok pairs, middle) ∧
      RoundsAlike blankFrame (invoker blankProgram 1) (bindingDot false)
        ⟨{}, [.action {} (bindingDot true)]⟩ pairs middle) ∧
    (∃ assignment ∈ nodeRecord blankFrame (invoker blankProgram 1) (.int 1) assigningCondition
        (boundState .null),
      assignment.target ∈ assigningCondition.targetsOf true ∧ assignment.slot? = some 1 ∧
        some "$x" = assignment.target.name?) ∧
    (∃ data middle,
      (evalArgument blankFrame (.int 1) (some (bindingDot false))).run (boundState .null) =
        (.ok data, middle) ∧
      [("$x", .int 1), ("$x", .null), ("$", .null)] = middle.scope) ∧
    Settles (Node.allTargetsOf · [assigningCondition, declaringTemplate]) 2 (boundState .null)
      ⟨("$x", .int 1) :: (boundState (.int 1)).scope, Sink.limited none⟩
      (nodesRecord blankFrame (invoker blankProgram 1) (.int 1)
        [assigningCondition, declaringTemplate] (boundState .null)) := by
  obtain ⟨-, -, -, hloop⟩ :=
    variables_disciplined blankProgram 1 blankFrame (.array [.int 1, .int 2])
  obtain ⟨hrow, hnode, htemplate, -⟩ := variables_disciplined blankProgram 1 blankFrame (.int 1)
  have hcondition : (runNode blankFrame (invoker blankProgram 1) (.int 1) assigningCondition).run
      (boundState .null) = (.ok .normal, boundState (.int 1)) := rfl
  have hinvocation : (runNode blankFrame (invoker blankProgram 1) (.int 1) declaringTemplate).run
      (boundState .null) = (.ok .normal,
        ⟨("$x", .int 1) :: (boundState .null).scope, Sink.limited none⟩) := rfl
  have hboth : (runNodes blankFrame (invoker blankProgram 1) (.int 1)
      [assigningCondition, declaringTemplate]).run (boundState .null) = (.ok .normal,
        ⟨("$x", .int 1) :: (boundState (.int 1)).scope, Sink.limited none⟩) := rfl
  have hchanged : some (Value.int 1) ≠ some Value.null := nofun
  obtain ⟨-, -, hslots⟩ := hnode hcondition
  exact ⟨hloop rfl, hslots 1 (by decide) hchanged, htemplate hinvocation, hrow hboth⟩

/-- A template statement need not leave the names from before it: a variable that its argument
declares is there behind it. -/
theorem not_names_template :
    ¬ ∀ (program : Program) (depth : Nat) (frame : Frame) (dot : Value) (position : Position)
      (name : String) (argument : Option Pipeline) (state after : State) (flow : Flow),
      (runNode frame (invoker program depth) dot (.template position name argument)).run state =
        (.ok flow, after) →
      after.scope.names = state.scope.names := by
  intro hall
  have hnames := hall blankProgram 1 blankFrame .null {} "card" (bindingDot false)
    ⟨Scope.initial .null, Sink.limited none⟩
    ⟨("$x", .null) :: Scope.initial .null, Sink.limited none⟩ .normal rfl
  exact absurd hnames (by decide)

end Stencil.Exec
