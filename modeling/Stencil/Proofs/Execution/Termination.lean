import Mathlib
import Stencil.Proofs.Execution.Adequacy
import Stencil.Proofs.Execution.Panics

/-!
# Every execution ends

Templates may invoke each other and themselves without end, so nothing about the tree of an entry
bounds its execution. What does is the number of invocations inside one another: a step enters an
invocation only if fewer than `maxInvocations` are entered (`nesting_step`), so no more ever are
(`Takes.nesting_le`), and inside the last of them the tree gets smaller with every step but those
into a round of a loop, of which there are as many as items. The execution comes to an end after
some number of steps, and where it would enter one invocation more, it ends with the error that says
so (`execute_terminates`).

It does not always come to a good end or to an error. A loop collects its rounds before the first of
them is run, so one over a number that is too large panics, even if its first round would break it
(`execute_rounds_panics`).
-/

set_option autoImplicit false
set_option relaxedAutoImplicit false

namespace Stencil.Exec

open Syntax

section Nesting

variable {program : Program} {point next last : Point}

/-- What a statement begins with is what is left to do after it, with one invocation at most on top
of it, and then the greatest number of them is not reached. -/
theorem nesting_stepNode {dot : Value} {later : List Task} {node : Node}
    (hstep : stepNode program point dot later node = .goes next) :
    next.nesting = nestingOf later ∨
      next.nesting = nestingOf later + 1 ∧ point.nesting < maxInvocations := by
  cases node with
  | text | comment | breakLoop | continueLoop =>
    cases hstep
    exact .inl rfl
  | action _ inner =>
    obtain ⟨value, after, -, rfl⟩ := Step.exists_of_evaluate hstep
    left
    change nestingOf (if inner.targets.isEmpty then .write value.output :: later else later) = _
    split
    · rfl
    · rfl
  | branch kind position head body otherwise =>
    obtain ⟨part, after, hrun, rfl⟩ := Step.exists_of_evaluate hstep
    left
    obtain ⟨_, rfl⟩ | rfl | ⟨_, rfl⟩ := selectPart_cases _ dot hrun
    · rfl
    · rfl
    · rfl
  | template position name argument =>
    simp only [stepNode] at hstep
    split at hstep
    next => cases hstep
    next callee _ =>
      by_cases hdepth : maxInvocations ≤ point.nesting
      · rw [if_pos hdepth] at hstep
        cases hstep
      · rw [if_neg hdepth] at hstep
        obtain ⟨data, after, -, rfl⟩ := Step.exists_of_evaluate hstep
        refine .inr ⟨?_, Nat.lt_of_not_le hdepth⟩
        exact nestingOf_cons (.resume point.tree after.scope) later
  | _ => cases hstep

/-- A step enters at most one invocation, and only if the greatest number of them is not reached. -/
theorem nesting_step (hstep : step program point = .goes next) :
    next.nesting ≤ point.nesting ∨
      next.nesting = point.nesting + 1 ∧ point.nesting < maxInvocations := by
  obtain ⟨tree, flow, tasks, state⟩ := point
  match tasks with
  | [] => cases hstep
  | .write text :: later =>
    simp only [step] at hstep
    split at hstep
    next =>
      cases hstep
      exact .inl (Nat.le_refl _)
    next => cases hstep
  | .statements _ [] :: later =>
    cases hstep
    exact .inl (Nat.le_refl _)
  | .statements dot (node :: rest) :: later =>
    cases flow with
    | normal =>
      obtain hsame | hdeeper := nesting_stepNode hstep
      · exact .inl (Nat.le_of_eq hsame)
      · exact .inr hdeeper
    | breaking | continuing =>
      cases hstep
      exact .inl (Nat.le_refl _)
  | .close _ :: later =>
    cases hstep
    exact .inl (Nat.le_refl _)
  | .rounds head body [] :: later =>
    left
    cases flow <;>
      · cases hstep
        exact Nat.le_refl _
  | .rounds head body ((index, item) :: rest) :: later =>
    left
    cases flow with
    | breaking =>
      cases hstep
      exact Nat.le_refl _
    | normal | continuing =>
      obtain ⟨_, after, -, rfl⟩ := Step.exists_of_evaluate hstep
      exact Nat.le_refl _
  | .resume .. :: later =>
    cases hstep
    left
    rw [Point.nesting, Point.nesting, nestingOf_cons]
    exact Nat.le_add_right _ _

/-- At no point of an execution are more invocations entered than the greatest number. -/
theorem Reaches.nesting_le (hreaches : Reaches program point last)
    (hpoint : point.nesting ≤ maxInvocations) : last.nesting ≤ maxInvocations := by
  have hpreserved (point next : Point) (hstep : step program point = .goes next)
      (hle : point.nesting ≤ maxInvocations) : next.nesting ≤ maxInvocations := by
    obtain hsame | ⟨hdeeper, hroom⟩ := nesting_step hstep
    · exact Nat.le_trans hsame hle
    · omega
  exact hreaches.induct hpreserved hpoint

/-- Where the greatest number of invocations is reached, the next one ends the execution: it is one
too many, unless there is no template of the name. -/
theorem step_at_maxInvocations (program : Program) {dot : Value} {position : Position}
    {name : String} {argument : Option Pipeline} {rest : List Node} {later : List Task}
    (hflow : point.flow = .normal)
    (htasks : point.tasks = .statements dot (.template position name argument :: rest) :: later)
    (hdepth : point.nesting = maxInvocations) :
    step program point =
      .ends (some (faultAt (program.frame point.tree) (.template position name argument)
        (if (program.trees.find? name).isSome then .tooManyInvocations
          else .undefinedTemplate name))) := by
  obtain ⟨tree, flow, tasks, state⟩ := point
  obtain rfl : flow = .normal := hflow
  obtain rfl : tasks = _ := htasks
  simp only [step, stepNode]
  cases program.trees.find? name with
  | none => rfl
  | some callee => exact if_pos (Nat.le_of_eq hdepth.symm)

end Nesting

/-! ### Executions -/

/-- Every execution of a template of a set ends after some number of steps, however its templates
invoke each other: with success or an error, or, if every variable of the set has a name, with the
panic of a loop that has more rounds than can be held, and with no other. At none of its points are
more invocations inside one another than the greatest number; and if at one with that many the next
statement is an invocation, the execution ends there, with the error that it is one too many unless
no template has the name. -/
theorem execute_terminates {program : Program} {name : String} {tree : Tree}
    (hfind : program.trees.find? name = some tree) (set : String) (limit : Option Nat)
    (data : Value) :
    ∃ (count : Nat) (last : Point) (error : Option ExecError),
      Takes program count (start tree data limit) last ∧ step program last = .ends error ∧
        execute program set name limit data = ⟨last.state.sink.output, error⟩ ∧
        ((∀ other ∈ program.trees.trees, other.root.IsNamed) →
          ∀ failure, error = some (.eval failure) → failure.fault.isPanic = true →
            ∃ rounds, maxRounds < rounds ∧ failure.fault = .tooManyRounds rounds) ∧
        ∀ (made : Nat) (point : Point), Takes program made (start tree data limit) point →
          made ≤ count ∧ point.nesting ≤ maxInvocations ∧
            ∀ (dot : Value) (position : Position) (other : String) (argument : Option Pipeline)
              (rest : List Node) (later : List Task), point.flow = .normal →
              point.tasks = .statements dot (.template position other argument :: rest) :: later →
              point.nesting = maxInvocations →
              point = last ∧ error = some (faultAt (program.frame point.tree)
                (.template position other argument)
                (if (program.trees.find? other).isSome then .tooManyInvocations
                  else .undefinedTemplate other)) := by
  obtain ⟨count, last, error, htakes, hends, hrun⟩ := execute_eq_ends hfind set limit data
  refine ⟨count, last, error, htakes, hends, hrun, fun hnamed failure hfailure ↦ ?_,
    fun made point hpoint ↦ ?_⟩
  · have herror : (execute program set name limit data).error = some (.eval failure) := by
      rw [hrun]
      exact hfailure
    exact execute_calm hnamed herror
  obtain ⟨hmade, -⟩ := htakes.rest hends hpoint
  have hreaches : Reaches program (start tree data limit) point := ⟨made, hpoint⟩
  refine ⟨hmade, hreaches.nesting_le (Nat.zero_le _), ?_⟩
  intro dot position other argument rest later hflow htasks hdepth
  have hover := step_at_maxInvocations program hflow htasks hdepth
  obtain ⟨-, hlast, herror⟩ := hpoint.end_unique hover htakes hends
  exact ⟨hlast, herror.symm⟩

/-! ### A template that invokes itself -/

namespace Countdown

/-- The pipeline that is the dot. -/
def dotAt (offset : Nat) : Pipeline :=
  ⟨⟨offset, 1⟩, false, [], [⟨⟨offset, 1⟩, [.dot ⟨offset, 1⟩]⟩]⟩

/-- `slice . 1`: the items without the first. -/
def fewer : Pipeline :=
  ⟨⟨32, 1⟩, false, [], [⟨⟨32, 1⟩, [.identifier ⟨32, 1⟩ "slice", .dot ⟨38, 1⟩,
    .number ⟨⟨40, 1⟩, "1", some 1, some 1, some ⟨0x3ff0000000000000⟩⟩]⟩]⟩

/-- The statement `[template "a" slice . 1]`. -/
def descend : Node := .template ⟨28, 1⟩ "a" (some fewer)

/-- The statement `[template "a" nil]`, the argument of which is no command. -/
def fallOff : Node :=
  .template ⟨58, 1⟩ "a" (some ⟨⟨62, 1⟩, false, [], [⟨⟨62, 1⟩, [.nil ⟨62, 1⟩]⟩]⟩)

/-- `[if .][template "a" slice . 1][else][template "a" nil][end]`: a template that invokes itself on
fewer and fewer items, and when there are none, on something that has no value. -/
def down : Tree :=
  ⟨"a", "t", ⟨12, 1⟩, [.branch .conditional ⟨16, 1⟩ (dotAt 16) ⟨⟨18, 1⟩, [descend]⟩
    (some ⟨⟨48, 1⟩, [fallOff]⟩)]⟩

/-- `[template "a" .]`. -/
def main : Tree := ⟨"t", "t", ⟨0, 1⟩, [.template ⟨86, 1⟩ "a" (some (dotAt 90))]⟩

def program : Program := ⟨⟨[down, main]⟩, {}, .default⟩

/-- The start of the template on some items, with tasks left to do after it. -/
def level (items : List Value) (later : List Task) (sink : Sink) : Point :=
  ⟨down, .normal, .statements (.array items) down.root.nodes :: later,
    Scope.initial (.array items), sink⟩

/-- Where the template has no items left. -/
def bottom (later : List Task) (sink : Sink) : Point :=
  ⟨down, .normal, .statements (.array []) [fallOff] :: .close 1 :: .statements (.array []) [] ::
    later, Scope.initial (.array []), sink⟩

/-- The template with an item left is at its own invocation after one step. -/
def above (item : Value) (items : List Value) (later : List Task) (sink : Sink) : Point :=
  ⟨down, .normal, .statements (.array (item :: items)) [descend] :: .close 1 ::
    .statements (.array (item :: items)) [] :: later, Scope.initial (.array (item :: items)), sink⟩

theorem step_level_cons (item : Value) (items : List Value) (later : List Task) (sink : Sink) :
    step program (level (item :: items) later sink) = .goes (above item items later sink) := rfl

theorem step_level_nil (later : List Task) (sink : Sink) :
    step program (level [] later sink) = .goes (bottom later sink) := rfl

/-- The tasks that the invocation of the template on fewer items leaves to do. -/
def behind (item : Value) (items : List Value) (later : List Task) : List Task :=
  .resume down (Scope.initial (.array (item :: items))) ::
    .statements (.array (item :: items)) [] :: .close 1 ::
    .statements (.array (item :: items)) [] :: later

theorem nestingOf_behind (item : Value) (items : List Value) (later : List Task) :
    nestingOf (behind item items later) = nestingOf later + 1 := by
  simp [behind, Task.isResume]

theorem slice_cons (item : Value) (items : List Value) :
    Builtin.slice.call [.array (item :: items), .int 1] = .ok (.array items) := by
  have hsigned : (Value.int 1).signed? = some 1 := by decide
  have hlow : (Value.int 1).index (items.length + 1 + 1) = .ok 1 := by
    rw [Value.index, hsigned]
    simp
  have hbounds : Value.bounds (items.length + 1) [.int 1] = .ok (1, items.length + 1) := by
    simp [Value.bounds, Value.bound, hlow, bind, Except.bind, pure, Except.pure]
  change Value.slice (.array (item :: items)) [.int 1] = _
  rw [Value.slice, List.length_cons, hbounds]
  change Except.ok (Value.array ((List.take (items.length + 1) (item :: items)).drop 1)) = _
  rw [List.take_succ_cons, List.take_length]
  rfl

theorem run_fewer (item : Value) (items : List Value) (state : State) :
    (evalArgument (program.frame down) (.array (item :: items)) (some fewer)).run state =
      (.ok (.array items), state) := by
  have hcall : callFunction (program.frame down) (.identifier ⟨32, 1⟩ "slice") "slice"
      Builtin.slice.call [.array (item :: items), .int 1] = return (.array items) := by
    rw [callFunction, slice_cons]
  change ((callFunction (program.frame down) (.identifier ⟨32, 1⟩ "slice") "slice"
    Builtin.slice.call [.array (item :: items), .int 1]) >>= fun value ↦
      (return value : Exec Value)).run state = _
  rw [hcall]
  rfl

theorem step_above (item : Value) (items : List Value) (later : List Task) (sink : Sink)
    (hroom : nestingOf later < maxInvocations) :
    step program (above item items later sink) =
      .goes (level items (behind item items later) sink) := by
  refine (if_neg (Nat.not_le_of_lt hroom)).trans ?_
  exact Step.evaluate_ok (run_fewer item items _)

/-- From some items the template comes down to none, inside as many further invocations as there
are items, and deeper than that only from there on. -/
theorem descends (items : List Value) (later : List Task) (sink : Sink)
    (hroom : nestingOf later + items.length ≤ maxInvocations) :
    ∃ deeper, nestingOf deeper = nestingOf later + items.length ∧
      Reaches program (level items later sink) (bottom deeper sink) ∧
        ∀ point, Reaches program (level items later sink) point →
          point.nesting ≤ nestingOf later + items.length ∨
            Reaches program (bottom deeper sink) point := by
  induction items generalizing later with
  | nil =>
    refine ⟨later, rfl, .head (step_level_nil later sink) (.refl _), fun point hpoint ↦ ?_⟩
    obtain rfl | hbottom := hpoint.eq_or_of_step (step_level_nil later sink)
    · exact .inl (Nat.le_refl _)
    · exact .inr hbottom
  | cons item items ih =>
    rw [List.length_cons] at hroom ⊢
    have hlevel := step_level_cons item items later sink
    have habove := step_above item items later sink (by omega)
    have hbehind := nestingOf_behind item items later
    obtain ⟨deeper, hdeeper, hreaches, hpoints⟩ := ih (behind item items later) (by omega)
    refine ⟨deeper, by omega, .head hlevel (.head habove hreaches), fun point hpoint ↦ ?_⟩
    obtain rfl | hpoint := hpoint.eq_or_of_step hlevel
    · exact .inl (Nat.le_add_right (nestingOf later) _)
    obtain rfl | hpoint := hpoint.eq_or_of_step habove
    · exact .inl (Nat.le_add_right (nestingOf later) _)
    obtain hle | hbottom := hpoints point hpoint
    · exact .inl (by omega)
    · exact .inr hbottom

/-- The main template starts with the invocation of the other one on its items. -/
theorem step_main (items : List Value) :
    step program (start main (.array items) none) =
      .goes (level items
        [.resume main (Scope.initial (.array items)), .statements (.array items) []] {}) := rfl

/-- From the main template the other one comes down to no items inside one invocation more than
there are items. -/
theorem reaches_bottom (items : List Value) (hroom : items.length < maxInvocations) :
    ∃ deeper, nestingOf deeper = items.length + 1 ∧
      Reaches program (start main (.array items) none) (bottom deeper {}) := by
  have hroom : 1 + items.length ≤ maxInvocations := by omega
  obtain ⟨deeper, hdeeper, hreaches, -⟩ := descends items
    [.resume main (Scope.initial (.array items)), .statements (.array items) []] {} hroom
  exact ⟨deeper, hdeeper.trans (Nat.add_comm _ _), .head (step_main items) hreaches⟩

end Countdown

/-! ### A loop that panics -/

/-- A source with a loop that breaks in its first round. -/
def roundsSource : String := "[range .][break][end]"

/-- The tree of the source. -/
def roundsTree : Tree :=
  ⟨"t", "t", ⟨⟨0, 1⟩, [.branch .loop ⟨7, 1⟩ ⟨⟨7, 1⟩, false, [], [⟨⟨7, 1⟩, [.dot ⟨7, 1⟩]⟩]⟩
    ⟨⟨9, 1⟩, [.breakLoop ⟨10, 1⟩]⟩ none]⟩⟩

/-- The template that the source gives, without functions of its own. -/
def roundsProgram : Program := ⟨⟨[roundsTree]⟩, {}, .default⟩

theorem parse_roundsSource :
    parse "t" Delimiters.brackets (FunctionTable.has {}) roundsSource = .ok ⟨[roundsTree]⟩ := by
  cbv

theorem isPanic_roundsTree :
    (execute roundsProgram "t" "t" none (.int 9223372036854775807)).error.map ExecError.isPanic =
      some true := by
  cbv

/-! ### At the limits -/

/-- On 999 items the main template and the one that invokes itself come down to no items inside 1000
invocations, so the next one is one too many, whatever its argument is. A loop over the greatest
signed word has too many rounds, whatever its body is. -/
theorem execute_terminates_at_limits :
    execute Countdown.program "t" "t" none (.array (List.replicate 999 .null)) =
      ⟨"", some (faultAt (Countdown.program.frame Countdown.down) Countdown.fallOff
        .tooManyInvocations)⟩ ∧
    ∃ failure rounds,
      (execute roundsProgram "t" "t" none (.int 9223372036854775807)).error =
        some (.eval failure) ∧
      maxRounds < rounds ∧ failure.fault = .tooManyRounds rounds := by
  constructor
  · have hlength : (List.replicate 999 Value.null).length = 999 := List.length_replicate
    generalize List.replicate 999 Value.null = items at hlength ⊢
    obtain ⟨count, last, error, -, -, hrun, -, hpoints⟩ :=
      execute_terminates (rfl : Countdown.program.trees.find? "t" = some Countdown.main) "t" none
        (.array items)
    obtain ⟨deeper, hdeeper, made, hbottom⟩ :=
      Countdown.reaches_bottom items (hlength ▸ (by decide))
    obtain ⟨-, -, hover⟩ := hpoints made _ hbottom
    rw [hlength] at hdeeper
    obtain ⟨rfl, rfl⟩ := hover _ _ _ _ _ _ rfl rfl hdeeper
    exact hrun
  · obtain ⟨error, herror, hpanic⟩ := Option.map_eq_some_iff.mp isPanic_roundsTree
    cases error with
    | noTemplate | sinkFull => cases hpanic
    | eval failure =>
      obtain ⟨_, _, error, -, -, hrun, hpanics, -⟩ :=
        execute_terminates (rfl : roundsProgram.trees.find? "t" = some roundsTree) "t" none
          (.int 9223372036854775807)
      rw [hrun] at herror
      obtain ⟨rounds, hmany, hfault⟩ := hpanics
        (fun _ htree ↦ isNamed_of_parse parse_roundsSource htree) failure herror hpanic
      refine ⟨failure, rounds, ?_, hmany, hfault⟩
      rw [hrun]
      exact herror

/-- A break in the first of too many rounds does not keep a loop from panicking: the execution of
what the parser gives for the source ends neither with success nor with an error that is told. -/
theorem execute_rounds_panics :
    parse "t" Delimiters.brackets (FunctionTable.has {}) roundsSource = .ok roundsProgram.trees ∧
      (execute roundsProgram "t" "t" none (.int 9223372036854775807)).error.map ExecError.isPanic =
        some true :=
  ⟨parse_roundsSource, isPanic_roundsTree⟩

end Stencil.Exec
