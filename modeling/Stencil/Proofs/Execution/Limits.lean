import Stencil.Proofs.Execution.Adequacy

/-!
# A sink with a limit

An execution into a sink with a limit is the one without, up to the first write that goes beyond the
limit. Until then both take the same steps (`Takes.bounded`), since only a write looks at the sink;
at that write the one with the limit ends, and what it has written are the writes before it
(`Takes.exists_refusal`).
-/

set_option autoImplicit false
set_option relaxedAutoImplicit false

namespace Stencil.Exec

open Syntax

/-! ### Writes -/

/-- The number of bytes in texts. -/
def byteCount : List String → Nat
  | [] => 0
  | text :: rest => text.utf8ByteSize + byteCount rest

@[simp]
theorem byteCount_nil : byteCount [] = 0 := rfl

@[simp]
theorem byteCount_cons (text : String) (texts : List String) :
    byteCount (text :: texts) = text.utf8ByteSize + byteCount texts := rfl

@[simp]
theorem byteCount_append (texts others : List String) :
    byteCount (texts ++ others) = byteCount texts + byteCount others := by
  induction texts with
  | nil => simp
  | cons text texts ih => simp [ih, Nat.add_assoc]

@[simp]
theorem byteCount_reverse (texts : List String) : byteCount texts.reverse = byteCount texts := by
  induction texts with
  | nil => rfl
  | cons text texts ih => simp [ih, Nat.add_comm]

/-- The least number of texts that go beyond a limit, where the texts before one fit and those with
it do not. -/
theorem eq_length_of_least {before after : List String} {text : String} {limit k : Nat}
    (hfits : byteCount before ≤ limit) (hbeyond : limit < byteCount (before ++ [text]))
    (hk : limit < byteCount ((before ++ text :: after).take k))
    (hleast : ∀ fewer < k, byteCount ((before ++ text :: after).take fewer) ≤ limit) :
    k = before.length + 1 := by
  have hlong : ¬ k ≤ before.length := by
    intro hshort
    rw [List.take_append_of_le_length hshort] at hk
    have hsum := congrArg byteCount (List.take_append_drop k before)
    rw [byteCount_append] at hsum
    omega
  have hshort : ¬ before.length + 1 < k := by
    intro hlonger
    have hnext := hleast (before.length + 1) hlonger
    rw [List.take_length_add_append, List.take_succ_cons, List.take_zero] at hnext
    omega
  omega

/-- A part of some texts has no more bytes. -/
theorem byteCount_le_of_suffix {texts others : List String} (hsuffix : texts <:+ others) :
    byteCount texts ≤ byteCount others := by
  obtain ⟨before, rfl⟩ := hsuffix
  rw [byteCount_append]
  exact Nat.le_add_left _ _

namespace Sink

/-- The sink with room for so many bytes in all. -/
def bounded (limit : Nat) (sink : Sink) : Sink :=
  { sink with room := some (limit - byteCount sink.writes) }

/-- What a sink with a limit does with a write that one without accepts. -/
theorem write_bounded {sink after : Sink} {text : String} {limit : Nat} (hroom : sink.room = none)
    (hfits : byteCount sink.writes ≤ limit) (hwrite : sink.write text = some after) :
    (sink.bounded limit).write text =
      if byteCount after.writes ≤ limit then some (after.bounded limit) else none := by
  rw [write_of_room hroom] at hwrite
  cases hwrite
  by_cases hempty : text = ""
  · rw [write, if_pos hempty, if_pos hempty]
    exact (if_pos hfits).symm
  · rw [write, if_neg hempty, if_neg hempty]
    have hfits_iff : text.utf8ByteSize ≤ limit - byteCount sink.writes ↔
        byteCount (text :: sink.writes) ≤ limit := by
      rw [byteCount_cons]
      omega
    have hrest : limit - byteCount sink.writes - text.utf8ByteSize =
        limit - byteCount (text :: sink.writes) := by
      rw [byteCount_cons]
      omega
    simp only [bounded, List.singleton_append, hfits_iff, hrest]

end Sink

/-! ### Steps -/

/-- The point with room for so many bytes in all. -/
def Point.bounded (limit : Nat) (point : Point) : Point :=
  point.withSink (point.state.sink.bounded limit)

/-- What has been written, the last text first. -/
def Point.writes (point : Point) : List String := point.state.sink.writes

section Steps

variable {program : Program} {point next last : Point} {limit : Nat}

/-- A write into a sink without a limit adds one text that is not empty, or none. -/
theorem step_write (program : Program) {text : String} {later : List Task}
    (htasks : point.tasks = .write text :: later) (hroom : point.state.sink.room = none) :
    ∃ sink, point.state.sink.write text = some sink ∧ sink.room = none ∧
      sink.writes = (if text = "" then [] else [text]) ++ point.writes ∧
        step program point =
          .goes (point.proceed .normal later { point.state with sink := sink }) := by
  have hwrite := Sink.write_of_room hroom text
  refine ⟨_, hwrite, rfl, rfl, ?_⟩
  rw [step, htasks]
  dsimp only
  rw [hwrite]

/-- A step in a sink without a limit leaves it as it is or adds one text to it. -/
theorem writes_step (hroom : point.state.sink.room = none)
    (hstep : step program point = .goes next) :
    next.state.sink.room = none ∧
      (next.writes = point.writes ∨
        ∃ text later, text ≠ "" ∧ point.tasks = .write text :: later ∧
          next.writes = text :: point.writes) := by
  by_cases hwrite : ∃ text later, point.tasks = .write text :: later
  · obtain ⟨text, later, htasks⟩ := hwrite
    obtain ⟨sink, -, hafter, hwrites, hgoes⟩ := step_write program htasks hroom
    rw [hgoes] at hstep
    cases hstep
    refine ⟨hafter, ?_⟩
    by_cases hempty : text = ""
    · rw [if_pos hempty] at hwrites
      exact .inl hwrites
    · rw [if_neg hempty] at hwrites
      exact .inr ⟨text, later, hempty, htasks, hwrites⟩
  · have hsink := sink_eq_of_step hstep fun text later htasks ↦ hwrite ⟨text, later, htasks⟩
    exact ⟨by rw [hsink, hroom], .inl (congrArg Sink.writes hsink)⟩

/-- With a limit a step is the same, unless its write goes beyond the limit: then the execution
ends. -/
theorem step_bounded (hroom : point.state.sink.room = none) (hfits : byteCount point.writes ≤ limit)
    (hstep : step program point = .goes next) :
    step program (point.bounded limit) =
      if byteCount next.writes ≤ limit then .goes (next.bounded limit)
      else .ends (some .sinkFull) := by
  by_cases hwrite : ∃ text later, point.tasks = .write text :: later
  · obtain ⟨text, later, htasks⟩ := hwrite
    obtain ⟨sink, haccepts, -, -, hgoes⟩ := step_write program htasks hroom
    have hbounded := Sink.write_bounded hroom hfits haccepts
    rw [hgoes] at hstep
    cases hstep
    rw [step, show (point.bounded limit).tasks = point.tasks from rfl, htasks]
    dsimp only
    rw [show (point.bounded limit).state.sink = point.state.sink.bounded limit from rfl, hbounded]
    by_cases hafter : byteCount sink.writes ≤ limit
    · rw [if_pos hafter]
      exact (if_pos hafter).symm
    · rw [if_neg hafter]
      exact (if_neg hafter).symm
  · have hsilent : ∀ text later, point.tasks ≠ .write text :: later :=
      fun text later htasks ↦ hwrite ⟨text, later, htasks⟩
    have hsink := sink_eq_of_step hstep hsilent
    rw [Point.bounded, step_withSink _ hsilent, hstep, Point.bounded, Point.writes, hsink]
    exact (if_pos hfits).symm

/-- With a limit an execution ends where it ends without, if it has not gone beyond the limit. -/
theorem step_bounded_ends {error : Option ExecError} (hroom : point.state.sink.room = none)
    (hends : step program point = .ends error) :
    step program (point.bounded limit) = .ends error := by
  rw [Point.bounded, step_withSink, hends]
  · rfl
  · intro text later htasks
    obtain ⟨sink, -, -, -, hgoes⟩ := step_write program htasks hroom
    rw [hgoes] at hends
    cases hends

/-! ### Runs -/

/-- Without a limit a sink takes back nothing, and stays without one. -/
theorem Takes.writes_suffix {count : Nat} (htakes : Takes program count point last)
    (hroom : point.state.sink.room = none) :
    last.state.sink.room = none ∧ point.writes <:+ last.writes := by
  induction htakes with
  | stay => exact ⟨hroom, List.suffix_rfl⟩
  | move hstep _ ih =>
    obtain ⟨hroom, hsame | ⟨text, later, -, -, hwrites⟩⟩ := writes_step hroom hstep
    · rw [← hsame]
      exact ih hroom
    · obtain ⟨hlast, hsuffix⟩ := ih hroom
      refine ⟨hlast, List.IsSuffix.trans ?_ hsuffix⟩
      rw [hwrites]
      exact List.suffix_cons text _

/-- Texts that have been written are not empty. -/
theorem Takes.writes_ne_empty {count : Nat} (htakes : Takes program count point last)
    (hroom : point.state.sink.room = none) (hpoint : ∀ text ∈ point.writes, text ≠ "") :
    ∀ text ∈ last.writes, text ≠ "" := by
  induction htakes with
  | stay => exact hpoint
  | move hstep _ ih =>
    obtain ⟨hroom, hsame | ⟨text, later, hnonempty, -, hwrites⟩⟩ := writes_step hroom hstep
    · exact ih hroom (hsame ▸ hpoint)
    · refine ih hroom ?_
      rw [hwrites]
      exact List.forall_mem_cons.mpr ⟨hnonempty, hpoint⟩

/-- As long as all writes fit, an execution with a limit takes the same steps. -/
theorem Takes.bounded {count : Nat} (htakes : Takes program count point last)
    (hroom : point.state.sink.room = none) (hfits : byteCount last.writes ≤ limit) :
    Takes program count (point.bounded limit) (last.bounded limit) := by
  induction htakes with
  | stay => exact .stay _
  | move hstep hrest ih =>
    obtain ⟨hnext, hsuffix⟩ := (Takes.move hstep (.stay _)).writes_suffix hroom
    have hfitsNext := Nat.le_trans (byteCount_le_of_suffix (hrest.writes_suffix hnext).2) hfits
    have hfitsPoint := Nat.le_trans (byteCount_le_of_suffix hsuffix) hfitsNext
    have hbounded := step_bounded hroom hfitsPoint hstep
    rw [if_pos hfitsNext] at hbounded
    exact .move hbounded (ih hnext hfits)

/-- An execution that goes beyond a limit does so at one of its writes. There the one with the limit
ends. -/
theorem Takes.exists_refusal {count : Nat} (htakes : Takes program count point last)
    (hroom : point.state.sink.room = none) (hfits : byteCount point.writes ≤ limit)
    (hbeyond : limit < byteCount last.writes) :
    ∃ (made : Nat) (stop : Point) (text : String) (later : List Task) (rest : List String),
      made < count ∧ Takes program made point stop ∧ stop.tasks = .write text :: later ∧
        byteCount stop.writes ≤ limit ∧ limit < byteCount (text :: stop.writes) ∧
          last.writes = rest ++ text :: stop.writes ∧
            step program (stop.bounded limit) = .ends (some .sinkFull) := by
  induction htakes with
  | stay => omega
  | @move count point next last hstep hrest ih =>
    obtain ⟨hnext, hwrites⟩ := writes_step hroom hstep
    by_cases hfitsNext : byteCount next.writes ≤ limit
    · obtain ⟨made, stop, text, later, rest, hmade, hstop, hrefusal⟩ := ih hnext hfitsNext hbeyond
      exact ⟨made + 1, stop, text, later, rest, by omega, .move hstep hstop, hrefusal⟩
    · obtain hsame | ⟨text, later, -, htasks, hwrites⟩ := hwrites
      · exact absurd (hsame ▸ hfits) hfitsNext
      · have hbounded := step_bounded hroom hfits hstep
        rw [if_neg hfitsNext] at hbounded
        obtain ⟨rest, hlast⟩ := (hrest.writes_suffix hnext).2
        rw [hwrites] at hlast hfitsNext
        exact ⟨0, point, text, later, rest, by omega, .stay _, htasks, hfits, by omega, hlast.symm,
          hbounded⟩

end Steps

/-! ### Executions -/

/-- A refusing sink cuts the output before a write and changes nothing else. If all that an
execution writes without a limit fits into the limit, it is the same with it. Otherwise, with the
first write that goes beyond the limit, the execution with the limit has taken the same steps, and
it ends there: it has written what comes before, and takes no further step. -/
theorem execute_limited (program : Program) (set name : String) (limit : Nat) (data : Value) :
    match program.trees.find? name with
    | none => execute program set name (some limit) data = execute program set name none data
    | some tree =>
      ∃ (count : Nat) (last : Point) (error : Option ExecError) (writes : List String),
        Takes program count (start tree data none) last ∧ step program last = .ends error ∧
          last.writes = writes.reverse ∧ (∀ text ∈ writes, text ≠ "") ∧
          execute program set name none data = ⟨String.join writes, error⟩ ∧
          ((∀ k, byteCount (writes.take k) ≤ limit) →
            execute program set name (some limit) data = execute program set name none data) ∧
          ∀ k, limit < byteCount (writes.take k) →
            (∀ fewer < k, byteCount (writes.take fewer) ≤ limit) →
            execute program set name (some limit) data =
                ⟨String.join (writes.take (k - 1)), some .sinkFull⟩ ∧
              ∃ (made : Nat) (stop : Point) (text : String) (later : List Task),
                made < count ∧ Takes program made (start tree data none) stop ∧
                  stop.tasks = .write text :: later ∧ writes[k - 1]? = some text ∧
                  Takes program made (start tree data (some limit)) (stop.bounded limit) ∧
                  step program (stop.bounded limit) = .ends (some .sinkFull) := by
  cases hfind : program.trees.find? name with
  | none =>
    dsimp only
    rw [execute, execute, hfind]
  | some tree =>
    dsimp only
    obtain ⟨count, last, error, htakes, hends, hrun⟩ := execute_eq_ends hfind set none data
    have hroom : (start tree data none).state.sink.room = none := rfl
    refine ⟨count, last, error, last.writes.reverse, htakes, hends,
      (List.reverse_reverse _).symm, ?_, hrun, ?_, ?_⟩
    · intro text htext
      exact htakes.writes_ne_empty hroom (List.forall_mem_nil _) text (List.mem_reverse.mp htext)
    · intro hfits
      have hall := hfits last.writes.reverse.length
      rw [List.take_length, byteCount_reverse] at hall
      have hbounded : Takes program count (start tree data (some limit)) (last.bounded limit) :=
        htakes.bounded hroom hall
      have hroomLast := (htakes.writes_suffix hroom).1
      have hsame := execute_eq_of_takes hfind set hbounded (step_bounded_ends hroomLast hends)
      rw [hrun]
      exact hsame
    · intro k hk hleast
      have hbeyond : limit < byteCount last.writes := by
        have hsum := congrArg byteCount (List.take_append_drop k last.writes.reverse)
        rw [byteCount_append, byteCount_reverse] at hsum
        omega
      obtain ⟨made, stop, text, later, rest, hmade, hstop, htasks, hfits, hover, hlast, hrefused⟩ :=
        htakes.exists_refusal hroom (Nat.zero_le limit) hbeyond
      have hsplit : last.writes.reverse = stop.writes.reverse ++ text :: rest.reverse := by
        rw [hlast]
        simp
      have hbounded : Takes program made (start tree data (some limit)) (stop.bounded limit) :=
        hstop.bounded hroom hfits
      have hcut := execute_eq_of_takes hfind set hbounded hrefused
      rw [hsplit] at hk hleast ⊢
      have hlength := eq_length_of_least (by rwa [byteCount_reverse])
        (by rwa [← List.reverse_cons, byteCount_reverse]) hk hleast
      rw [hlength, Nat.add_sub_cancel, List.take_left]
      refine ⟨hcut, made, stop, text, later, hmade, hstop, htasks, ?_, hbounded, hrefused⟩
      rw [List.getElem?_append_right (Nat.le_refl _), Nat.sub_self]
      rfl

end Stencil.Exec
