import Stencil.Proofs.Grammar.Offsets
import Stencil.Proofs.Unfolding.States

/-!
# Pipelines in step

Inside an action both sources have the same items. So a pipeline is read of both in step, and what
is read is the same up to positions. `Paired` lists the calls that are made in step, each with what
it asks of the two states and what it says of the two results.
-/

set_option autoImplicit false
set_option relaxedAutoImplicit false

namespace Stencil.Syntax

namespace Parse

/-! ### The calls of both parses -/

/-- That what was found is the same for a view of it, and what is left is in step. -/
structure FoundAlike {α γ : Type} (view : α → γ) (frames : List Pending) (low high : Nat)
    (found found' : α × State) : Prop where
  value : view found.1 = view found'.1
  state : found.2.Coupled frames low high found'.2

/-- The ends of two bodies in step, with the items behind them. The first body of a structure that
goes on in an action of its own ends in front of this action. -/
inductive EndsAlike : List Pending → Ending → List Item → Ending → List Item → Prop
  | finished {word : Keyword} {count : Nat} {frames : List Pending} {items others rest : List Item}
    (hends : StartsWithEnds count others rest) (hrest : Unfolds frames items rest) :
    EndsAlike ((word, count) :: frames) .finished items .finished others
  | otherwise {frames : List Pending} {position position' : Position} {items others : List Item}
    (hrest : Unfolds frames items others) :
    EndsAlike frames (.otherwise position) items (.otherwise position') others
  | unfolded {word : Keyword} {count : Nat} {frames : List Pending} {position position' : Position}
    {first opening : Item} {items others rest : List Item}
    (hword : word = .ifWord ∨ word = .withWord) (hfirst : first.kind = .keyword word)
    (hopening : opening.kind = .leftDelim) (hopens : StartsWith (.keyword word) others rest)
    (hrest : Unfolds ((word, count + 1) :: frames) items rest) :
    EndsAlike ((word, count) :: frames) (.otherwise position) (first :: items)
      (.otherwise position') (opening :: others)

/-- Bodies that are ended are ended together, the second by an end of its own. -/
theorem EndsAlike.of_finished {word : Keyword} {count : Nat} {frames : List Pending}
    {items others : List Item} {ending : Ending}
    (hends : EndsAlike ((word, count) :: frames) .finished items ending others) :
    ending = .finished ∧ ∃ rest, StartsWithEnds count others rest ∧ Unfolds frames items rest := by
  cases hends with
  | finished hends hrest => exact ⟨rfl, _, hends, hrest⟩

/-- Bodies that end with an else do so together, and what follows is in step or is a structure that
the second items open in an action of its own. -/
theorem EndsAlike.of_otherwise {frames : List Pending} {position : Position}
    {items others : List Item} {ending : Ending}
    (hends : EndsAlike frames (.otherwise position) items ending others) :
    (∃ position', ending = .otherwise position') ∧ (Unfolds frames items others ∨
      ∃ word count outer first items' opening others' rest, frames = (word, count) :: outer ∧
        (word = .ifWord ∨ word = .withWord) ∧ items = first :: items' ∧
        first.kind = .keyword word ∧ others = opening :: others' ∧ opening.kind = .leftDelim ∧
        StartsWith (.keyword word) others' rest ∧
        Unfolds ((word, count + 1) :: outer) items' rest) := by
  cases hends with
  | otherwise hrest => exact ⟨⟨_, rfl⟩, .inl hrest⟩
  | unfolded hword hfirst hopening hopens hrest =>
    exact ⟨⟨_, rfl⟩, .inr ⟨_, _, _, _, _, _, _, _, rfl, hword, rfl, hfirst, rfl, hopening, hopens,
      hrest⟩⟩

/-- That two bodies were read in step. -/
structure BodiesAlike {α γ : Type} (view : α → γ) (frames : List Pending) (low high : Nat)
    (found found' : (α × Ending) × State) : Prop where
  value : view found.1.1 = view found'.1.1
  level : found.2.Level low high found'.2
  ends : EndsAlike frames found.1.2 found.2.rest found'.1.2 found'.2.rest

/-- That two statements were read in step: two nodes, or the ends of two bodies. -/
inductive StatementsAlike (frames : List Pending) (low high : Nat) :
    Statement × State → Statement × State → Prop
  | node {node node' : Node} {s t : State} (hvalue : node.unplaced = node'.unplaced)
    (hstate : s.Coupled frames low high t) :
    StatementsAlike frames low high (.node node, s) (.node node', t)
  | ending {ending ending' : Ending} {s t : State} (hlevel : s.Level low high t)
    (hends : EndsAlike frames ending s.rest ending' t.rest) :
    StatementsAlike frames low high (.ending ending, s) (.ending ending', t)

/-- That two control structures were read in step, but for so many ends that are left of the second.
-/
structure ControlsAlike (count : Nat) (frames : List Pending) (low high : Nat)
    (found found' : Node × State) : Prop where
  value : found.1.unplaced = found'.1.unplaced
  level : found.2.Level low high found'.2
  ends : ∃ rest, StartsWithEnds count found'.2.rest rest ∧ Unfolds frames found.2.rest rest

/-- What a declaration says, positions aside. -/
def Declarations.unplaced (declared : Declarations) : Bool × List Variable :=
  (declared.isAssign, declared.targets.map Variable.unplaced)

/-- That a call is made in step, in states that go together, and how its results then do. -/
inductive Paired : {α : Type} → Call α → State → State → (α × State → α × State → Prop) → Prop
  | declarations {frames : List Pending} {low high : Nat} {s t : State} (clause : Clause)
    (more : Nat) (hcoupled : s.Coupled frames low high t) :
    Paired (.declarations clause more) s t (FoundAlike Declarations.unplaced frames low high)
  | operand {frames : List Pending} {low high : Nat} {s t : State}
    (hcoupled : s.Coupled frames low high t) :
    Paired .operand s t (FoundAlike (Option.map Node.unplaced) frames low high)
  | operands {frames : List Pending} {low high : Nat} {s t : State}
    (hcoupled : s.Coupled frames low high t) :
    Paired .operands s t (FoundAlike (List.map Node.unplaced) frames low high)
  | command {frames : List Pending} {low high : Nat} {s t : State}
    (hcoupled : s.Coupled frames low high t) :
    Paired .command s t (FoundAlike Command.unplaced frames low high)
  | commands {frames : List Pending} {low high : Nat} {s t : State} (clause : Clause)
    {closer : ItemKind} (hcloser : closer ≠ .leftDelim) (hcoupled : s.Coupled frames low high t) :
    Paired (.commands clause closer) s t
      (FoundAlike (List.map Command.unplaced) frames low high)
  | pipeline {frames : List Pending} {low high : Nat} {s t : State} (clause : Clause)
    {closer : ItemKind} (hcloser : closer ≠ .leftDelim) (hcoupled : s.Coupled frames low high t) :
    Paired (.pipeline clause closer) s t (FoundAlike Pipeline.unplaced frames low high)
  | action {frames : List Pending} {low high : Nat} {s t : State} {opening opening' : Item}
    (hlevel : s.Level low high t) (hopening : opening.kind = .leftDelim)
    (hitems : Unfolds frames (opening :: s.rest) (opening' :: t.rest)) :
    Paired .action s t (StatementsAlike frames low high)
  | statement {frames : List Pending} {low high : Nat} {s t : State}
    (hcoupled : s.Coupled frames low high t) :
    Paired .statement s t (StatementsAlike frames low high)
  | statements {frames : List Pending} {low high : Nat} {s t : State}
    (hcoupled : s.Coupled frames low high t) :
    Paired .statements s t (BodiesAlike (List.map Node.unplaced) frames low high)
  | body {frames : List Pending} {low high : Nat} {s t : State}
    (hcoupled : s.Coupled frames low high t) :
    Paired .body s t (BodiesAlike Body.unplaced frames low high)
  | branchBody {frames : List Pending} {low high : Nat} {s t : State} (kind : BranchKind)
    (hcoupled : s.Coupled frames low high t) :
    Paired (.branchBody kind) s t (BodiesAlike Body.unplaced frames low high)
  | nestedBody {word : Keyword} {frames : List Pending} {low high : Nat} {s t : State}
    (clause : Clause) (hcoupled : s.Coupled ((word, 0) :: frames) low high t) :
    Paired (.nestedBody clause) s t (FoundAlike Body.unplaced frames low high)
  | control {kind : BranchKind} {count : Nat} {frames : List Pending} {low high : Nat} {s t : State}
    (hcoupled : s.Coupled ((branchWord kind, count) :: frames) low high t) :
    Paired (.control kind) s t (ControlsAlike count frames low high)
  | blockControl {frames : List Pending} {low high : Nat} {s t : State}
    (hcoupled : s.Coupled ((.blockWord, 0) :: frames) low high t) :
    Paired .blockControl s t (FoundAlike Node.unplaced frames low high)
  | definition {frames : List Pending} {low high : Nat} {s t : State}
    (hcoupled : s.Coupled ((.defineWord, 0) :: frames) low high t) :
    Paired .definition s t (FoundAlike id frames low high)
  | root {frames : List Pending} {low high : Nat} {s t : State}
    (hcoupled : s.Coupled frames low high t) :
    Paired .root s t (FoundAlike (List.map Node.unplaced) frames low high)

/-- That the answers to paired calls go together. -/
def Sustains (setting : Setting)
    (answers : {β : Type} → Call β → State → Option (Except ParseError (β × State))) : Prop :=
  ∀ {β : Type} {c : Call β} {s t : State} {related : β × State → β × State → Prop},
    Paired c s t related → Accords related (answers c s) (c.run setting t)

/-! ### Items -/

section Steps

variable {setting : Setting} {frames : List Pending} {low high : Nat} {s t : State}
  {answers : {β : Type} → Call β → State → Option (Except ParseError (β × State))}

/-- Calls that are paired go together. -/
theorem follow_call (hsustains : Sustains setting answers) {α : Type} {c : Call α}
    {related : α × State → α × State → Prop} (hpaired : Paired c s t related) :
    (Steps.call c s).Follow setting answers related (Steps.call c t) :=
  .call (hsustains hpaired)

/-- The next items are read in step, or none is left of either. -/
theorem follow_item (hanswers : AreAnswers setting answers)
    (hcoupled : s.Coupled frames low high t) :
    (Steps.call .item s).Follow setting answers
      (fun found found' ↦ (found.1 = none ∧ found'.1 = none) ∨ ∃ item after item' after',
        found = (some item, after) ∧ found' = (some item', after') ∧
          ReadsAlike frames low high (item, after) (item', after') ∧ item.kind = headKind s.rest)
      (Steps.call .item t) := by
  refine .of_eval hanswers ?_
  rw [Steps.eval_call, Steps.eval_call]
  exact hcoupled.nextFound

/-- An item that must not be missing is read in step, and is the first after spaces. -/
theorem follow_head (hanswers : AreAnswers setting answers)
    (hcoupled : s.Coupled frames low high t) (clause : Clause) :
    (Script.nextItem setting s clause).Follow setting answers
      (fun found found' ↦ ReadsAlike frames low high found found' ∧
        found.1.kind = headKind s.rest)
      (Script.nextItem setting t clause) := by
  refine (follow_item hanswers hcoupled).bind ?_
  rintro ⟨found, after⟩ ⟨found', after'⟩
    (⟨rfl, rfl⟩ | ⟨item, _, item', _, hfound, hfound', hread⟩)
  · exact .unexpected
  · cases hfound
    cases hfound'
    exact .pure hread

theorem follow_nextItem (hanswers : AreAnswers setting answers)
    (hcoupled : s.Coupled frames low high t) (clause : Clause) :
    (Script.nextItem setting s clause).Follow setting answers (ReadsAlike frames low high)
      (Script.nextItem setting t clause) :=
  (follow_head hanswers hcoupled clause).imp fun _ _ hread ↦ hread.1

/-- An item of given kinds, none of which opens an action, is read in step. -/
theorem follow_expect (hanswers : AreAnswers setting answers)
    (hcoupled : s.Coupled frames low high t) {kinds : List ItemKind} (clause : Clause)
    (hkinds : .leftDelim ∉ kinds) :
    (Script.expect setting s kinds clause).Follow setting answers
      (fun found found' ↦ found.1.Like found'.1 ∧ found.2.Coupled frames low high found'.2)
      (Script.expect setting t kinds clause) := by
  refine (follow_nextItem hanswers hcoupled clause).bind ?_
  rintro ⟨item, after⟩ ⟨item', after'⟩ hread
  refine .ite (by rw [hread.kind_eq]) (fun hkind ↦ ?_) fun _ ↦ .unexpected
  have hleft : item.kind ≠ .leftDelim := by
    rintro heq
    rw [heq] at hkind
    exact hkinds (List.contains_iff_mem.mp hkind)
  exact .pure ⟨hread.like hleft, hread.coupled hleft⟩

/-- The value of a literal depends on the text of its item alone. -/
theorem accords_literalValue {item item' : Item} (hlike : item.Like item') (s t : State) :
    Accords Eq (some (literalValue setting s item)) (literalValue setting t item') := by
  unfold literalValue
  rw [hlike.value]
  cases Literal.unquote item'.value with
  | none => trivial
  | some text => rfl

theorem follow_templateName (hanswers : AreAnswers setting answers)
    (hcoupled : s.Coupled frames low high t) (clause : Clause) :
    (Script.templateName setting clause s).Follow setting answers
      (FoundAlike Prod.fst frames low high) (Script.templateName setting clause t) := by
  refine (follow_expect hanswers hcoupled clause (by simp)).bind ?_
  rintro ⟨item, after⟩ ⟨item', after'⟩ ⟨hlike, hafter⟩
  refine Steps.Follow.bind (.lift (accords_literalValue hlike after after')) ?_
  rintro name _ rfl
  exact .pure ⟨rfl, hafter⟩

/-! ### What is read without a call -/

/-- Fields that follow one another are the same in both. -/
theorem State.Coupled.fields (hcoupled : s.Coupled frames low high t) :
    s.fields.value = t.fields.value ∧ s.fields.state.Coupled frames low high t.fields.state := by
  have hfields (items others : List Item) (line line' : Nat)
      (hitems : Unfolds frames items others) :
      (fieldsFrom line items).1 = (fieldsFrom line' others).1 ∧
        Unfolds frames (fieldsFrom line items).2.2 (fieldsFrom line' others).2.2 := by
    induction items generalizing others line line' with
    | nil =>
      cases hitems with
      | finished => exact ⟨rfl, .finished⟩
    | cons first rest ih =>
      obtain ⟨habsurd, -⟩ | ⟨_, _, second, rest', heq, rfl, hkind, hlike⟩ := hitems.head
      · cases habsurd
      · obtain ⟨rfl, rfl⟩ := List.cons.inj heq
        by_cases hfield : first.kind = .field
        · have hleft : first.kind ≠ .leftDelim := by simp [hfield]
          obtain ⟨hnames, hrest⟩ :=
            ih rest' first.position.line second.position.line (hitems.of_cons hleft)
          simp only [fieldsFrom, if_pos hfield, if_pos (hkind ▸ hfield), fieldName,
            (hlike hleft).value, hnames]
          exact ⟨trivial, hrest⟩
        · simp only [fieldsFrom, if_neg hfield, if_neg (hkind ▸ hfield)]
          exact ⟨trivial, hitems⟩
  obtain ⟨hnames, hrest⟩ := hfields s.rest t.rest s.line t.line hcoupled.items
  exact ⟨hnames, hcoupled.toLevel.read _ _ _ _, hrest⟩

/-- An item is the same term by itself in both, or no term, or refused. -/
theorem accords_simpleTerm {item item' : Item} (hlike : item.Like item')
    (hlevel : s.Level low high t) :
    Accords (fun found found' ↦ found.map Node.unplaced = found'.map Node.unplaced)
      (some (simpleTerm setting s item)) (simpleTerm setting t item') := by
  refine .of_ok (fun found hfound ↦ ?_) fun found hfound ↦ ?_
  · cases found with
    | none =>
      rw [simpleTerm_eq_none_iff, hlike.kind, ← @simpleTerm_eq_none_iff setting t] at hfound
      exact ⟨none, hfound, rfl⟩
    | some node =>
      rw [simpleTerm_eq_some_iff, hlevel.visible] at hfound
      obtain ⟨again, hagain, hterm⟩ := hfound.again hlike.kind.symm hlike.value.symm
      exact ⟨some again, simpleTerm_eq_some_iff.mpr hterm, congrArg some hagain.symm⟩
  · cases found with
    | none =>
      rw [simpleTerm_eq_none_iff, ← hlike.kind, ← @simpleTerm_eq_none_iff setting s] at hfound
      exact ⟨none, hfound⟩
    | some node =>
      rw [simpleTerm_eq_some_iff, ← hlevel.visible] at hfound
      obtain ⟨again, -, hterm⟩ := hfound.again hlike.kind hlike.value
      exact ⟨some again, simpleTerm_eq_some_iff.mpr hterm⟩

theorem accords_withFields {base base' : Node} (hbase : base.unplaced = base'.unplaced)
    (s t : State) (position position' : Position) (names : List String) :
    Accords (fun found found' ↦ found.unplaced = found'.unplaced)
      (some (withFields setting s base position names))
      (withFields setting t base' position' names) := by
  have hfields : hasFields base = hasFields base' := by
    rw [← hasFields_unplaced, hbase, hasFields_unplaced]
  refine .of_ok (fun found hfound ↦ ?_) fun found hfound ↦ ?_
  · obtain ⟨hhas, rfl⟩ := withFields_eq_ok_iff.mp hfound
    refine ⟨_, withFields_eq_ok_iff.mpr ⟨hfields ▸ hhas, rfl⟩, ?_⟩
    rw [takeFields_unplaced, takeFields_unplaced, hbase]
  · obtain ⟨hhas, -⟩ := withFields_eq_ok_iff.mp hfound
    exact ⟨_, withFields_eq_ok_iff.mpr ⟨hfields ▸ hhas, rfl⟩⟩

theorem accords_checkCommands (clause : Clause) {commands commands' : List Command}
    (hcommands : commands.map Command.unplaced = commands'.map Command.unplaced) (s t : State) :
    Accords (fun _ _ ↦ True) (some (checkCommands setting clause s commands))
      (checkCommands setting clause t commands') := by
  have hcheck {commands commands' : List Command}
      (hcommands : commands.map Command.unplaced = commands'.map Command.unplaced)
      (hvalue : commands ≠ []) (hstage : valueStage? 2 commands.tail = none) :
      commands' ≠ [] ∧ valueStage? 2 commands'.tail = none := by
    rw [← valueStage?_unplaced, List.map_tail, hcommands, ← List.map_tail,
      valueStage?_unplaced] at hstage
    refine ⟨?_, hstage⟩
    rintro rfl
    exact hvalue (List.map_eq_nil_iff.mp hcommands)
  refine .of_ok (fun value hvalue ↦ ?_) fun value hvalue ↦ ?_
  · obtain ⟨hne, hstage⟩ := checkCommands_eq_ok_iff.mp hvalue
    exact ⟨value, checkCommands_eq_ok_iff.mpr (hcheck hcommands hne hstage), trivial⟩
  · obtain ⟨hne, hstage⟩ := checkCommands_eq_ok_iff.mp hvalue
    exact ⟨value, checkCommands_eq_ok_iff.mpr (hcheck hcommands.symm hne hstage)⟩

theorem accords_commandEnd (hcoupled : s.Coupled frames low high t) :
    Accords (fun ending ending' ↦ ending.state.Coupled frames low high ending'.state)
      (some (commandEnd setting s)) (commandEnd setting t) := by
  have hkind := hcoupled.kind_peek_eq
  unfold commandEnd
  rw [← hkind]
  split
  next => exact hcoupled
  next => exact hcoupled
  next hpipe => exact hcoupled.advance (by simp [hpipe])
  next => exact .unexpected

/-- What is too deep in the first source is too deep in the second. -/
theorem accords_checkDepth (hlevel : s.Level low high t) :
    Accords (fun _ _ ↦ True) (some (checkDepth setting s)) (checkDepth setting t) := by
  have hle := hlevel.le
  unfold checkDepth
  rw [hlevel.low_eq, hlevel.high_eq]
  by_cases hlow : maxDepth ≤ low
  · rw [if_pos hlow, if_pos (hlow.trans hle)]
    trivial
  · rw [if_neg hlow]
    split
    next => rfl
    next => trivial

/-! ### Pipelines -/

theorem follow_declarations (hanswers : AreAnswers setting answers)
    (hsustains : Sustains setting answers) (hcoupled : s.Coupled frames low high t)
    (clause : Clause) (more : Nat) :
    (Script.declarations setting clause more s).Follow setting answers
      (FoundAlike Declarations.unplaced frames low high)
      (Script.declarations setting clause more t) := by
  have hnone : Steps.Follow setting answers (FoundAlike Declarations.unplaced frames low high)
      (pure ({}, s.skipSpaces)) (pure ({}, t.skipSpaces)) :=
    .pure ⟨rfl, hcoupled.skipSpaces⟩
  refine (follow_item hanswers hcoupled).bind ?_
  rintro ⟨found, afterName⟩ ⟨found', afterName'⟩
    (⟨rfl, rfl⟩ | ⟨name, _, name', _, hfound, hfound', hname, -⟩)
  · exact hnone
  cases hfound
  cases hfound'
  refine .ite (by rw [hname.kind_eq]) (fun hvariable ↦ ?_) fun _ ↦ hnone
  have hleft : name.kind ≠ .leftDelim := by simp [hvariable]
  have hvalue := (hname.like hleft).value
  refine (follow_item hanswers (hname.coupled hleft)).bind ?_
  rintro ⟨found, afterSign⟩ ⟨found', afterSign'⟩
    (⟨rfl, rfl⟩ | ⟨sign, _, sign', _, hfound, hfound', hsign, -⟩)
  · exact hnone
  cases hfound
  cases hfound'
  have htarget : (targetOf name).unplaced = (targetOf name').unplaced := by
    simp [targetOf, Variable.unplaced, Variable.mapPosition, hvalue]
  refine .ite (by rw [hsign.kind_eq]) (fun hdeclaring ↦ ?_) fun _ ↦ ?_
  · have hafter := hsign.coupled fun hleft ↦ by simp [hleft, isDeclaring] at hdeclaring
    refine .pure ⟨?_, hvalue ▸ hafter.declare name.value⟩
    simp [Declarations.unplaced, hsign.kind_eq, htarget]
  · have hseparates : isSeparator sign = true ↔ isSeparator sign' = true := by
      by_cases hleft : sign.kind = .leftDelim
      · simp [isSeparator, ← hsign.kind_eq, hleft]
      · simp [isSeparator, (hsign.like hleft).kind, (hsign.like hleft).value]
    refine .ite hseparates (fun hseparator ↦ ?_) fun _ ↦ hnone
    have hafter := hsign.coupled fun hleft ↦ by simp [hleft, isSeparator] at hseparator
    have hdeclared : (afterSign.declare name.value).Coupled frames low high
        (afterSign'.declare name'.value) :=
      hvalue ▸ hafter.declare name.value
    cases more with
    | zero => exact .fail
    | succ more =>
      refine .ite (by rw [hdeclared.kind_peek_skipSpaces_eq]) (fun _ ↦ ?_) fun _ ↦ .fail
      refine (follow_call hsustains (.declarations clause more hdeclared)).bind ?_
      rintro ⟨others, after⟩ ⟨others', after'⟩ ⟨hothers, hafter⟩
      refine .pure ⟨?_, hafter⟩
      simp only [Declarations.unplaced, Prod.mk.injEq] at hothers ⊢
      exact ⟨hothers.1, by rw [List.map_cons, List.map_cons, htarget, hothers.2]⟩

theorem follow_pipeline (hsustains : Sustains setting answers)
    (hcoupled : s.Coupled frames low high t) (clause : Clause) {closer : ItemKind}
    (hcloser : closer ≠ .leftDelim) :
    (Script.pipeline setting clause closer s).Follow setting answers
      (FoundAlike Pipeline.unplaced frames low high) (Script.pipeline setting clause closer t) := by
  refine (follow_call hsustains (.declarations clause _ hcoupled)).bind ?_
  rintro ⟨declared, afterDeclarations⟩ ⟨declared', afterDeclarations'⟩ ⟨hdeclared, hafter⟩
  refine (follow_call hsustains (.commands clause hcloser hafter)).bind ?_
  rintro ⟨found, after⟩ ⟨found', after'⟩ ⟨hfound, hafter⟩
  refine Steps.Follow.bind (.lift (accords_checkCommands clause hfound after after')) fun _ _ _ ↦ ?_
  refine .pure ⟨?_, hafter⟩
  simp only [Declarations.unplaced, Prod.mk.injEq] at hdeclared
  simp only [Pipeline.unplaced_mk, Pipeline.mk.injEq, true_and]
  exact ⟨hdeclared.1, hdeclared.2, hfound⟩

theorem follow_commands (hanswers : AreAnswers setting answers)
    (hsustains : Sustains setting answers) (hcoupled : s.Coupled frames low high t)
    (clause : Clause) {closer : ItemKind} (hcloser : closer ≠ .leftDelim) :
    (Script.commands setting clause closer s).Follow setting answers
      (FoundAlike (List.map Command.unplaced) frames low high)
      (Script.commands setting clause closer t) := by
  refine (follow_nextItem hanswers hcoupled clause).bind ?_
  rintro ⟨item, afterItem⟩ ⟨item', afterItem'⟩ hread
  refine .ite (by rw [hread.kind_eq]) (fun hkind ↦ ?_) fun _ ↦ ?_
  · exact .pure ⟨rfl, hread.coupled (hkind ▸ hcloser)⟩
  refine .ite (by rw [hread.kind_eq]) (fun _ ↦ ?_) fun _ ↦ .unexpected
  refine (follow_call hsustains (.command hcoupled)).bind ?_
  rintro ⟨first, afterFirst⟩ ⟨first', afterFirst'⟩ ⟨hfirst, hafter⟩
  refine (follow_call hsustains (.commands clause hcloser hafter)).bind ?_
  rintro ⟨others, after⟩ ⟨others', after'⟩ ⟨hothers, hafter⟩
  exact .pure ⟨by rw [List.map_cons, List.map_cons, hfirst, hothers], hafter⟩

theorem follow_command (hsustains : Sustains setting answers)
    (hcoupled : s.Coupled frames low high t) :
    (Script.command setting s).Follow setting answers
      (FoundAlike Command.unplaced frames low high) (Script.command setting t) := by
  refine (follow_call hsustains (.operands hcoupled)).bind ?_
  rintro ⟨nodes, after⟩ ⟨nodes', after'⟩ ⟨hnodes, hafter⟩
  have hempty : nodes = [] ↔ nodes' = [] := by
    rw [← @List.map_eq_nil_iff _ _ Node.unplaced, hnodes, List.map_eq_nil_iff]
  refine .ite (not_congr hempty) (fun _ ↦ ?_) fun _ ↦ .fail
  refine .pure ⟨?_, hafter⟩
  rw [Command.unplaced_mk, Command.unplaced_mk, hnodes]

theorem follow_operands (hsustains : Sustains setting answers)
    (hcoupled : s.Coupled frames low high t) :
    (Script.operands setting s).Follow setting answers
      (FoundAlike (List.map Node.unplaced) frames low high) (Script.operands setting t) := by
  refine (follow_call hsustains (.operand hcoupled.skipSpaces)).bind ?_
  rintro ⟨found, afterNode⟩ ⟨found', afterNode'⟩ ⟨hfound, hafter⟩
  cases found with
  | none =>
    obtain rfl : found' = none := Option.map_eq_none_iff.mp hfound.symm
    refine Steps.Follow.bind (.lift (accords_commandEnd hcoupled.skipSpaces)) fun _ _ hend ↦ ?_
    exact .pure ⟨rfl, hend⟩
  | some node =>
    obtain ⟨node', rfl, hnode⟩ := Option.map_eq_some_iff.mp hfound.symm
    refine .ite (by rw [hafter.kind_peek_eq]) (fun hspace ↦ ?_) fun _ ↦ ?_
    · have hadvance := hafter.advance (by simp [hspace])
      refine (follow_call hsustains (.operands hadvance)).bind ?_
      rintro ⟨others, after⟩ ⟨others', after'⟩ ⟨hothers, hafter⟩
      exact .pure ⟨by rw [List.map_cons, List.map_cons, hnode, hothers], hafter⟩
    · refine Steps.Follow.bind (.lift (accords_commandEnd hafter)) fun _ _ hend ↦ ?_
      exact .pure ⟨by rw [List.map_cons, List.map_cons, hnode, List.map_nil], hend⟩

theorem follow_chained (hanswers : AreAnswers setting answers)
    (hcoupled : s.Coupled frames low high t) {term term' : Node}
    (hterm : term.unplaced = term'.unplaced) :
    (Script.chained setting term s).Follow setting answers
      (FoundAlike Node.unplaced frames low high) (Script.chained setting term' t) := by
  have hfields : (Steps.call .fields s).Follow setting answers (FoundAlike id frames low high)
      (Steps.call .fields t) := by
    refine .of_eval hanswers ?_
    rw [Steps.eval_call, Steps.eval_call]
    exact ⟨hcoupled.fields.1, hcoupled.fields.2⟩
  refine .ite (by rw [hcoupled.kind_peek_eq]) (fun _ ↦ ?_) fun _ ↦ .pure ⟨hterm, hcoupled⟩
  refine hfields.bind ?_
  rintro ⟨names, after⟩ ⟨_, after'⟩ ⟨rfl, hafter⟩
  refine Steps.Follow.bind (.lift (accords_withFields hterm after after' _ _ names))
    fun _ _ hwhole ↦ ?_
  exact .pure ⟨hwhole, hafter⟩

theorem follow_operand (hanswers : AreAnswers setting answers)
    (hsustains : Sustains setting answers) (hcoupled : s.Coupled frames low high t) :
    (Script.operand setting s).Follow setting answers
      (FoundAlike (Option.map Node.unplaced) frames low high) (Script.operand setting t) := by
  have hnone : Steps.Follow setting answers (FoundAlike (Option.map Node.unplaced) frames low high)
      (pure (none, s)) (pure (none, t)) :=
    .pure ⟨rfl, hcoupled⟩
  refine (follow_item hanswers hcoupled).bind ?_
  rintro ⟨found, afterItem⟩ ⟨found', afterItem'⟩
    (⟨rfl, rfl⟩ | ⟨item, _, item', _, hfound, hfound', hread, -⟩)
  · exact hnone
  cases hfound
  cases hfound'
  have hchained {state state' : State} (hstate : state.Coupled frames low high state')
      {term term' : Node} (hterm : term.unplaced = term'.unplaced) :
      Steps.Follow setting answers (FoundAlike (Option.map Node.unplaced) frames low high)
        (do let read ← Script.chained setting term state; return (some read.1, read.2))
        (do let read ← Script.chained setting term' state'; return (some read.1, read.2)) := by
    refine (follow_chained hanswers hstate hterm).bind ?_
    rintro ⟨node, after⟩ ⟨node', after'⟩ ⟨hnode, hafter⟩
    exact .pure ⟨congrArg some hnode, hafter⟩
  refine .ite (by rw [hread.kind_eq]) (fun hparen ↦ ?_) fun _ ↦ ?_
  · have hafter := hread.coupled (by simp [hparen])
    refine Steps.Follow.bind (.lift (accords_checkDepth hafter.toLevel)) fun _ _ _ ↦ ?_
    have hinside : afterItem.enter.Coupled frames (low + 1) (high + 1) afterItem'.enter :=
      ⟨hafter.toLevel.enter, hafter.items⟩
    refine (follow_call hsustains (.pipeline .parenthesized (by simp) hinside)).bind ?_
    rintro ⟨inner, afterInner⟩ ⟨inner', afterInner'⟩ ⟨hinner, hafterInner⟩
    have hleave : (Steps.call .leave afterInner).Follow setting answers
        (FoundAlike id frames low high) (Steps.call .leave afterInner') := by
      refine .of_eval hanswers ?_
      rw [Steps.eval_call, Steps.eval_call]
      exact ⟨rfl, hafterInner.toLevel.leave, hafterInner.items⟩
    refine hleave.bind ?_
    rintro ⟨_, afterParen⟩ ⟨_, afterParen'⟩ ⟨-, hafterParen⟩
    refine hchained hafterParen ?_
    exact congrArg Node.pipeline hinner
  · by_cases hleft : item.kind = .leftDelim
    · -- no term starts with what opens an action
      have hleft' : item'.kind = .leftDelim := hread.kind_eq ▸ hleft
      have hterm (setting : Setting) (s : State) {item : Item} (hkind : item.kind = .leftDelim) :
          simpleTerm setting s item = .ok none :=
        simpleTerm_eq_none_iff.mpr (.inl (by rw [hkind]; rfl))
      rw [hterm setting afterItem hleft, hterm setting afterItem' hleft']
      exact hnone
    · have hafter := hread.coupled hleft
      refine Steps.Follow.bind (.lift (accords_simpleTerm (hread.like hleft) hafter.toLevel)) ?_
      intro found found' hfound
      cases found with
      | none =>
        obtain rfl : found' = none := Option.map_eq_none_iff.mp hfound.symm
        exact hnone
      | some term =>
        obtain ⟨term', rfl, hterm⟩ := Option.map_eq_some_iff.mp hfound.symm
        exact hchained hafter hterm.symm

end Steps

end Parse

end Stencil.Syntax
