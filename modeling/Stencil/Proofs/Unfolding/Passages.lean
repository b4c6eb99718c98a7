import Stencil.Proofs.Grammar.Soundness
import Stencil.Proofs.Unfolding.Phrases

/-!
# Control structures in step

Statements and bodies are read of both sources in step, up to two places. Where the longer source
opens a structure in an action of its own, the first parse goes on with the structure and the second
reads a body that holds nothing else (`eval_body_of_structure`); behind this structure the second
finds one end more, which ends the body. So what the first parse reads of a chain is what the second
reads, and the ends that the longer source has more are read one at each step out of the chain.
-/

set_option autoImplicit false
set_option relaxedAutoImplicit false

namespace Stencil.Syntax

open Parse

namespace Parse

/-- What comes after a value that is there. -/
theorem ok_bind {ε α β : Type} (value : α) (next : α → Except ε β) :
    Except.ok value >>= next = next value := rfl

section Steps

variable {setting : Setting} {frames : List Pending} {low high : Nat} {s t : State}
  {answers : {β : Type} → Call β → State → Option (Except ParseError (β × State))}

/-! ### Items that are known -/

/-- An item that stands there is read. -/
theorem eval_nextItem_of_startsWith {kind : ItemKind} {rest : List Item}
    (hstarts : StartsWith kind s.rest rest) (setting : Setting) (clause : Clause) :
    ∃ item, item.kind = kind ∧ (Script.nextItem setting s clause).eval setting =
      .ok (item, { s with line := item.position.line, rest := rest }) := by
  obtain ⟨item, hdrop, hkind⟩ := hstarts.dropSpaces
  refine ⟨item, hkind, ?_⟩
  rw [Script.nextItem, Steps.eval_bind, Steps.eval_call, Call.run, State.nextFound_of_cons hdrop]
  rfl

/-- The delimiter that closes an action is read where it stands. -/
theorem eval_expect_of_startsWith {rest : List Item} (hstarts : StartsWith .rightDelim s.rest rest)
    (setting : Setting) (clause : Clause) :
    ∃ item, (Script.expect setting s [.rightDelim] clause).eval setting =
      .ok (item, { s with line := item.position.line, rest := rest }) := by
  obtain ⟨item, hkind, heval⟩ := eval_nextItem_of_startsWith hstarts setting clause
  refine ⟨item, ?_⟩
  rw [Script.expect, Steps.eval_bind, heval]
  change Steps.eval setting (if [ItemKind.rightDelim].contains item.kind then _ else _) = _
  rw [if_pos (by rw [hkind]; rfl)]
  rfl

/-- Items of one kind that stand there are read in step. -/
theorem follow_startsWith (hanswers : AreAnswers setting answers) (hlevel : s.Level low high t)
    {kind : ItemKind} {rest rest' : List Item} (hstarts : StartsWith kind s.rest rest)
    (hstarts' : StartsWith kind t.rest rest') (clause : Clause) :
    (Script.nextItem setting s clause).Follow setting answers
      (fun found found' ↦ found.1.kind = kind ∧ found'.1.kind = kind ∧
        found.2.Level low high found'.2 ∧ found.2.rest = rest ∧ found'.2.rest = rest')
      (Script.nextItem setting t clause) := by
  obtain ⟨item, hkind, heval⟩ := eval_nextItem_of_startsWith hstarts setting clause
  obtain ⟨item', hkind', heval'⟩ := eval_nextItem_of_startsWith hstarts' setting clause
  refine .of_eval hanswers ?_
  rw [heval, heval']
  exact ⟨hkind, hkind', hlevel.read _ _ _ _, rfl, rfl⟩

/-! ### Actions without bodies -/

theorem follow_loopControl (hanswers : AreAnswers setting answers)
    (hcoupled : s.Coupled frames low high t) (clause : Clause) {node node' : Node}
    (hnode : node.unplaced = node'.unplaced) :
    (Script.loopControl setting clause node s).Follow setting answers
      (FoundAlike Node.unplaced frames low high) (Script.loopControl setting clause node' t) := by
  refine (follow_nextItem hanswers hcoupled clause).bind ?_
  rintro ⟨item, after⟩ ⟨item', after'⟩ hread
  refine .ite (by rw [hread.kind_eq]) (fun _ ↦ .unexpected) fun hkind ↦ ?_
  have hafter := hread.coupled (by simp [not_not.mp hkind])
  refine .ite (by rw [hafter.loopDepth]) (fun _ ↦ .fail) fun _ ↦ ?_
  exact .pure ⟨hnode, hafter⟩

theorem follow_templateControl (hanswers : AreAnswers setting answers)
    (hsustains : Sustains setting answers) (hcoupled : s.Coupled frames low high t) :
    (Script.templateControl setting s).Follow setting answers
      (FoundAlike Node.unplaced frames low high) (Script.templateControl setting t) := by
  refine (follow_templateName hanswers hcoupled .template).bind ?_
  rintro ⟨⟨name, position⟩, afterName⟩ ⟨⟨name', position'⟩, afterName'⟩ ⟨hname, hafterName⟩
  obtain rfl : name = name' := hname
  refine (follow_nextItem hanswers hafterName .template).bind ?_
  rintro ⟨item, afterItem⟩ ⟨item', afterItem'⟩ hread
  refine .ite (by rw [hread.kind_eq]) (fun hkind ↦ ?_) fun _ ↦ ?_
  · exact .pure ⟨rfl, hread.coupled (by simp [hkind])⟩
  · refine (follow_call hsustains (.pipeline .template (by simp) hafterName)).bind ?_
    rintro ⟨argument, after⟩ ⟨argument', after'⟩ ⟨hargument, hafter⟩
    exact .pure ⟨congrArg (fun inner ↦ Node.template {} name (some inner)) hargument, hafter⟩

theorem follow_pipelineAction (hsustains : Sustains setting answers)
    (hcoupled : s.Coupled frames low high t) :
    (Script.pipelineAction s).Follow setting answers (FoundAlike Node.unplaced frames low high)
      (Script.pipelineAction t) := by
  refine (follow_call hsustains (.pipeline .command (by simp) hcoupled)).bind ?_
  rintro ⟨inner, after⟩ ⟨inner', after'⟩ ⟨hinner, hafter⟩
  exact .pure ⟨congrArg (Node.action {}) hinner, hafter⟩

/-- No pipeline starts with the word of a definition. -/
theorem eval_pipelineAction_ne_ok (hhead : headKind s.rest = .keyword .defineWord)
    (found : Node × State) : (Script.pipelineAction s).eval setting ≠ .ok found := by
  intro heval
  obtain ⟨reading, hreading, -⟩ := bind_eq_ok.mp (Script.eval_pipelineAction setting s ▸ heval)
  obtain ⟨inner, hinner, -⟩ := bind_eq_ok.mp hreading
  obtain ⟨item, after, hread, hstart⟩ := exists_reads_of_pipeline (derives_of_pipeline s hinner)
  rw [← hread.peek_eq, s.kind_peek_skipSpaces, hhead] at hstart
  cases hstart

/-- A node that is read in step is a statement that is. -/
theorem follow_asStatement {first second : Steps (Node × State)}
    (hfollow : first.Follow setting answers (FoundAlike Node.unplaced frames low high) second) :
    (Script.asStatement first).Follow setting answers (StatementsAlike frames low high)
      (Script.asStatement second) := by
  refine hfollow.bind ?_
  rintro ⟨node, after⟩ ⟨node', after'⟩ ⟨hnode, hafter⟩
  exact .pure (.node hnode hafter)

/-- An else action that both have is read in step. -/
theorem follow_elseControl (hanswers : AreAnswers setting answers)
    (hcoupled : s.Coupled frames low high t) :
    (Script.elseControl setting s).Follow setting answers (StatementsAlike frames low high)
      (Script.elseControl setting t) := by
  refine .ite (by rw [hcoupled.kind_peek_skipSpaces_eq]) (fun _ ↦ ?_) fun _ ↦ ?_
  · exact .pure (.ending hcoupled.skipSpaces.toLevel (.otherwise hcoupled.skipSpaces.items))
  · refine (follow_expect hanswers hcoupled .otherwise (by simp)).bind ?_
    rintro ⟨item, after⟩ ⟨item', after'⟩ ⟨-, hafter⟩
    exact .pure (.ending hafter.toLevel (.otherwise hafter.items))

/-- An else with the word of a structure is read in step with an else of its own. -/
theorem follow_elseControl_unfolded (hanswers : AreAnswers setting answers)
    (hlevel : s.Level low high t) {word : Keyword} (hword : word = .ifWord ∨ word = .withWord)
    {count : Nat} {opening : Item} {rest afterOpening rest' : List Item}
    (hcontinues : StartsWith (.keyword word) s.rest rest)
    (hclosing : StartsWith .rightDelim t.rest (opening :: afterOpening))
    (hopening : opening.kind = .leftDelim) (hopens : StartsWith (.keyword word) afterOpening rest')
    (hrest : Unfolds ((word, count + 1) :: frames) rest rest') :
    (Script.elseControl setting s).Follow setting answers
      (StatementsAlike ((word, count) :: frames) low high) (Script.elseControl setting t) := by
  refine .of_eval hanswers ?_
  have hpeek : [ItemKind.keyword .ifWord, .keyword .withWord].contains s.skipSpaces.peek.kind := by
    rw [s.kind_peek_skipSpaces, hcontinues.headKind_eq]
    rcases hword with rfl | rfl <;> rfl
  have hpeek' : ¬ [ItemKind.keyword .ifWord, .keyword .withWord].contains
      t.skipSpaces.peek.kind := by
    rw [t.kind_peek_skipSpaces, hclosing.headKind_eq]
    decide
  obtain ⟨closer, heval⟩ := eval_expect_of_startsWith hclosing setting .otherwise
  obtain ⟨first, hdrop, hfirst⟩ := hcontinues.dropSpaces
  rw [Script.elseControl, if_pos hpeek, Script.elseControl, if_neg hpeek', Steps.eval_bind, heval]
  refine .ending (hlevel.read _ _ _ _) ?_
  rw [s.rest_skipSpaces, hdrop]
  exact .unfolded hword hfirst hopening hopens hrest

/-- The end of a structure is read in step with the first of the ends that close it. -/
theorem follow_endControl (hanswers : AreAnswers setting answers) (hlevel : s.Level low high t)
    {word : Keyword} {count : Nat} {rest afterFirst rest' : List Item}
    (hclosing : StartsWith .rightDelim s.rest rest)
    (hclosing' : StartsWith .rightDelim t.rest afterFirst)
    (hends : StartsWithEnds count afterFirst rest') (hrest : Unfolds frames rest rest') :
    (Script.endControl setting s).Follow setting answers
      (StatementsAlike ((word, count) :: frames) low high) (Script.endControl setting t) := by
  refine .of_eval hanswers ?_
  obtain ⟨item, heval⟩ := eval_expect_of_startsWith hclosing setting .closing
  obtain ⟨item', heval'⟩ := eval_expect_of_startsWith hclosing' setting .closing
  rw [Script.endControl, Script.endControl, Steps.eval_bind, Steps.eval_bind, heval, heval']
  exact .ending (hlevel.read _ _ _ _) (.finished hends hrest)

/-! ### Actions -/

/-- A control structure is read in step where it needs no further end. -/
theorem follow_structure (hsustains : Sustains setting answers) {kind : BranchKind}
    (hcoupled : s.Coupled ((branchWord kind, 0) :: frames) low high t) :
    (Steps.call (.control kind) s).Follow setting answers (FoundAlike Node.unplaced frames low high)
      (Steps.call (.control kind) t) := by
  refine (follow_call hsustains (.control hcoupled)).imp ?_
  rintro ⟨node, after⟩ ⟨node', after'⟩ ⟨hnode, hlevel, rest, hends, hrest⟩
  cases hends with
  | none => exact ⟨hnode, hlevel, hrest⟩

/-- An action that both have is read in step, unless it is an end. -/
theorem follow_sharedAction (hanswers : AreAnswers setting answers)
    (hsustains : Sustains setting answers) (hhead : headKind s.rest ≠ .keyword .endWord)
    (hcoupled : s.Coupled (pushed (headKind s.rest) frames) low high t) :
    (Script.action setting s).Follow setting answers (StatementsAlike frames low high)
      (Script.action setting t) := by
  have hhead' := hcoupled.headKind_eq
  refine (follow_head hanswers hcoupled .command).bind ?_
  rintro ⟨item, afterItem⟩ ⟨item', afterItem'⟩ ⟨hread, hkind⟩
  have hafter (hleft : headKind s.rest ≠ .leftDelim) := hread.coupled (hkind.trans_ne hleft)
  dsimp only at hkind hafter ⊢
  rw [← hread.kind_eq, hkind]
  split
  next hword =>
    rw [hword] at hafter
    exact follow_asStatement (follow_call hsustains (.blockControl (hafter (by simp))))
  next hword =>
    rw [hword] at hafter
    exact follow_asStatement (follow_loopControl hanswers (hafter (by simp)) .breakLoop rfl)
  next hword =>
    rw [hword] at hafter
    exact follow_asStatement (follow_loopControl hanswers (hafter (by simp)) .continueLoop rfl)
  next hword =>
    rw [hword] at hafter
    exact follow_elseControl hanswers (hafter (by simp))
  next hword => exact absurd hword hhead
  next hword =>
    rw [hword] at hafter
    exact follow_asStatement (@follow_structure _ _ _ _ _ _ _ hsustains .conditional
      (hafter (by simp)))
  next hword =>
    rw [hword] at hafter
    exact follow_asStatement (@follow_structure _ _ _ _ _ _ _ hsustains .loop (hafter (by simp)))
  next hword =>
    rw [hword] at hafter
    exact follow_asStatement (@follow_structure _ _ _ _ _ _ _ hsustains .context
      (hafter (by simp)))
  next hword =>
    rw [hword] at hafter
    exact follow_asStatement (follow_templateControl hanswers hsustains (hafter (by simp)))
  next hblock _ _ _ _ hif hrange hwith _ =>
    refine follow_asStatement ?_
    by_cases hdefine : headKind s.rest = .keyword .defineWord
    · refine .of_eval hanswers (.of_ok (fun found hfound ↦ ?_) fun found hfound ↦ ?_)
      · exact absurd hfound (eval_pipelineAction_ne_ok hdefine found)
      · exact absurd hfound (eval_pipelineAction_ne_ok (hhead' ▸ hdefine) found)
    · have hpushed : pushed (headKind s.rest) frames = frames := by
        unfold pushed
        split
        next word hword =>
          refine if_neg fun hopens ↦ ?_
          rw [hword] at hblock hif hrange hwith hdefine
          cases word <;> simp_all [opensStructure]
        next => rfl
      exact follow_pipelineAction hsustains (hpushed ▸ hcoupled)

theorem follow_action (hanswers : AreAnswers setting answers)
    (hsustains : Sustains setting answers) (hlevel : s.Level low high t) {opening opening' : Item}
    (hopening : opening.kind = .leftDelim)
    (hitems : Unfolds frames (opening :: s.rest) (opening' :: t.rest)) :
    (Script.action setting s).Follow setting answers (StatementsAlike frames low high)
      (Script.action setting t) := by
  cases hitems with
  | item _ hkind _ => exact absurd hopening hkind
  | action _ _ hhead hrest =>
    exact follow_sharedAction hanswers hsustains hhead ⟨hlevel, hrest⟩
  | unfolded _ _ hword helse hcontinues helse' hclosing hopening' hopens hrest =>
    refine (follow_startsWith hanswers hlevel helse helse' .command).bind ?_
    rintro ⟨item, after⟩ ⟨item', after'⟩ ⟨hkind, hkind', hlevel, rfl, rfl⟩
    dsimp only at hkind hkind' ⊢
    rw [hkind, hkind']
    exact follow_elseControl_unfolded hanswers hlevel hword hcontinues hclosing hopening' hopens
      hrest
  | ended _ _ hend hclosing hend' hclosing' hends hrest =>
    refine (follow_startsWith hanswers hlevel hend hend' .command).bind ?_
    rintro ⟨item, after⟩ ⟨item', after'⟩ ⟨hkind, hkind', hlevel, rfl, rfl⟩
    dsimp only at hkind hkind' ⊢
    rw [hkind, hkind']
    exact follow_endControl hanswers hlevel hclosing hclosing' hends hrest

/-! ### Statements -/

theorem follow_statement (hanswers : AreAnswers setting answers)
    (hsustains : Sustains setting answers) (hcoupled : s.Coupled frames low high t) :
    (Script.statement setting s).Follow setting answers (StatementsAlike frames low high)
      (Script.statement setting t) := by
  refine (follow_nextItem hanswers hcoupled .input).bind ?_
  rintro ⟨item, afterItem⟩ ⟨item', afterItem'⟩ hread
  dsimp only
  rw [← hread.kind_eq]
  split
  next hkind =>
    have hleft : item.kind ≠ .leftDelim := by simp [hkind]
    refine .pure (.node ?_ (hread.coupled hleft))
    exact congrArg (Node.text {}) (hread.like hleft).value
  next hkind =>
    have hleft : item.kind ≠ .leftDelim := by simp [hkind]
    refine .pure (.node ?_ (hread.coupled hleft))
    exact congrArg (Node.comment {}) (hread.like hleft).value
  next hkind =>
    have hlevel := hread.level.enterAction item.position.line item'.position.line
    refine (follow_call hsustains (.action hlevel hkind hread.items)).bind ?_
    rintro ⟨found, after⟩ ⟨found', after'⟩ hfound
    cases hfound with
    | node hvalue hstate => exact .pure (.node hvalue ⟨hstate.toLevel.leaveAction, hstate.items⟩)
    | ending hlevel hends => exact .pure (.ending hlevel.leaveAction hends)
  next => exact .unexpected

theorem follow_statements (hsustains : Sustains setting answers)
    (hcoupled : s.Coupled frames low high t) :
    (Script.statements setting s).Follow setting answers
      (BodiesAlike (List.map Node.unplaced) frames low high) (Script.statements setting t) := by
  refine .ite (by rw [hcoupled.kind_peek_skipSpaces_eq]) (fun _ ↦ .fail) fun _ ↦ ?_
  refine (follow_call hsustains (.statement hcoupled)).bind ?_
  rintro ⟨first, afterFirst⟩ ⟨first', afterFirst'⟩ hfirst
  cases hfirst with
  | ending hlevel hends => exact .pure ⟨rfl, hlevel, hends⟩
  | node hnode hafter =>
    refine (follow_call hsustains (.statements hafter)).bind ?_
    rintro ⟨⟨nodes, ending⟩, after⟩ ⟨⟨nodes', ending'⟩, after'⟩ ⟨hnodes, hlevel, hends⟩
    exact .pure ⟨by rw [List.map_cons, List.map_cons, hnode, hnodes], hlevel, hends⟩

/-! ### Bodies -/

theorem follow_body (hanswers : AreAnswers setting answers) (hsustains : Sustains setting answers)
    (hcoupled : s.Coupled frames low high t) :
    (Script.body setting s).Follow setting answers (BodiesAlike Body.unplaced frames low high)
      (Script.body setting t) := by
  refine Steps.Follow.bind (.lift (accords_checkDepth hcoupled.toLevel)) fun _ _ _ ↦ ?_
  have hinside : s.enter.Coupled frames (low + 1) (high + 1) t.enter :=
    ⟨hcoupled.toLevel.enter, hcoupled.items⟩
  refine (follow_call hsustains (.statements hinside)).bind ?_
  rintro ⟨⟨nodes, ending⟩, after⟩ ⟨⟨nodes', ending'⟩, after'⟩ ⟨hnodes, hlevel, hends⟩
  have hleave : (Steps.call .leave after).Follow setting answers
      (fun found found' ↦ found.2 = after.leave ∧ found'.2 = after'.leave)
      (Steps.call .leave after') := by
    refine .of_eval hanswers ?_
    rw [Steps.eval_call, Steps.eval_call]
    exact ⟨rfl, rfl⟩
  refine hleave.bind ?_
  rintro ⟨_, _⟩ ⟨_, _⟩ ⟨rfl, rfl⟩
  refine .pure ⟨?_, hlevel.leave, hends⟩
  rw [Body.unplaced_mk, Body.unplaced_mk, hnodes]

theorem follow_branchBody (hanswers : AreAnswers setting answers)
    (hsustains : Sustains setting answers) (hcoupled : s.Coupled frames low high t)
    (kind : BranchKind) :
    (Script.branchBody kind s).Follow setting answers (BodiesAlike Body.unplaced frames low high)
      (Script.branchBody kind t) := by
  have hinside : (s.enterBranch kind).Coupled frames low high (t.enterBranch kind) :=
    ⟨hcoupled.toLevel.enterBranch kind, hcoupled.items⟩
  refine (follow_call hsustains (.body hinside)).bind ?_
  rintro ⟨⟨found, ending⟩, after⟩ ⟨⟨found', ending'⟩, after'⟩ ⟨hfound, hlevel, hends⟩
  have hleave : (Steps.call (.leaveBranch kind) after).Follow setting answers
      (fun found found' ↦ found.2 = after.leaveBranch kind ∧ found'.2 = after'.leaveBranch kind)
      (Steps.call (.leaveBranch kind) after') := by
    refine .of_eval hanswers ?_
    rw [Steps.eval_call, Steps.eval_call]
    exact ⟨rfl, rfl⟩
  refine hleave.bind ?_
  rintro ⟨_, _⟩ ⟨_, _⟩ ⟨rfl, rfl⟩
  exact .pure ⟨hfound, hlevel.leaveBranch kind, hends⟩

theorem follow_nestedBody (hsustains : Sustains setting answers) {word : Keyword}
    (hcoupled : s.Coupled ((word, 0) :: frames) low high t) (clause : Clause) :
    (Script.nestedBody setting clause s).Follow setting answers
      (FoundAlike Body.unplaced frames low high) (Script.nestedBody setting clause t) := by
  have hinside : s.enterTemplate.Coupled ((word, 0) :: frames) low high t.enterTemplate :=
    ⟨hcoupled.toLevel.enterTemplate, hcoupled.items⟩
  refine (follow_call hsustains (.body hinside)).bind ?_
  rintro ⟨⟨inner, ending⟩, after⟩ ⟨⟨inner', ending'⟩, after'⟩ ⟨hinner, hlevel, hends⟩
  cases ending with
  | otherwise position =>
    obtain ⟨position', rfl⟩ : ∃ position', ending' = .otherwise position' := hends.of_otherwise.1
    exact .fail
  | finished =>
    obtain ⟨rfl, rest, hnone, hrest⟩ : ending' = .finished ∧ ∃ rest,
      StartsWithEnds 0 after'.rest rest ∧ Unfolds frames after.rest rest := hends.of_finished
    generalize hafter : after'.rest = others at hnone
    cases hnone with
    | none =>
      exact .pure ⟨hinner, hlevel.leaveTemplate hcoupled.toLevel, hafter ▸ hrest⟩

/-! ### A structure in an action of its own -/

/-- The state in which so many items are left, on some line of some action. -/
def State.relocated (s : State) (line : Nat) (actionLine : Option Nat) (items : List Item) :
    State :=
  { s with line := line, rest := items, actionLine := actionLine }

/-- What an action is that opens a structure, with the state behind the word that opens it. -/
theorem exists_run_action {kind : BranchKind} {rest : List Item}
    (hopens : StartsWith (.keyword (branchWord kind)) t.rest rest) (setting : Setting) :
    ∃ line, Call.action.run setting t = do
      let found ← (Call.control kind).run setting (t.relocated line t.actionLine rest)
      return (.node found.1, found.2) := by
  obtain ⟨word, hword, hnext⟩ := eval_nextItem_of_startsWith hopens setting .command
  refine ⟨word.position.line, ?_⟩
  have hcontrol (kind : BranchKind) (inside : State) :
      (Script.asStatement (Steps.call (.control kind) inside)).eval setting = do
        let found ← (Call.control kind).run setting inside
        return (.node found.1, found.2) := by
    rw [Script.asStatement, Steps.eval_bind, Steps.eval_call]
    rfl
  rw [Call.run_eq, Call.script, Script.action, Steps.eval_bind, hnext, ok_bind]
  dsimp only
  rw [hword]
  cases kind with
  | conditional => exact hcontrol .conditional _
  | loop => exact hcontrol .loop _
  | context => exact hcontrol .context _

/-- What an action is that ends a structure. -/
theorem exists_run_endAction {afterWord rest : List Item}
    (hword : StartsWith (.keyword .endWord) t.rest afterWord)
    (hclosing : StartsWith .rightDelim afterWord rest) (setting : Setting) :
    ∃ line, Call.action.run setting t =
      .ok (.ending .finished, t.relocated line t.actionLine rest) := by
  obtain ⟨word, hkind, hnext⟩ := eval_nextItem_of_startsWith hword setting .command
  obtain ⟨closer, hcloser⟩ := @eval_expect_of_startsWith
    (t.relocated word.position.line t.actionLine afterWord) rest hclosing setting .closing
  refine ⟨closer.position.line, ?_⟩
  rw [Call.run_eq, Call.script, Script.action, Steps.eval_bind, hnext, ok_bind]
  dsimp only
  rw [hkind]
  change Steps.eval setting (Script.endControl setting
    (t.relocated word.position.line t.actionLine afterWord)) = _
  rw [Script.endControl, Steps.eval_bind, hcloser]
  rfl

section Delimited

variable {others : List Item} (hdelimiter : StartsWith .leftDelim t.rest others)

include hdelimiter

/-- What a statement is that starts with a delimiter: the action behind it. -/
theorem exists_run_delimited (setting : Setting) :
    ∃ line, Call.statement.run setting t = do
      let found ← Call.action.run setting (t.relocated line (some line) others)
      return (found.1, found.2.leaveAction) := by
  obtain ⟨item, hitem, hnext⟩ := eval_nextItem_of_startsWith hdelimiter setting .input
  refine ⟨item.position.line, ?_⟩
  rw [Call.run_eq, Call.script, Script.statement, Steps.eval_bind, hnext, ok_bind]
  dsimp only
  rw [hitem]
  change Steps.eval setting (Steps.call .action (t.relocated item.position.line
    (some item.position.line) others) >>= _) = _
  rw [Steps.eval_bind, Steps.eval_call]
  rfl

/-- What statements are that start with a delimiter: those with the statement behind it first. -/
theorem run_statements_of_delimited (setting : Setting) :
    Call.statements.run setting t = do
      let found ← Call.statement.run setting t
      match found.1 with
      | .ending ending => return (([], ending), found.2)
      | .node node =>
        let more ← Call.statements.run setting found.2
        return ((node :: more.1.1, more.1.2), more.2) := by
  have hpeek : t.skipSpaces.peek.kind ≠ .eof := by
    rw [State.kind_peek_skipSpaces, hdelimiter.headKind_eq]
    simp
  rw [Call.run_eq, Call.script, Script.statements, if_neg hpeek, Steps.eval_bind, Steps.eval_call]
  refine bind_congr ?_
  rintro ⟨node | ending, after⟩
  · change Steps.eval setting (Steps.call .statements after >>= _) = _
    rw [Steps.eval_bind, Steps.eval_call]
    rfl
  · rfl

end Delimited

/-- What a statement is that opens a structure. -/
theorem exists_run_statement {kind : BranchKind} {others rest : List Item}
    (hdelimiter : StartsWith .leftDelim t.rest others)
    (hopens : StartsWith (.keyword (branchWord kind)) others rest) (setting : Setting) :
    ∃ line actionLine, Call.statement.run setting t = do
      let found ← (Call.control kind).run setting (t.relocated line actionLine rest)
      return (.node found.1, found.2.leaveAction) := by
  obtain ⟨outer, hstatement⟩ := exists_run_delimited hdelimiter setting
  obtain ⟨line, haction⟩ :=
    @exists_run_action (t.relocated outer (some outer) others) kind rest hopens setting
  refine ⟨line, some outer, ?_⟩
  rw [hstatement, haction, bind_assoc]
  rfl

/-- What a body is that starts with a structure. -/
theorem exists_run_body {kind : BranchKind} {others rest : List Item}
    (hdelimiter : StartsWith .leftDelim t.rest others)
    (hopens : StartsWith (.keyword (branchWord kind)) others rest) (setting : Setting) :
    ∃ position line actionLine, Call.body.run setting t = do
      checkDepth setting t
      let found ← (Call.control kind).run setting (t.enter.relocated line actionLine rest)
      let more ← Call.statements.run setting found.2.leaveAction
      return ((⟨position, found.1 :: more.1.1⟩, more.1.2), more.2.leave) := by
  have hentered : StartsWith .leftDelim t.enter.rest others := hdelimiter
  obtain ⟨line, actionLine, hstatement⟩ := exists_run_statement hentered hopens setting
  refine ⟨t.skipSpaces.peek.position, line, actionLine, ?_⟩
  rw [Call.run_eq, Call.script, Script.body, Steps.eval_bind, Steps.eval_liftM]
  refine bind_congr fun _ ↦ ?_
  rw [Steps.eval_bind, Steps.eval_call, run_statements_of_delimited hentered, hstatement]
  simp only [bind_assoc, pure_bind]
  rfl

/-- What statements are of which an end is the first. -/
theorem exists_run_statements {count : Nat} {rest : List Item}
    (hends : StartsWithEnds (count + 1) t.rest rest) (setting : Setting) :
    ∃ line afterEnd, StartsWithEnds count afterEnd rest ∧ Call.statements.run setting t =
      .ok (([], .finished), t.relocated line none afterEnd) := by
  generalize hitems : t.rest = items at hends
  cases hends with
  | @more _ opening others afterWord afterEnd _ hopening hword hclosing hmore =>
    have hdelimiter : StartsWith .leftDelim t.rest others := hitems ▸ .here hopening (by simp)
    obtain ⟨outer, hstatement⟩ := exists_run_delimited hdelimiter setting
    obtain ⟨line, haction⟩ := @exists_run_endAction (t.relocated outer (some outer) others)
      afterWord afterEnd hword hclosing setting
    refine ⟨line, afterEnd, hmore, ?_⟩
    rw [run_statements_of_delimited hdelimiter, hstatement, haction]
    rfl

/-- A structure that the first parse goes on with is read in step with a body of the second that
holds the structure alone, and one of the ends behind it. -/
theorem follow_unfolded (hsustains : Sustains setting answers) (hlevel : s.Level low high t)
    {kind : BranchKind} {count : Nat} {first opening : Item} {items others rest : List Item}
    (hfirst : s.rest = first :: items) (hother : t.rest = opening :: others)
    (hopening : opening.kind = .leftDelim)
    (hopens : StartsWith (.keyword (branchWord kind)) others rest)
    (hrest : Unfolds ((branchWord kind, count + 1) :: frames) items rest) :
    (Steps.call (.control kind) s.advance).Follow setting answers
      (fun found found' ↦ found'.1.1.unplaced = ⟨{}, [found.1.unplaced]⟩ ∧
        found'.1.2 = .finished ∧ found.2.Level low high found'.2 ∧
          ∃ rest, StartsWithEnds count found'.2.rest rest ∧ Unfolds frames found.2.rest rest)
      (Steps.call .body t) := by
  have hdelimiter : StartsWith .leftDelim t.rest others := hother ▸ .here hopening (by simp)
  obtain ⟨position, line, actionLine, hbody⟩ := exists_run_body hdelimiter hopens setting
  have heval : (Steps.call .body t).eval setting = Steps.eval setting (do
      checkDepth setting t
      let found ← Steps.call (.control kind) (t.enter.relocated line actionLine rest)
      let more ← Steps.call .statements found.2.leaveAction
      return ((⟨position, found.1 :: more.1.1⟩, more.1.2), more.2.leave)) := by
    simp only [Steps.eval_bind, Steps.eval_call, Steps.eval_liftM, Steps.eval_pure, hbody]
  refine .of_bind_pure (.congr_right (.checkDepth t ?_) heval)
  obtain ⟨hvisible, htrees, hloops, hlow, hhigh, hle⟩ := hlevel
  have hdeeper : s.advance.Coupled ((branchWord kind, count + 1) :: frames) low (high + 1)
      (t.enter.relocated line actionLine rest) := by
    rw [State.advance, hfirst]
    exact ⟨⟨hvisible, htrees, hloops, hlow, congrArg (· + 1) hhigh, by omega⟩, hrest⟩
  refine (follow_call hsustains (.control hdeeper)).bind ?_
  rintro ⟨inner, after⟩ ⟨inner', after'⟩ ⟨hinner, hlevel, rest, hends, hrest⟩
  obtain ⟨line, afterEnd, hmore, hstatements⟩ :=
    @exists_run_statements after'.leaveAction count rest hends setting
  have hlast : Steps.eval setting (do
      let more ← Steps.call .statements after'.leaveAction
      return (((⟨position, inner' :: more.1.1⟩ : Body), more.1.2), more.2.leave)) =
        Steps.eval setting (pure ((⟨position, [inner']⟩, .finished),
          (after'.leaveAction.relocated line none afterEnd).leave)) := by
    rw [Steps.eval_bind, Steps.eval_call, hstatements]
    rfl
  refine .congr_right (.pure ⟨?_, rfl, ?_, rest, hmore, hrest⟩) hlast
  · rw [Body.unplaced_mk, List.map_singleton, ← hinner]
  · obtain ⟨hvisible, htrees, hloops, hlow, hhigh, -⟩ := hlevel
    exact ⟨hvisible, htrees, hloops, hlow, congrArg (· - 1) hhigh, hle⟩

/-! ### Control structures -/

theorem unplaced_branch (kind : BranchKind) (position : Position) (head : Pipeline) (body : Body)
    (otherwise : Option Body) :
    (Node.branch kind position head body otherwise).unplaced =
      .branch kind {} head.unplaced body.unplaced (otherwise.map Body.unplaced) := by
  cases otherwise <;> rfl

/-- A word that goes on with a structure is that of the structure. -/
theorem continuing?_of_unfolded {kind : BranchKind}
    (hword : branchWord kind = .ifWord ∨ branchWord kind = .withWord) :
    continuing? kind = some (branchWord kind) := by
  cases kind with
  | conditional => rfl
  | context => rfl
  | loop => rcases hword with hword | hword <;> cases hword

theorem follow_control (hsustains : Sustains setting answers) {kind : BranchKind} {count : Nat}
    (hcoupled : s.Coupled ((branchWord kind, count) :: frames) low high t) :
    (Script.control setting kind s).Follow setting answers (ControlsAlike count frames low high)
      (Script.control setting kind t) := by
  have hvariables : s.visible.length = t.visible.length := congrArg _ hcoupled.visible
  refine (follow_call hsustains (.pipeline (clauseOf kind) (by simp) hcoupled)).bind ?_
  rintro ⟨head, afterHead⟩ ⟨head', afterHead'⟩ ⟨hhead, hafterHead⟩
  refine (follow_call hsustains (.branchBody kind hafterHead)).bind ?_
  rintro ⟨⟨first, ending⟩, afterFirst⟩ ⟨⟨first', ending'⟩, afterFirst'⟩ ⟨hfirst, hlevel, hends⟩
  dsimp only at hhead hfirst hlevel hends ⊢
  cases ending with
  | finished =>
    obtain ⟨rfl, hrest⟩ := hends.of_finished
    refine .pure ⟨?_, hvariables ▸ hlevel.keepVariables _, hrest⟩
    rw [unplaced_branch, unplaced_branch, hhead, hfirst]
  | otherwise position =>
    obtain ⟨⟨position', rfl⟩, hrest | ⟨word, outerCount, outer, next, items, opening, others, rest,
      hframes, hword, hitems, hnext, hothers, hopening, hopens, hrest⟩⟩ := hends.of_otherwise
    · have hafter : afterFirst.Coupled ((branchWord kind, count) :: frames) low high afterFirst' :=
        ⟨hlevel, hrest⟩
      refine .ite (by rw [hafter.kind_peek_eq]) (fun hcontinues ↦ ?_) fun _ ↦ ?_
      · have hadvance := hafter.advance fun hleft ↦ by simp [hleft] at hcontinues
        refine (follow_call hsustains (.control hadvance)).bind ?_
        rintro ⟨inner, after⟩ ⟨inner', after'⟩ ⟨hinner, hlevel, hrest⟩
        refine .pure ⟨?_, hvariables ▸ hlevel.keepVariables _, hrest⟩
        rw [unplaced_branch, unplaced_branch, hhead, hfirst, Option.map_some, Option.map_some,
          Body.unplaced_mk, Body.unplaced_mk, List.map_singleton, List.map_singleton, hinner]
      · refine (follow_call hsustains (.body hafter)).bind ?_
        rintro ⟨⟨second, last⟩, after⟩ ⟨⟨second', last'⟩, after'⟩ ⟨hsecond, hlevel, hends⟩
        dsimp only at hsecond hlevel hends ⊢
        cases last with
        | otherwise position =>
          obtain ⟨⟨position', rfl⟩, -⟩ := hends.of_otherwise
          exact .fail
        | finished =>
          obtain ⟨rfl, hrest⟩ := hends.of_finished
          refine .pure ⟨?_, hvariables ▸ hlevel.keepVariables _, hrest⟩
          rw [unplaced_branch, unplaced_branch, hhead, hfirst, Option.map_some, Option.map_some,
            hsecond]
    · obtain ⟨⟨rfl, rfl⟩, rfl⟩ :
          (branchWord kind = word ∧ count = outerCount) ∧ frames = outer := by
        simpa using hframes
      have hcontinuing := continuing?_of_unfolded hword
      have hcontinues : (continuing? kind).any fun word ↦
          afterFirst.peek.kind = .keyword word := by
        rw [hcontinuing, State.peek, hitems]
        simpa using hnext
      have hcloses : ¬ (continuing? kind).any fun word ↦
          afterFirst'.peek.kind = .keyword word := by
        rw [hcontinuing, State.peek, hothers]
        simp [hopening]
      dsimp only
      rw [if_pos hcontinues, if_neg hcloses]
      refine (follow_unfolded hsustains hlevel hitems hothers hopening hopens hrest).bind ?_
      rintro ⟨inner, after⟩ ⟨⟨second, last⟩, after'⟩ ⟨hinner, hlast, hlevel, hrest⟩
      obtain rfl : last = .finished := hlast
      refine .pure ⟨?_, hvariables ▸ hlevel.keepVariables _, hrest⟩
      rw [unplaced_branch, unplaced_branch, hhead, hfirst, Option.map_some, Option.map_some,
        Body.unplaced_mk, List.map_singleton]
      exact congrArg (fun other ↦ Node.branch kind {} _ _ (some other)) hinner.symm

/-! ### Definitions -/

/-- A tree goes into two sets that are the same up to positions, or into neither. -/
theorem accords_define (hlevel : s.Level low high t) {tree tree' : Tree}
    (htree : tree.unplaced = tree'.unplaced) :
    Accords (fun trees trees' ↦ trees.unplaced = trees'.unplaced) (some (define setting s tree))
      (define setting t tree') := by
  have hname : tree.unplaced.name = tree'.unplaced.name := congrArg Tree.name htree
  change tree.name = tree'.name at hname
  have hempty : tree.isEmpty = tree'.isEmpty := by
    rw [← tree.isEmpty_mapPosition fun _ ↦ {}, ← tree'.isEmpty_mapPosition fun _ ↦ {}]
    exact congrArg Tree.isEmpty htree
  have hcontent : s.trees.hasContent tree.name = t.trees.hasContent tree'.name := by
    rw [← s.trees.hasContent_mapPosition fun _ ↦ {}, ← t.trees.hasContent_mapPosition fun _ ↦ {},
      hname]
    exact congrArg (TreeSet.hasContent · tree'.name) hlevel.trees
  unfold define
  rw [hcontent, hempty]
  split
  next => trivial
  next =>
    change (s.trees.merge tree).unplaced = (t.trees.merge tree').unplaced
    rw [TreeSet.unplaced, TreeSet.unplaced, ← TreeSet.merge_mapPosition,
      ← TreeSet.merge_mapPosition]
    exact congrArg₂ TreeSet.merge hlevel.trees htree

theorem unplaced_tree (name parseName : String) {root root' : Body}
    (hroot : root.unplaced = root'.unplaced) :
    (Tree.mk name parseName root).unplaced = (Tree.mk name parseName root').unplaced :=
  congrArg (Tree.mk name parseName) hroot

theorem follow_blockControl (hanswers : AreAnswers setting answers)
    (hsustains : Sustains setting answers)
    (hcoupled : s.Coupled ((.blockWord, 0) :: frames) low high t) :
    (Script.blockControl setting s).Follow setting answers
      (FoundAlike Node.unplaced frames low high) (Script.blockControl setting t) := by
  refine (follow_templateName hanswers hcoupled .block).bind ?_
  rintro ⟨⟨name, position⟩, afterName⟩ ⟨⟨name', position'⟩, afterName'⟩ ⟨hname, hafterName⟩
  obtain rfl : name = name' := hname
  refine (follow_call hsustains (.pipeline .block (by simp) hafterName)).bind ?_
  rintro ⟨argument, afterHead⟩ ⟨argument', afterHead'⟩ ⟨hargument, hafterHead⟩
  refine (follow_call hsustains (.nestedBody .block hafterHead)).bind ?_
  rintro ⟨inner, after⟩ ⟨inner', after'⟩ ⟨hinner, hafter⟩
  refine Steps.Follow.bind (.lift (accords_define hafter.toLevel (unplaced_tree _ _ hinner))) ?_
  intro trees trees' htrees
  refine .pure ⟨?_, hafter.toLevel.setTrees htrees, hafter.items⟩
  exact congrArg (fun inner ↦ Node.template {} name (some inner)) hargument

theorem follow_definition (hanswers : AreAnswers setting answers)
    (hsustains : Sustains setting answers)
    (hcoupled : s.Coupled ((.defineWord, 0) :: frames) low high t) :
    (Script.definition setting s).Follow setting answers (FoundAlike id frames low high)
      (Script.definition setting t) := by
  refine (follow_templateName hanswers hcoupled .definition).bind ?_
  rintro ⟨⟨name, position⟩, afterName⟩ ⟨⟨name', position'⟩, afterName'⟩ ⟨hname, hafterName⟩
  obtain rfl : name = name' := hname
  refine (follow_expect hanswers hafterName .definition (by simp)).bind ?_
  rintro ⟨closer, afterHead⟩ ⟨closer', afterHead'⟩ ⟨-, hafterHead⟩
  refine (follow_call hsustains (.nestedBody .definition hafterHead)).bind ?_
  rintro ⟨inner, after⟩ ⟨inner', after'⟩ ⟨hinner, hafter⟩
  refine Steps.Follow.bind (.lift (accords_define hafter.toLevel (unplaced_tree _ _ hinner))) ?_
  intro trees trees' htrees
  exact .pure ⟨rfl, hafter.toLevel.setTrees htrees, hafter.items⟩

/-- No definition starts with another word. -/
theorem eval_definitionStart?_of_keyword {opening : Item} {items rest : List Item}
    (hrest : s.rest = opening :: items) {word : Keyword} (hword : word ≠ .defineWord)
    (hstarts : StartsWith (.keyword word) items rest) (setting : Setting) :
    (Script.definitionStart? s).eval setting = .ok none := by
  obtain ⟨item, hdrop, hkind⟩ := hstarts.dropSpaces
  have hadvance : s.advance.rest = items := by rw [State.advance, hrest]
  rw [Script.definitionStart?]
  split
  next =>
    rw [Steps.eval_bind, Steps.eval_call, Call.run, State.nextFound_of_cons (hadvance ▸ hdrop),
      ok_bind]
    dsimp only
    rw [if_neg (by simpa [hkind] using hword)]
    rfl
  next => rfl

/-- Definitions start at the same places. -/
theorem follow_definitionStart? (hanswers : AreAnswers setting answers)
    (hcoupled : s.Coupled frames low high t) :
    (Script.definitionStart? s).Follow setting answers
      (fun found found' ↦ (found = none ∧ found' = none) ∨ ∃ after after', found = some after ∧
        found' = some after' ∧ after.Coupled ((.defineWord, 0) :: frames) low high after')
      (Script.definitionStart? t) := by
  have hlevel := hcoupled.toLevel
  have hitems := hcoupled.items
  by_cases hopening : s.peek.kind = .leftDelim
  · have hopening' : t.peek.kind = .leftDelim := hcoupled.kind_peek_eq ▸ hopening
    generalize hfirst : s.rest = items at hitems
    generalize hsecond : t.rest = others at hitems
    have hboth {word : Keyword} (hword : word ≠ .defineWord) {first second : Item}
        {items others rest rest' : List Item} (hfirst : s.rest = first :: items)
        (hsecond : t.rest = second :: others) (hstarts : StartsWith (.keyword word) items rest)
        (hstarts' : StartsWith (.keyword word) others rest') :
        (Script.definitionStart? s).Follow setting answers
          (fun found found' ↦ (found = none ∧ found' = none) ∨ ∃ after after', found = some after ∧
            found' = some after' ∧ after.Coupled ((.defineWord, 0) :: frames) low high after')
          (Script.definitionStart? t) := by
      refine .of_eval hanswers ?_
      rw [eval_definitionStart?_of_keyword hfirst hword hstarts,
        eval_definitionStart?_of_keyword hsecond hword hstarts']
      exact .inl ⟨rfl, rfl⟩
    cases hitems with
    | finished =>
      rw [State.peek, hfirst] at hopening
      cases hopening
    | item _ hkind =>
      rw [State.peek, hfirst] at hopening
      exact absurd hopening hkind
    | action _ _ _ hrest =>
      have hadvance : s.advance.Coupled (pushed (headKind s.advance.rest) frames) low high
          t.advance := by
        rw [State.advance, State.advance, hfirst, hsecond]
        exact ⟨hlevel.read _ _ _ _, hrest⟩
      rw [Script.definitionStart?, Script.definitionStart?, if_pos hopening, if_pos hopening']
      refine (follow_item hanswers hadvance).bind ?_
      rintro ⟨found, after⟩ ⟨found', after'⟩
        (⟨rfl, rfl⟩ | ⟨word, _, word', _, hfound, hfound', hread, hkind⟩)
      · exact .pure (.inl ⟨rfl, rfl⟩)
      · cases hfound
        cases hfound'
        dsimp only
        rw [← hread.kind_eq]
        by_cases hdefine : word.kind = .keyword .defineWord
        · rw [if_pos hdefine, if_pos hdefine]
          rw [← hkind, hdefine] at hread
          exact .pure (.inr ⟨after, after', rfl, rfl, hread.coupled (by simp [hdefine])⟩)
        · rw [if_neg hdefine, if_neg hdefine]
          exact .pure (.inl ⟨rfl, rfl⟩)
    | unfolded _ _ _ helse _ helse' => exact hboth (by simp) hfirst hsecond helse helse'
    | ended _ _ hend _ hend' => exact hboth (by simp) hfirst hsecond hend hend'
  · have hopening' : t.peek.kind ≠ .leftDelim := hcoupled.kind_peek_eq ▸ hopening
    rw [Script.definitionStart?, Script.definitionStart?, if_neg hopening, if_neg hopening']
    exact .pure (.inl ⟨rfl, rfl⟩)

/-! ### Sources -/

theorem follow_root (hanswers : AreAnswers setting answers) (hsustains : Sustains setting answers)
    (hcoupled : s.Coupled frames low high t) :
    (Script.root setting s).Follow setting answers
      (FoundAlike (List.map Node.unplaced) frames low high) (Script.root setting t) := by
  refine .ite (by rw [hcoupled.kind_peek_eq]) (fun _ ↦ .pure ⟨rfl, hcoupled⟩) fun _ ↦ ?_
  refine (follow_definitionStart? hanswers hcoupled).bind ?_
  rintro found found' (⟨rfl, rfl⟩ | ⟨afterWord, afterWord', rfl, rfl, hafterWord⟩)
  · refine (follow_call hsustains (.statement hcoupled)).bind ?_
    rintro ⟨first, afterFirst⟩ ⟨first', afterFirst'⟩ hfirst
    cases hfirst with
    | node hnode hafter =>
      refine (follow_call hsustains (.root hafter)).bind ?_
      rintro ⟨nodes, after⟩ ⟨nodes', after'⟩ ⟨hnodes, hafter⟩
      exact .pure ⟨by rw [List.map_cons, List.map_cons, hnode, hnodes], hafter⟩
    | @ending ending ending' =>
      cases ending <;> cases ending' <;> exact .fail
  · refine (follow_call hsustains (.definition hafterWord)).bind ?_
    rintro ⟨_, after⟩ ⟨_, after'⟩ ⟨-, hafter⟩
    exact follow_call hsustains (.root hafter)

theorem follow_source (hsustains : Sustains setting answers)
    (hcoupled : s.Coupled frames low high t) :
    (Script.source setting s).Follow setting answers
      (fun found found' ↦ found.1.unplaced = found'.1.unplaced) (Script.source setting t) := by
  refine (follow_call hsustains (.root hcoupled)).bind ?_
  rintro ⟨nodes, after⟩ ⟨nodes', after'⟩ ⟨hnodes, hafter⟩
  have hbody (position position' : Position) :
      Body.unplaced ⟨position, nodes⟩ = Body.unplaced ⟨position', nodes'⟩ := by
    rw [Body.unplaced_mk, Body.unplaced_mk, hnodes]
  refine Steps.Follow.bind (.lift (accords_define hafter.toLevel (unplaced_tree _ _ (hbody _ _))))
    ?_
  exact fun trees trees' htrees ↦ .pure htrees

/-- Calls that are paired have steps that go together. -/
theorem Paired.follow_script (hanswers : AreAnswers setting answers)
    (hsustains : Sustains setting answers) {α : Type} {c : Call α}
    {related : α × State → α × State → Prop} (hpaired : Paired c s t related) :
    (c.script setting s).Follow setting answers related (c.script setting t) := by
  cases hpaired with
  | declarations clause more hcoupled =>
    exact follow_declarations hanswers hsustains hcoupled clause more
  | operand hcoupled => exact follow_operand hanswers hsustains hcoupled
  | operands hcoupled => exact follow_operands hsustains hcoupled
  | command hcoupled => exact follow_command hsustains hcoupled
  | commands clause hcloser hcoupled =>
    exact follow_commands hanswers hsustains hcoupled clause hcloser
  | pipeline clause hcloser hcoupled => exact follow_pipeline hsustains hcoupled clause hcloser
  | action hlevel hopening hitems => exact follow_action hanswers hsustains hlevel hopening hitems
  | statement hcoupled => exact follow_statement hanswers hsustains hcoupled
  | statements hcoupled => exact follow_statements hsustains hcoupled
  | body hcoupled => exact follow_body hanswers hsustains hcoupled
  | branchBody kind hcoupled => exact follow_branchBody hanswers hsustains hcoupled kind
  | nestedBody clause hcoupled => exact follow_nestedBody hsustains hcoupled clause
  | control hcoupled => exact follow_control hsustains hcoupled
  | blockControl hcoupled => exact follow_blockControl hanswers hsustains hcoupled
  | definition hcoupled => exact follow_definition hanswers hsustains hcoupled
  | root hcoupled => exact follow_root hanswers hsustains hcoupled

end Steps

/-- Paired calls are answered in step, however many calls may be open. -/
theorem sustains_evaluate (setting : Setting) (depth : Nat) :
    Sustains setting fun {_} c s ↦ Call.evaluate setting depth c s := by
  induction depth with
  | zero =>
    intro β c s t related _
    trivial
  | succ depth ih =>
    intro β c s t related hpaired
    rw [Call.run_eq]
    exact hpaired.follow_script (areAnswers_evaluate setting depth) ih

end Parse

/-- Two sources whose items differ in else actions that are written in two actions give the same
trees up to positions, or are both refused, or the longer one is refused for being too deep. -/
theorem accords_parse {delimiters : Delimiters} {short long : String}
    (hunfolds : Unfolds [] (lex delimiters short) (lex delimiters long)) (name : String)
    (isFunction : String → Bool) :
    Accords (fun trees trees' ↦ trees.unplaced = trees'.unplaced)
      (some (parse name delimiters isFunction short)) (parse name delimiters isFunction long) := by
  have hcoupled : (State.initial (lex delimiters short)).Coupled [] 0 0
      (State.initial (lex delimiters long)) :=
    ⟨⟨rfl, rfl, rfl, rfl, rfl, le_rfl⟩, hunfolds⟩
  have hends := (halts ⟨name, isFunction⟩ (haveEnd_lex delimiters short)).ends
  have hfollow := follow_source (sustains_evaluate ⟨name, isFunction⟩
    (Call.ranks * (lex delimiters short).length + (Call.ranks - 1))) hcoupled
  change Call.evaluate _ (Call.ranks * (lex delimiters short).length + (Call.ranks - 1) + 1) _ _ =
    _ at hends
  rw [Call.evaluate, Call.script] at hends
  rw [Steps.Follow, hends] at hfollow
  rw [parse_eq_run, parse_eq_run]
  refine .map _ _ ?_
  rw [Call.run_eq _ _ (State.initial (lex delimiters long))]
  exact hfollow

end Stencil.Syntax
