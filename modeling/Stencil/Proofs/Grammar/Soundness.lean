import Stencil.Proofs.Grammar.Steps

/-!
# What the parser reads is derived

Every part of the grammar that the parser reads has a derivation. The proof follows the recursion of
the parser: one theorem for each of its mutually recursive functions, with the same measure.
-/

set_option autoImplicit false
set_option relaxedAutoImplicit false

namespace Stencil.Syntax.Parse

/-! ### Pipelines -/

/-- No operand is read where none can start. -/
theorem startsOperand_of_operand {setting : Setting} {s : State}
    (hparse : operand setting s = .ok none) : startsOperand s.skipSpaces.peek.kind = false := by
  rw [operand] at hparse
  split at hparse
  next hnext =>
    rw [next_eq_none_iff] at hnext
    rw [State.peek, hnext]
    rfl
  next item afterItem h1 hnext =>
    rw [(next_eq_some_iff.mp hnext).peek_eq]
    dsimp only at hparse
    split at hparse
    next =>
      obtain ⟨_, _, hparse⟩ := bind_eq_ok.mp hparse
      obtain ⟨_, _, hparse⟩ := bind_eq_ok.mp hparse
      obtain ⟨_, _, hresult⟩ := bind_eq_ok.mp hparse
      cases hresult
    next hkind =>
      obtain ⟨term, hterm, hparse⟩ := bind_eq_ok.mp hparse
      cases term with
      | none => exact (simpleTerm_eq_none_iff.mp hterm).resolve_right hkind
      | some term =>
        obtain ⟨_, _, hresult⟩ := bind_eq_ok.mp hparse
        cases hresult

mutual

theorem derives_of_pipeline {setting : Setting} {clause : Clause} {closer : ItemKind} (s : State)
    {reading : Reading Pipeline s} (hparse : pipeline setting clause closer s = .ok reading) :
    DerivesPhrase setting (.pipeline clause closer reading.value) s reading.state := by
  rw [pipeline] at hparse
  obtain ⟨⟨declared, afterDeclarations, h1⟩, hdeclared, hparse⟩ := bind_eq_ok.mp hparse
  obtain ⟨⟨found, after, h2⟩, hcommands, hparse⟩ := bind_eq_ok.mp hparse
  obtain ⟨_, hcheck, hresult⟩ := bind_eq_ok.mp hparse
  obtain ⟨hvalue, hcallable⟩ := checkCommands_eq_ok_iff.mp hcheck
  cases hresult
  exact .pipeline (declares_of_declarations hdeclared)
    (derives_of_commands afterDeclarations hcommands) hvalue hcallable
termination_by 5 * s.rest.length + 4
decreasing_by
  omega

theorem derives_of_commands {setting : Setting} {clause : Clause} {closer : ItemKind} (s : State)
    {reading : Reading (List Command) s}
    (hparse : commands setting clause closer s = .ok reading) :
    DerivesPhrase setting (.commands closer reading.value) s reading.state := by
  rw [commands] at hparse
  obtain ⟨⟨item, afterItem, h1⟩, hitem, hparse⟩ := bind_eq_ok.mp hparse
  have hread := nextItem_eq_ok_iff.mp hitem
  dsimp only at hparse
  split at hparse
  next hcloser =>
    cases hparse
    exact .commandsEnd hread hcloser
  next hcloser =>
    split at hparse
    next hstart =>
      obtain ⟨⟨first, afterFirst, h2⟩, hfirst, hparse⟩ := bind_eq_ok.mp hparse
      obtain ⟨⟨others, after, h3⟩, hothers, hresult⟩ := bind_eq_ok.mp hparse
      cases hresult
      exact .commandsMore hread hcloser hstart (derives_of_command s hfirst)
        (derives_of_commands afterFirst hothers)
    next => exact absurd hparse unexpected_ne_ok
termination_by 5 * s.rest.length + 3
decreasing_by
  all_goals omega

theorem derives_of_command {setting : Setting} (s : State) {reading : Reading Command s}
    (hparse : command setting s = .ok reading) :
    DerivesPhrase setting (.command reading.value) s reading.state := by
  rw [command] at hparse
  obtain ⟨⟨found, after, _, consumed⟩, hoperands, hparse⟩ := bind_eq_ok.mp hparse
  dsimp only at hparse
  split at hparse
  next hvalue =>
    cases hparse
    exact .command (derives_of_operands s hoperands) hvalue
  next => exact absurd hparse fail_ne_ok
termination_by 5 * s.rest.length + 2
decreasing_by
  omega

theorem derives_of_operands {setting : Setting} (s : State) {found : Operands s}
    (hparse : operands setting s = .ok found) :
    DerivesPhrase setting (.operands found.nodes) s found.state := by
  rw [operands] at hparse
  obtain ⟨first, hfirst, hparse⟩ := bind_eq_ok.mp hparse
  match first, hfirst, hparse with
  | none, hnone, hparse =>
    obtain ⟨⟨_, after, h1⟩, hend, hresult⟩ := bind_eq_ok.mp hparse
    cases hresult
    refine .operandsEnd ?_ (commandEnd_eq_ok_iff.mp hend)
    simpa using startsOperand_of_operand hnone
  | some ⟨first, afterFirst, h1⟩, hfirst, hparse =>
    dsimp only at hparse
    split at hparse
    next hspace =>
      obtain ⟨⟨others, after, h2, _⟩, hothers, hresult⟩ := bind_eq_ok.mp hparse
      cases hresult
      exact .operandsMore (derives_of_operand s.skipSpaces hfirst) hspace
        (derives_of_operands afterFirst.advance hothers)
    next hspace =>
      obtain ⟨⟨_, after, h2⟩, hend, hresult⟩ := bind_eq_ok.mp hparse
      cases hresult
      exact .operandsLast (derives_of_operand s.skipSpaces hfirst) hspace
        (commandEnd_eq_ok_iff.mp hend)
termination_by 5 * s.rest.length + 1
decreasing_by
  all_goals
    have bound := s.skipSpaces_notLonger
    have further := afterFirst.advance_notLonger
    omega

theorem derives_of_operand {setting : Setting} (s : State) {reading : Reading Node s}
    (hparse : operand setting s = .ok (some reading)) :
    DerivesPhrase setting (.operand reading.value) s reading.state := by
  rw [operand] at hparse
  split at hparse
  next => cases hparse
  next item afterItem h1 hnext =>
    have hread := next_eq_some_iff.mp hnext
    dsimp only at hparse
    split at hparse
    next hkind =>
      obtain ⟨_, hdepth, hparse⟩ := bind_eq_ok.mp hparse
      obtain ⟨⟨inner, afterInner, h2⟩, hinner, hparse⟩ := bind_eq_ok.mp hparse
      obtain ⟨⟨node, after, h3⟩, hchained, hresult⟩ := bind_eq_ok.mp hparse
      cases hresult
      exact .parenthesized hread hkind (checkDepth_eq_ok_iff.mp hdepth)
        (derives_of_pipeline afterItem.enter hinner) (chained_eq_ok_iff.mp hchained)
    next =>
      obtain ⟨term, hterm, hparse⟩ := bind_eq_ok.mp hparse
      cases term with
      | none => cases hparse
      | some term =>
        obtain ⟨⟨node, after, h2⟩, hchained, hresult⟩ := bind_eq_ok.mp hparse
        cases hresult
        refine .term hread ?_ (chained_eq_ok_iff.mp hchained)
        rw [← hread.visible_eq]
        exact simpleTerm_eq_some_iff.mp hterm
termination_by 5 * s.rest.length
decreasing_by
  simp only [State.enter]
  omega

end

/-! ### Actions without bodies -/

section Actions

variable {setting : Setting} {s s' : State} {item : Item}

/-- What an end action is parsed to is derived. -/
theorem derives_of_endControl (hread : s'.Reads item s) (hkind : item.kind = .keyword .endWord)
    {reading : Reading Statement s} (hparse : endControl setting s = .ok reading) :
    DerivesPassage setting (.action reading.value) s' reading.state := by
  obtain ⟨⟨closer, after, h1⟩, hcloser, hresult⟩ := bind_eq_ok.mp hparse
  obtain ⟨hclose, hright⟩ := expect_singleton_eq_ok_iff.mp hcloser
  cases hresult
  exact .endAction hread hkind ⟨closer, hclose, hright⟩

/-- What an else action is parsed to is derived. -/
theorem derives_of_elseControl (hread : s'.Reads item s) (hkind : item.kind = .keyword .elseWord)
    {reading : Maybe Statement s} (hparse : elseControl setting s = .ok reading) :
    DerivesPassage setting (.action reading.value) s' reading.state := by
  unfold elseControl at hparse
  split at hparse
  next hcontinues =>
    cases hparse
    exact .elseWord hread hkind hcontinues
  next =>
    obtain ⟨⟨closer, after, h1⟩, hcloser, hresult⟩ := bind_eq_ok.mp hparse
    obtain ⟨hclose, hright⟩ := expect_singleton_eq_ok_iff.mp hcloser
    cases hresult
    exact .elseAction hread hkind hclose hright

/-- What closes a break or continue action stands in a loop. -/
theorem readsKind_of_loopControl {clause : Clause} {node : Node} {reading : Reading Node s}
    (hparse : loopControl setting clause node s = .ok reading) :
    reading.value = node ∧ s.ReadsKind .rightDelim reading.state ∧
      reading.state.loopDepth ≠ 0 := by
  obtain ⟨⟨closer, after, h1⟩, hcloser, hparse⟩ := bind_eq_ok.mp hparse
  dsimp only at hparse
  split at hparse
  next => exact absurd hparse unexpected_ne_ok
  next hkind =>
    split at hparse
    next => exact absurd hparse fail_ne_ok
    next hloop =>
      cases hparse
      exact ⟨rfl, ⟨closer, nextItem_eq_ok_iff.mp hcloser, Decidable.of_not_not hkind⟩, hloop⟩

/-- What the invocation of a template is parsed to is derived. -/
theorem derives_of_templateControl (hread : s'.Reads item s)
    (hkind : item.kind = .keyword .templateWord) {reading : Reading Node s}
    (hparse : templateControl setting s = .ok reading) :
    DerivesPassage setting (.action (.node reading.value)) s' reading.state := by
  obtain ⟨⟨⟨name, position⟩, afterName, h1⟩, hname, hparse⟩ := bind_eq_ok.mp hparse
  obtain ⟨⟨next, afterNext, h2⟩, hitem, hparse⟩ := bind_eq_ok.mp hparse
  have hnext := nextItem_eq_ok_iff.mp hitem
  dsimp only at hparse
  split at hparse
  next hright =>
    cases hparse
    exact .templateBare hread hkind (namesTemplate_iff.mp hname) ⟨next, hnext, hright⟩
  next hopen =>
    obtain ⟨⟨argument, after, h3⟩, hargument, hresult⟩ := bind_eq_ok.mp hparse
    cases hresult
    exact .templateWith hread hkind (namesTemplate_iff.mp hname) hnext hopen
      (derives_of_pipeline afterName hargument)

/-- What a pipeline that is an action of its own is parsed to is derived. -/
theorem derives_of_pipelineAction {after : State} (hread : s.Reads item after)
    (hkind : startsControl item.kind = false) {reading : Reading Node s}
    (hparse : pipelineAction setting s = .ok reading) :
    DerivesPassage setting (.action (.node reading.value)) s reading.state := by
  obtain ⟨⟨inner, afterInner, h1⟩, hinner, hresult⟩ := bind_eq_ok.mp hparse
  cases hresult
  exact .pipelineAction hread hkind (derives_of_pipeline s hinner)

end Actions

/-! ### Bodies -/

mutual

theorem derives_of_body {setting : Setting} (s : State) {reading : Reading (Body × Ending) s}
    (hparse : body setting s = .ok reading) :
    DerivesPassage setting (.body reading.value.1 reading.value.2) s reading.state := by
  rw [body] at hparse
  obtain ⟨_, hdepth, hparse⟩ := bind_eq_ok.mp hparse
  obtain ⟨⟨⟨nodes, ending⟩, after, h1⟩, hnodes, hresult⟩ := bind_eq_ok.mp hparse
  cases hresult
  exact .body (checkDepth_eq_ok_iff.mp hdepth) (derives_of_statements s.enter hnodes)
termination_by 6 * s.rest.length + 4
decreasing_by
  simp only [State.enter]
  omega

theorem derives_of_statements {setting : Setting} (s : State)
    {reading : Reading (List Node × Ending) s} (hparse : statements setting s = .ok reading) :
    DerivesPassage setting (.statements reading.value.1 reading.value.2) s reading.state := by
  rw [statements] at hparse
  split at hparse
  next => exact absurd hparse fail_ne_ok
  next hpeek =>
    obtain ⟨⟨first, afterFirst, h1⟩, hfirst, hparse⟩ := bind_eq_ok.mp hparse
    have hstatement := derives_of_statement s hfirst
    cases first with
    | ending ending =>
      cases hparse
      exact .statementsEnd hpeek hstatement
    | node node =>
      obtain ⟨⟨⟨others, ending⟩, after, h2⟩, hothers, hresult⟩ := bind_eq_ok.mp hparse
      cases hresult
      exact .statementsMore hpeek hstatement (derives_of_statements afterFirst hothers)
termination_by 6 * s.rest.length + 3
decreasing_by
  all_goals omega

theorem derives_of_statement {setting : Setting} (s : State) {reading : Reading Statement s}
    (hparse : statement setting s = .ok reading) :
    DerivesPassage setting (.statement reading.value) s reading.state := by
  rw [statement] at hparse
  obtain ⟨⟨item, afterItem, h1⟩, hitem, hparse⟩ := bind_eq_ok.mp hparse
  have hread := nextItem_eq_ok_iff.mp hitem
  dsimp only at hparse
  split at hparse
  next hkind =>
    cases hparse
    exact .text hread hkind
  next hkind =>
    cases hparse
    exact .comment hread hkind
  next hkind =>
    obtain ⟨⟨found, after, h2⟩, hfound, hresult⟩ := bind_eq_ok.mp hparse
    cases hresult
    exact .delimited hread hkind
      (derives_of_action (afterItem.enterAction item.position.line) hfound)
  next => exact absurd hparse unexpected_ne_ok
termination_by 6 * s.rest.length + 2
decreasing_by
  simp only [State.enterAction]
  omega

theorem derives_of_action {setting : Setting} (s : State) {reading : Reading Statement s}
    (hparse : action setting s = .ok reading) :
    DerivesPassage setting (.action reading.value) s reading.state := by
  rw [action] at hparse
  obtain ⟨⟨item, afterItem, h1⟩, hitem, hparse⟩ := bind_eq_ok.mp hparse
  have hread := nextItem_eq_ok_iff.mp hitem
  dsimp only at hparse
  split at hparse
  next hkind =>
    obtain ⟨⟨node, after, h2⟩, hnode, hresult⟩ := bind_eq_ok.mp hparse
    cases hresult
    exact .blockAction hread hkind (derives_of_blockControl afterItem hnode)
  next hkind =>
    obtain ⟨⟨node, after, h2⟩, hnode, hresult⟩ := bind_eq_ok.mp hparse
    obtain ⟨rfl, hclose, hloop⟩ := readsKind_of_loopControl hnode
    cases hresult
    exact .breakAction hread hkind hclose hloop
  next hkind =>
    obtain ⟨⟨node, after, h2⟩, hnode, hresult⟩ := bind_eq_ok.mp hparse
    obtain ⟨rfl, hclose, hloop⟩ := readsKind_of_loopControl hnode
    cases hresult
    exact .continueAction hread hkind hclose hloop
  next hkind =>
    obtain ⟨⟨found, after, h2⟩, hfound, hresult⟩ := bind_eq_ok.mp hparse
    cases hresult
    exact derives_of_elseControl hread hkind hfound
  next hkind =>
    obtain ⟨⟨found, after, h2⟩, hfound, hresult⟩ := bind_eq_ok.mp hparse
    cases hresult
    exact derives_of_endControl hread hkind hfound
  next hkind =>
    obtain ⟨⟨node, after, h2⟩, hnode, hresult⟩ := bind_eq_ok.mp hparse
    cases hresult
    have hword : item.kind = .keyword (branchWord .conditional) := hkind
    exact .branchAction hread hword (derives_of_control afterItem hnode)
  next hkind =>
    obtain ⟨⟨node, after, h2⟩, hnode, hresult⟩ := bind_eq_ok.mp hparse
    cases hresult
    have hword : item.kind = .keyword (branchWord .loop) := hkind
    exact .branchAction hread hword (derives_of_control afterItem hnode)
  next hkind =>
    obtain ⟨⟨node, after, h2⟩, hnode, hresult⟩ := bind_eq_ok.mp hparse
    cases hresult
    have hword : item.kind = .keyword (branchWord .context) := hkind
    exact .branchAction hread hword (derives_of_control afterItem hnode)
  next hkind =>
    obtain ⟨⟨node, after, h2⟩, hnode, hresult⟩ := bind_eq_ok.mp hparse
    cases hresult
    exact derives_of_templateControl hread hkind hnode
  next hblock hbreak hcontinue helse hend hif hrange hwith htemplate =>
    obtain ⟨⟨node, after, h2⟩, hnode, hresult⟩ := bind_eq_ok.mp hparse
    cases hresult
    exact derives_of_pipelineAction hread (startsControl_eq_false hblock hbreak hcontinue helse hend
      hif hrange hwith htemplate) hnode
termination_by 6 * s.rest.length + 1
decreasing_by
  all_goals omega

theorem derives_of_branchBody {setting : Setting} {kind : BranchKind} (s : State)
    {reading : Reading (Body × Ending) s} (hparse : branchBody setting kind s = .ok reading) :
    DerivesPassage setting (.branchBody kind reading.value.1 reading.value.2) s reading.state := by
  rw [branchBody] at hparse
  obtain ⟨⟨found, after, h1⟩, hfound, hresult⟩ := bind_eq_ok.mp hparse
  cases hresult
  exact .branchBody (derives_of_body (s.enterBranch kind) hfound)
termination_by 6 * s.rest.length + 5
decreasing_by
  simp only [State.enterBranch]
  omega

theorem derives_of_nestedBody {setting : Setting} {clause : Clause} (s : State)
    {reading : Reading Body s} (hparse : nestedBody setting clause s = .ok reading) :
    DerivesPassage setting (.nestedBody reading.value) s reading.state := by
  rw [nestedBody] at hparse
  obtain ⟨⟨⟨root, ending⟩, after, h1⟩, hroot, hparse⟩ := bind_eq_ok.mp hparse
  have hbody := derives_of_body s.enterTemplate hroot
  cases ending with
  | finished =>
    cases hparse
    exact .nestedBody hbody
  | otherwise position => exact absurd hparse fail_ne_ok
termination_by 6 * s.rest.length + 5
decreasing_by
  simp only [State.enterTemplate]
  omega

theorem derives_of_control {setting : Setting} {kind : BranchKind} (s : State)
    {reading : Reading Node s} (hparse : control setting kind s = .ok reading) :
    DerivesPassage setting (.control kind reading.value) s reading.state := by
  rw [control] at hparse
  obtain ⟨⟨head, afterHead, h1⟩, hhead, hparse⟩ := bind_eq_ok.mp hparse
  obtain ⟨⟨⟨first, ending⟩, afterFirst, h2⟩, hfirst, hparse⟩ := bind_eq_ok.mp hparse
  have hhead := derives_of_pipeline s hhead
  have hfirst := derives_of_branchBody afterHead hfirst
  cases ending with
  | finished =>
    cases hparse
    exact .controlOnly hhead hfirst
  | otherwise position =>
    dsimp only at hparse
    split at hparse
    next hword =>
      obtain ⟨word, hcontinuing, hpeek⟩ :
          ∃ word, continuing? kind = some word ∧ afterFirst.peek.kind = .keyword word := by
        cases hcontinuing : continuing? kind <;> simp_all
      obtain ⟨⟨inner, after, h3⟩, hinner, hresult⟩ := bind_eq_ok.mp hparse
      cases hresult
      exact .controlContinued hhead hfirst hcontinuing hpeek
        (derives_of_control afterFirst.advance hinner)
    next hword =>
      obtain ⟨⟨⟨second, last⟩, after, h3⟩, hsecond, hparse⟩ := bind_eq_ok.mp hparse
      have hsecond := derives_of_body afterFirst hsecond
      cases last with
      | finished =>
        cases hparse
        refine .controlOtherwise hhead hfirst (fun word hcontinuing hpeek ↦ hword ?_) hsecond
        simp [hcontinuing, hpeek]
      | otherwise position => exact absurd hparse fail_ne_ok
termination_by 6 * s.rest.length
decreasing_by
  · omega
  · omega
  · have bound := afterFirst.advance_notLonger
    omega

theorem derives_of_blockControl {setting : Setting} (s : State) {reading : Reading Node s}
    (hparse : blockControl setting s = .ok reading) :
    DerivesPassage setting (.block reading.value) s reading.state := by
  rw [blockControl] at hparse
  obtain ⟨⟨⟨name, position⟩, afterName, h1⟩, hname, hparse⟩ := bind_eq_ok.mp hparse
  obtain ⟨⟨argument, afterHead, h2⟩, hargument, hparse⟩ := bind_eq_ok.mp hparse
  obtain ⟨⟨root, after, h3⟩, hroot, hparse⟩ := bind_eq_ok.mp hparse
  obtain ⟨trees, hdefine, hresult⟩ := bind_eq_ok.mp hparse
  cases hresult
  exact .block (namesTemplate_iff.mp hname) (derives_of_pipeline afterName hargument)
    (derives_of_nestedBody afterHead hroot) hdefine
termination_by 6 * s.rest.length
decreasing_by
  omega

end

/-! ### Sources -/

/-- What the parser reads of a definition is derived. -/
theorem defines_of_definition {setting : Setting} {s : State} {reading : Reading Unit s}
    (hparse : definition setting s = .ok reading) : Defines setting s reading.state := by
  obtain ⟨⟨⟨name, position⟩, afterName, h1⟩, hname, hparse⟩ := bind_eq_ok.mp hparse
  obtain ⟨⟨closer, afterHead, h2⟩, hcloser, hparse⟩ := bind_eq_ok.mp hparse
  obtain ⟨⟨root, after, h3⟩, hroot, hparse⟩ := bind_eq_ok.mp hparse
  obtain ⟨trees, hdefine, hresult⟩ := bind_eq_ok.mp hparse
  obtain ⟨hclose, hright⟩ := expect_singleton_eq_ok_iff.mp hcloser
  cases hresult
  exact .definition (namesTemplate_iff.mp hname) ⟨closer, hclose, hright⟩
    (derives_of_nestedBody afterHead hroot) hdefine

/-- What the parser reads of a source is derived. -/
theorem derives_of_root {setting : Setting} (s : State) {found : List Node} {after : State}
    (hparse : root setting s = .ok (found, after)) : DerivesRoot setting found s after := by
  rw [root] at hparse
  split at hparse
  next hpeek =>
    cases hparse
    exact .finished hpeek
  next hpeek =>
    split at hparse
    next afterWord h1 hstart =>
      obtain ⟨⟨_, afterFirst, h2⟩, hdefinition, hparse⟩ := bind_eq_ok.mp hparse
      exact .definition (definitionStart?_eq_some_iff.mp hstart) (defines_of_definition hdefinition)
        (derives_of_root afterFirst hparse)
    next hstart =>
      obtain ⟨⟨first, afterFirst, h1⟩, hfirst, hparse⟩ := bind_eq_ok.mp hparse
      have hstatement := derives_of_statement s hfirst
      cases first with
      | ending ending => cases ending <;> exact absurd hparse fail_ne_ok
      | node node =>
        obtain ⟨⟨others, last⟩, hothers, hresult⟩ := bind_eq_ok.mp hparse
        cases hresult
        exact .statement hpeek (definitionStart?_eq_none_iff.mp hstart) hstatement
          (derives_of_root afterFirst hothers)
termination_by s.rest.length
decreasing_by
  · omega
  · omega

end Stencil.Syntax.Parse
