import Stencil.Proofs.Grammar.Soundness

/-!
# What is derived is read by the parser

A derivation of a part of the grammar makes the parser read that part, with the same value and up to
the same state. The proof is by induction on derivations, one case for each rule; the parser's own
steps are cited by their equivalences. Together with soundness, `parse_eq_ok_iff` says that the
sources that the parser accepts are those that are derived.
-/

set_option autoImplicit false
set_option relaxedAutoImplicit false

namespace Stencil.Syntax.Parse

/-- That the parser reads a phrase between two states. -/
def Phrase.Parses (setting : Setting) (phrase : Phrase) (s after : State) : Prop :=
  match phrase with
  | pipeline clause closer found =>
    ∃ h, Parse.pipeline setting clause closer s = .ok ⟨found, after, h⟩
  | commands closer found =>
    ∀ clause, ∃ h, Parse.commands setting clause closer s = .ok ⟨found, after, h⟩
  | command found => ∃ h, Parse.command setting s = .ok ⟨found, after, h⟩
  | operands found => ∃ h h', Parse.operands setting s = .ok ⟨found, after, h, h'⟩
  | operand found => ∃ h, Parse.operand setting s = .ok (some ⟨found, after, h⟩)

/-- That the parser reads a passage between two states. -/
def Passage.Parses (setting : Setting) (passage : Passage) (s after : State) : Prop :=
  match passage with
  | body found ending => ∃ h, Parse.body setting s = .ok ⟨(found, ending), after, h⟩
  | statements found ending => ∃ h, Parse.statements setting s = .ok ⟨(found, ending), after, h⟩
  | statement found => ∃ h, Parse.statement setting s = .ok ⟨found, after, h⟩
  | action found => ∃ h, Parse.action setting s = .ok ⟨found, after, h⟩
  | branchBody kind found ending =>
    ∃ h, Parse.branchBody setting kind s = .ok ⟨(found, ending), after, h⟩
  | nestedBody found => ∀ clause, ∃ h, Parse.nestedBody setting clause s = .ok ⟨found, after, h⟩
  | control kind found => ∃ h, Parse.control setting kind s = .ok ⟨found, after, h⟩
  | block found => ∃ h, Parse.blockControl setting s = .ok ⟨found, after, h⟩

section Phrases

variable {setting : Setting} {s after : State}

/-- What follows the next item gives a result if it does so after the item that is read. -/
theorem nextItem_bind_eq_ok {α : Type} {item : Item} {clause : Clause}
    {next : Reading Item s → Except ParseError α} {result : α} (hread : s.Reads item after)
    (hnext : next ⟨item, after, hread.shorter⟩ = .ok result) :
    (nextItem setting s clause >>= next) = .ok result :=
  bind_eq_ok.mpr ⟨⟨item, after, hread.shorter⟩, nextItem_eq_ok_iff.mpr hread, hnext⟩

/-- The parser finds no operand where none can start. -/
theorem operand_eq_none (hnone : startsOperand s.skipSpaces.peek.kind = false) :
    operand setting s = .ok none := by
  rw [operand]
  cases hnext : s.next with
  | none => rfl
  | some reading =>
    obtain ⟨item, afterItem, h1⟩ := reading
    have hread := next_eq_some_iff.mp hnext
    rw [hread.peek_eq] at hnone
    have hkind : item.kind ≠ .leftParen := by
      intro hkind
      simp [hkind, startsOperand] at hnone
    refine (if_neg hkind).trans ?_
    exact bind_eq_ok.mpr ⟨none, simpleTerm_eq_none_iff.mpr (.inl hnone), rfl⟩

/-- A term by itself does not open a parenthesis. -/
theorem IsTerm.kind_ne {visible : List String} {item : Item} {found : Node}
    (hterm : IsTerm setting visible item found) : item.kind ≠ .leftParen := by
  cases hterm with
  | string hkind => rcases hkind with hkind | hkind <;> simp [hkind]
  | _ => simp_all

/-- What ends a command leaves no more items. -/
theorem EndsCommand.notLonger (hend : EndsCommand s after) : after.NotLonger s := by
  cases hend with
  | closer => exact .refl s
  | bar => exact s.advance_notLonger

/-- The fields after a term leave no more items. -/
theorem Chained.notLonger {base found : Node} (hchained : Chained base s found after) :
    after.NotLonger s := by
  cases hchained with
  | alone => exact .refl s
  | fields => exact s.fields.notLonger

/-- A phrase that is derived is read by the parser. -/
theorem DerivesPhrase.parses {phrase : Phrase} (hderives : DerivesPhrase setting phrase s after) :
    phrase.Parses setting s after := by
  induction hderives with
  | pipeline hdeclares _ hvalue hcallable ih =>
    obtain ⟨h1, hdeclared⟩ := declarations_of_declares hdeclares
    obtain ⟨h2, hcommands⟩ := ih _
    refine ⟨h1.trans_shorter h2, ?_⟩
    rw [Parse.pipeline]
    refine bind_eq_ok.mpr ⟨_, hdeclared, bind_eq_ok.mpr ⟨_, hcommands, ?_⟩⟩
    exact bind_eq_ok.mpr ⟨(), checkCommands_eq_ok_iff.mpr ⟨hvalue, hcallable⟩, rfl⟩
  | commandsEnd hread hcloser =>
    refine fun clause ↦ ⟨hread.shorter, ?_⟩
    rw [Parse.commands]
    exact nextItem_bind_eq_ok hread (if_pos hcloser)
  | commandsMore hread hcloser hstart _ _ ihFirst ihOthers =>
    intro clause
    obtain ⟨h1, hfirst⟩ := ihFirst
    obtain ⟨h2, hothers⟩ := ihOthers clause
    refine ⟨h1.trans h2, ?_⟩
    rw [Parse.commands]
    refine nextItem_bind_eq_ok hread ?_
    refine (if_neg hcloser).trans ((if_pos hstart).trans ?_)
    exact bind_eq_ok.mpr ⟨_, hfirst, bind_eq_ok.mpr ⟨_, hothers, rfl⟩⟩
  | command _ hvalue ih =>
    obtain ⟨_, h1, hoperands⟩ := ih
    refine ⟨h1 hvalue, ?_⟩
    rw [Parse.command]
    exact bind_eq_ok.mpr ⟨_, hoperands, dif_pos hvalue⟩
  | operandsEnd hnone hend =>
    refine ⟨hend.notLonger.ofSkipSpaces, fun hne ↦ absurd rfl hne, ?_⟩
    rw [Parse.operands]
    refine bind_eq_ok.mpr ⟨none, operand_eq_none (by simpa using hnone), ?_⟩
    exact bind_eq_ok.mpr ⟨⟨(), _, hend.notLonger⟩, commandEnd_eq_ok_iff.mpr hend, rfl⟩
  | operandsMore _ hspace _ ihFirst ihOthers =>
    obtain ⟨h1, hfirst⟩ := ihFirst
    obtain ⟨h2, _, hothers⟩ := ihOthers
    have hshorter := h1.ofSkipSpaces.trans_notLonger h2.ofAdvance
    refine ⟨hshorter.notLonger, fun _ ↦ hshorter, ?_⟩
    rw [Parse.operands]
    refine bind_eq_ok.mpr ⟨_, hfirst, (if_pos hspace).trans ?_⟩
    exact bind_eq_ok.mpr ⟨_, hothers, rfl⟩
  | operandsLast _ hspace hend ih =>
    obtain ⟨h1, hfirst⟩ := ih
    have hshorter := h1.ofSkipSpaces.trans_notLonger hend.notLonger
    refine ⟨hshorter.notLonger, fun _ ↦ hshorter, ?_⟩
    rw [Parse.operands]
    refine bind_eq_ok.mpr ⟨_, hfirst, (if_neg hspace).trans ?_⟩
    exact bind_eq_ok.mpr ⟨⟨(), _, hend.notLonger⟩, commandEnd_eq_ok_iff.mpr hend, rfl⟩
  | parenthesized hread hkind hdepth _ hchained ih =>
    obtain ⟨h1, hinner⟩ := ih
    have hshorter := (hread.shorter.trans h1).trans_notLonger hchained.notLonger
    refine ⟨hshorter, ?_⟩
    rw [Parse.operand, hread.next_eq]
    refine (if_pos hkind).trans (bind_eq_ok.mpr ⟨(), checkDepth_eq_ok_iff.mpr hdepth, ?_⟩)
    refine bind_eq_ok.mpr ⟨_, hinner, bind_eq_ok.mpr ⟨⟨_, _, hchained.notLonger⟩, ?_, rfl⟩⟩
    exact chained_eq_ok_iff.mpr hchained
  | @term _ _ _ _ base _ hread hterm hchained =>
    refine ⟨hread.shorter.trans_notLonger hchained.notLonger, ?_⟩
    rw [Parse.operand, hread.next_eq]
    refine (if_neg hterm.kind_ne).trans (bind_eq_ok.mpr ⟨some base, ?_, ?_⟩)
    · rw [simpleTerm_eq_some_iff, hread.visible_eq]
      exact hterm
    · exact bind_eq_ok.mpr ⟨⟨_, _, hchained.notLonger⟩, chained_eq_ok_iff.mpr hchained, rfl⟩

end Phrases

section Passages

variable {setting : Setting} {s after : State}

/-- The name of a template is read from at least one item. -/
theorem NamesTemplate.shorter {name : String} {position : Position}
    (hname : NamesTemplate s name position after) : after.Shorter s := by
  cases hname with
  | name hread => exact hread.shorter

/-- An item of a kind is read from at least one item. -/
theorem State.ReadsKind.shorter {kind : ItemKind} (hread : s.ReadsKind kind after) :
    after.Shorter s := by
  obtain ⟨item, hread, _⟩ := hread
  exact hread.shorter

/-- The name of a template is read by the parser. -/
theorem NamesTemplate.parses {name : String} {position : Position}
    (hname : NamesTemplate s name position after) (clause : Clause) :
    templateName setting clause s = .ok ⟨(name, position), after, hname.shorter⟩ :=
  namesTemplate_iff.mpr hname

/-- An item of the kind that is expected is read by the parser. -/
theorem State.ReadsKind.parses {kind : ItemKind} (hread : s.ReadsKind kind after)
    (clause : Clause) :
    ∃ item, expect setting s [kind] clause = .ok ⟨item, after, hread.shorter⟩ := by
  obtain ⟨item, hread, hkind⟩ := hread
  exact ⟨item, expect_singleton_eq_ok_iff.mpr ⟨hread, hkind⟩⟩

/-- A break or continue action in a loop is read by the parser. -/
theorem loopControl_of_readsKind {clause : Clause} {node : Node}
    (hclose : s.ReadsKind .rightDelim after) (hloop : after.loopDepth ≠ 0) :
    loopControl setting clause node s = .ok ⟨node, after, hclose.shorter⟩ := by
  obtain ⟨item, hread, hkind⟩ := hclose
  exact nextItem_bind_eq_ok hread ((if_neg (not_not_intro hkind)).trans (if_neg hloop))

/-- An else action that nothing continues is read by the parser. -/
theorem elseControl_of_reads {closer : Item} (hclose : s.Reads closer after)
    (hcloser : closer.kind = .rightDelim) :
    elseControl setting s =
      .ok ⟨.ending (.otherwise closer.position), after, hclose.shorter.notLonger⟩ := by
  have hcontinues : ¬ continues s.skipSpaces.peek.kind = true := by
    rw [hclose.peek_eq, hcloser]
    decide
  refine (if_neg hcontinues).trans ?_
  exact bind_eq_ok.mpr
    ⟨⟨closer, after, hclose.shorter⟩, expect_singleton_eq_ok_iff.mpr ⟨hclose, hcloser⟩, rfl⟩

/-- An invocation without an argument is read by the parser. -/
theorem templateControl_of_readsKind {name : String} {position : Position} {afterName : State}
    (hname : NamesTemplate s name position afterName)
    (hclose : afterName.ReadsKind .rightDelim after) :
    templateControl setting s =
      .ok ⟨.template position name none, after, hname.shorter.trans hclose.shorter⟩ := by
  obtain ⟨item, hcloser, hright⟩ := hclose
  refine bind_eq_ok.mpr ⟨_, hname.parses .template, ?_⟩
  exact nextItem_bind_eq_ok hcloser (if_pos hright)

/-- An invocation with an argument is read by the parser. -/
theorem templateControl_of_argument {name : String} {position : Position}
    {afterName afterNext : State} {next : Item} {argument : Pipeline}
    (hname : NamesTemplate s name position afterName) (hnext : afterName.Reads next afterNext)
    (hopen : next.kind ≠ .rightDelim)
    (hargument : DerivesPhrase setting (.pipeline .template .rightDelim argument) afterName
      after) :
    ∃ h, templateControl setting s = .ok ⟨.template position name (some argument), after, h⟩ := by
  obtain ⟨h1, hargument⟩ := hargument.parses
  refine ⟨hname.shorter.trans h1, bind_eq_ok.mpr ⟨_, hname.parses .template, ?_⟩⟩
  refine nextItem_bind_eq_ok hnext ?_
  exact (if_neg hopen).trans (bind_eq_ok.mpr ⟨_, hargument, rfl⟩)

/-- An action that starts with no word for a control structure is read as a pipeline. -/
theorem action_of_pipeline {item : Item} {afterItem : State} {found : Pipeline}
    (hread : s.Reads item afterItem) (hkind : startsControl item.kind = false)
    (hfound : DerivesPhrase setting (.pipeline .command .rightDelim found) s after) :
    ∃ h, Parse.action setting s =
      .ok ⟨.node (.action s.skipSpaces.peek.position found), after, h⟩ := by
  obtain ⟨h1, hfound⟩ := hfound.parses
  refine ⟨h1, ?_⟩
  rw [Parse.action]
  refine nextItem_bind_eq_ok hread ?_
  cases hitem : item.kind with
  | keyword word =>
    rw [hitem] at hkind
    cases word <;> simp only [hitem] <;> first
      | exact absurd hkind (by decide)
      | exact bind_eq_ok.mpr ⟨_, bind_eq_ok.mpr ⟨_, hfound, rfl⟩, rfl⟩
  | _ =>
    simp only [hitem]
    exact bind_eq_ok.mpr ⟨_, bind_eq_ok.mpr ⟨_, hfound, rfl⟩, rfl⟩

/-- A passage that is derived is read by the parser. -/
theorem DerivesPassage.parses {passage : Passage}
    (hderives : DerivesPassage setting passage s after) : passage.Parses setting s after := by
  induction hderives with
  | body hdepth _ ih =>
    obtain ⟨h1, hfound⟩ := ih
    refine ⟨h1, ?_⟩
    rw [Parse.body]
    exact bind_eq_ok.mpr ⟨(), checkDepth_eq_ok_iff.mpr hdepth, bind_eq_ok.mpr ⟨_, hfound, rfl⟩⟩
  | statementsEnd hpeek _ ih =>
    obtain ⟨h1, hending⟩ := ih
    refine ⟨h1, ?_⟩
    rw [Parse.statements, if_neg hpeek]
    exact bind_eq_ok.mpr ⟨_, hending, rfl⟩
  | statementsMore hpeek _ _ ihFirst ihOthers =>
    obtain ⟨h1, hfirst⟩ := ihFirst
    obtain ⟨h2, hothers⟩ := ihOthers
    refine ⟨h1.trans h2, ?_⟩
    rw [Parse.statements, if_neg hpeek]
    exact bind_eq_ok.mpr ⟨_, hfirst, bind_eq_ok.mpr ⟨_, hothers, rfl⟩⟩
  | text hread hkind =>
    refine ⟨hread.shorter, ?_⟩
    rw [Parse.statement]
    refine nextItem_bind_eq_ok hread ?_
    simp only [hkind]
    rfl
  | comment hread hkind =>
    refine ⟨hread.shorter, ?_⟩
    rw [Parse.statement]
    refine nextItem_bind_eq_ok hread ?_
    simp only [hkind]
    rfl
  | delimited hread hkind _ ih =>
    obtain ⟨h1, hfound⟩ := ih
    refine ⟨hread.shorter.trans h1, ?_⟩
    rw [Parse.statement]
    refine nextItem_bind_eq_ok hread ?_
    simp only [hkind]
    exact bind_eq_ok.mpr ⟨_, hfound, rfl⟩
  | blockAction hread hkind _ ih =>
    obtain ⟨h1, hfound⟩ := ih
    refine ⟨hread.shorter.trans h1, ?_⟩
    rw [Parse.action]
    refine nextItem_bind_eq_ok hread ?_
    simp only [hkind]
    exact bind_eq_ok.mpr ⟨_, hfound, rfl⟩
  | breakAction hread hkind hclose hloop =>
    refine ⟨hread.shorter.trans hclose.shorter, ?_⟩
    rw [Parse.action]
    refine nextItem_bind_eq_ok hread ?_
    simp only [hkind]
    exact bind_eq_ok.mpr ⟨_, loopControl_of_readsKind hclose hloop, rfl⟩
  | continueAction hread hkind hclose hloop =>
    refine ⟨hread.shorter.trans hclose.shorter, ?_⟩
    rw [Parse.action]
    refine nextItem_bind_eq_ok hread ?_
    simp only [hkind]
    exact bind_eq_ok.mpr ⟨_, loopControl_of_readsKind hclose hloop, rfl⟩
  | @elseWord _ afterItem _ hread hkind hcontinues =>
    refine ⟨hread.shorter.trans_notLonger afterItem.skipSpaces_notLonger, ?_⟩
    rw [Parse.action]
    refine nextItem_bind_eq_ok hread ?_
    simp only [hkind]
    exact bind_eq_ok.mpr ⟨_, if_pos hcontinues, rfl⟩
  | elseAction hread hkind hclose hcloser =>
    refine ⟨hread.shorter.trans hclose.shorter, ?_⟩
    rw [Parse.action]
    refine nextItem_bind_eq_ok hread ?_
    simp only [hkind]
    exact bind_eq_ok.mpr ⟨_, elseControl_of_reads hclose hcloser, rfl⟩
  | endAction hread hkind hclose =>
    obtain ⟨item, hcloser⟩ := hclose.parses .closing
    refine ⟨hread.shorter.trans hclose.shorter, ?_⟩
    rw [Parse.action]
    refine nextItem_bind_eq_ok hread ?_
    simp only [hkind]
    exact bind_eq_ok.mpr ⟨_, bind_eq_ok.mpr ⟨_, hcloser, rfl⟩, rfl⟩
  | @branchAction _ _ _ _ kind _ hread hkind _ ih =>
    obtain ⟨h1, hfound⟩ := ih
    refine ⟨hread.shorter.trans h1, ?_⟩
    rw [Parse.action]
    refine nextItem_bind_eq_ok hread ?_
    cases kind <;> simp only [branchWord] at hkind <;> simp only [hkind] <;>
      exact bind_eq_ok.mpr ⟨_, hfound, rfl⟩
  | templateBare hread hkind hname hclose =>
    refine ⟨hread.shorter.trans (hname.shorter.trans hclose.shorter), ?_⟩
    rw [Parse.action]
    refine nextItem_bind_eq_ok hread ?_
    simp only [hkind]
    exact bind_eq_ok.mpr ⟨_, templateControl_of_readsKind hname hclose, rfl⟩
  | templateWith hread hkind hname hnext hopen hargument =>
    obtain ⟨h1, hfound⟩ := templateControl_of_argument hname hnext hopen hargument
    refine ⟨hread.shorter.trans h1, ?_⟩
    rw [Parse.action]
    refine nextItem_bind_eq_ok hread ?_
    simp only [hkind]
    exact bind_eq_ok.mpr ⟨_, hfound, rfl⟩
  | pipelineAction hread hkind hfound => exact action_of_pipeline hread hkind hfound
  | branchBody _ ih =>
    obtain ⟨h1, hfound⟩ := ih
    refine ⟨h1, ?_⟩
    rw [Parse.branchBody]
    exact bind_eq_ok.mpr ⟨_, hfound, rfl⟩
  | nestedBody _ ih =>
    obtain ⟨h1, hfound⟩ := ih
    refine fun clause ↦ ⟨h1, ?_⟩
    rw [Parse.nestedBody]
    exact bind_eq_ok.mpr ⟨_, hfound, rfl⟩
  | controlOnly hhead _ ih =>
    obtain ⟨h1, hhead⟩ := hhead.parses
    obtain ⟨h2, hfirst⟩ := ih
    refine ⟨h1.trans h2, ?_⟩
    rw [Parse.control]
    exact bind_eq_ok.mpr ⟨_, hhead, bind_eq_ok.mpr ⟨_, hfirst, rfl⟩⟩
  | controlContinued hhead _ hword hpeek _ ihFirst ihInner =>
    obtain ⟨h1, hhead⟩ := hhead.parses
    obtain ⟨h2, hfirst⟩ := ihFirst
    obtain ⟨h3, hinner⟩ := ihInner
    refine ⟨(h1.trans h2).trans h3.ofAdvance, ?_⟩
    rw [Parse.control]
    refine bind_eq_ok.mpr ⟨_, hhead, bind_eq_ok.mpr ⟨_, hfirst, ?_⟩⟩
    refine (if_pos (by simp [hword, hpeek])).trans ?_
    exact bind_eq_ok.mpr ⟨_, hinner, rfl⟩
  | @controlOtherwise kind _ _ _ _ _ _ _ _ hhead _ hother _ ihFirst ihSecond =>
    obtain ⟨h1, hhead⟩ := hhead.parses
    obtain ⟨h2, hfirst⟩ := ihFirst
    obtain ⟨h3, hsecond⟩ := ihSecond
    refine ⟨(h1.trans h2).trans h3, ?_⟩
    rw [Parse.control]
    refine bind_eq_ok.mpr ⟨_, hhead, bind_eq_ok.mpr ⟨_, hfirst, ?_⟩⟩
    refine (if_neg fun hany ↦ ?_).trans (bind_eq_ok.mpr ⟨_, hsecond, rfl⟩)
    cases hword : continuing? kind with
    | none => simp [hword] at hany
    | some word => exact hother word hword (by simpa [hword] using hany)
  | block hname hargument _ hdefine ih =>
    obtain ⟨h1, hargument⟩ := hargument.parses
    obtain ⟨h2, hroot⟩ := ih .block
    refine ⟨(hname.shorter.trans h1).trans h2, ?_⟩
    rw [Parse.blockControl]
    refine bind_eq_ok.mpr ⟨_, hname.parses .block, bind_eq_ok.mpr ⟨_, hargument, ?_⟩⟩
    exact bind_eq_ok.mpr ⟨_, hroot, bind_eq_ok.mpr ⟨_, hdefine, rfl⟩⟩

end Passages

/-! ### Sources -/

section Sources

variable {setting : Setting} {s after : State}

/-- A definition that is derived is read by the parser. -/
theorem Defines.parses (hdefines : Defines setting s after) :
    ∃ h, Parse.definition setting s = .ok ⟨(), after, h⟩ := by
  cases hdefines with
  | definition hname hclose hroot hdefine =>
    obtain ⟨item, hcloser⟩ := hclose.parses .definition
    obtain ⟨h1, hroot⟩ := hroot.parses .definition
    refine ⟨(hname.shorter.trans hclose.shorter).trans h1, ?_⟩
    refine bind_eq_ok.mpr ⟨_, hname.parses .definition, bind_eq_ok.mpr ⟨_, hcloser, ?_⟩⟩
    exact bind_eq_ok.mpr ⟨_, hroot, bind_eq_ok.mpr ⟨_, hdefine, rfl⟩⟩

/-- What is derived of a source is read by the parser. -/
theorem DerivesRoot.parses {found : List Node} (hderives : DerivesRoot setting found s after) :
    root setting s = .ok (found, after) := by
  induction hderives with
  | finished hpeek =>
    rw [root, if_pos hpeek]
    rfl
  | definition hopens hdefines _ ih =>
    obtain ⟨h1, hdefinition⟩ := hdefines.parses
    rw [root_of_opensDefinition hopens]
    exact bind_eq_ok.mpr ⟨_, hdefinition, ih⟩
  | statement hpeek hopens hfirst _ ih =>
    obtain ⟨h1, hfirst⟩ := hfirst.parses
    rw [root_of_not_opensDefinition hpeek hopens]
    exact bind_eq_ok.mpr ⟨_, hfirst, bind_eq_ok.mpr ⟨_, ih, rfl⟩⟩

end Sources

end Parse

/-- The parser accepts exactly the sources that are derived. -/
theorem parse_eq_ok_iff {name source : String} {delimiters : Delimiters}
    {isFunction : String → Bool} {set : TreeSet} :
    parse name delimiters isFunction source = .ok set ↔
      ∃ nodes after,
        Parse.DerivesRoot ⟨name, isFunction⟩ nodes
          (Parse.State.initial (lex delimiters source)) after ∧
        Parse.define ⟨name, isFunction⟩ after ⟨name, name,
          ⟨(Parse.State.initial (lex delimiters source)).peek.position, nodes⟩⟩ = .ok set := by
  constructor
  · intro hparse
    obtain ⟨⟨nodes, after⟩, hroot, hdefine⟩ := Parse.bind_eq_ok.mp hparse
    exact ⟨nodes, after, Parse.derives_of_root _ hroot, hdefine⟩
  · rintro ⟨nodes, after, hderives, hdefine⟩
    exact Parse.bind_eq_ok.mpr ⟨(nodes, after), hderives.parses, hdefine⟩

end Stencil.Syntax
