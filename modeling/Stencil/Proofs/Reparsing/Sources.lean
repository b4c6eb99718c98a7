import Stencil.Proofs.Reparsing.Bodies

/-!
# The trees of a source are read again

All that a source is parsed to is read again from its canonical text. By induction on the
derivation, each statement is read again with the variables visible that were visible in the source
(`DerivesPassage.rereads`). A definition adds a tree and nothing to the statements around it, so the
induction also says of every tree that is found that it is read again (`State.Proceeds`), the tree
of the source as well as those of the definitions and blocks in it.
-/

set_option autoImplicit false
set_option relaxedAutoImplicit false

namespace Stencil.Syntax

namespace Parse

open Delimiters

/-! ### Trees that are read again -/

/-- That the statements of a tree are read again one after the other, where only the argument of the
template is visible. -/
def RereadsTree (setting : Setting) (tree : Tree) : Prop :=
  ∃ after, Threads (RereadsStatement setting 0) ["$"] tree.root.nodes after

/-- That a parse goes on between two states, and every tree that it finds is read again. -/
structure State.Proceeds (setting : Setting) (s after : State) : Prop where
  leads : s.Leads after
  trees : (∀ tree ∈ s.trees.trees, RereadsTree setting tree) →
    ∀ tree ∈ after.trees.trees, RereadsTree setting tree

section Proceeds

variable {setting : Setting} {s middle after : State}

theorem State.Proceeds.trans (hfirst : s.Proceeds setting middle)
    (hsecond : middle.Proceeds setting after) : s.Proceeds setting after :=
  ⟨hfirst.leads.trans hsecond.leads, fun hs ↦ hsecond.trees (hfirst.trees hs)⟩

/-- Where no tree is found there is nothing to be read again. -/
theorem State.Leads.proceeds (hleads : s.Leads after) (htrees : after.trees = s.trees) :
    s.Proceeds setting after :=
  ⟨hleads, fun hs ↦ htrees ▸ hs⟩

theorem State.proceeds_of_eq (hrest : after.rest = s.rest) (hloop : after.loopDepth = s.loopDepth)
    (htrees : after.trees = s.trees) : s.Proceeds setting after :=
  (State.leads_of_eq hrest hloop).proceeds htrees

theorem State.Reads.proceeds {item : Item} (hread : s.Reads item after) :
    s.Proceeds setting after :=
  hread.leads.proceeds hread.trees_eq

theorem State.ReadsKind.proceeds {kind : ItemKind} (hread : s.ReadsKind kind after) :
    s.Proceeds setting after := by
  obtain ⟨_, hread, _⟩ := hread
  exact hread.proceeds

theorem NamesTemplate.leads {name : String} {position : Position}
    (hname : NamesTemplate s name position after) : s.Leads after := by
  cases hname with
  | name hread => exact hread.leads

theorem NamesTemplate.proceeds {name : String} {position : Position}
    (hname : NamesTemplate s name position after) : s.Proceeds setting after :=
  hname.leads.proceeds hname.trees_eq

/-- A pipeline is read again and finds no tree. -/
theorem DerivesPhrase.rereads_pipeline {clause : Clause} {closer : ItemKind} {found : Pipeline}
    (hderives : DerivesPhrase setting (.pipeline clause closer found) s after)
    (hlexed : s.Lexed) : s.Proceeds setting after ∧
      RereadsPipeline setting (furtherVariables clause) s.visible found after.visible :=
  ⟨(hderives.rereads hlexed).1.proceeds hderives.trees_eq, (hderives.rereads hlexed).2⟩

/-- A definition finds the trees of its body and one of its own. -/
theorem State.Proceeds.define {tree : Tree} {trees : TreeSet} (hproceeds : s.Proceeds setting after)
    (htree : RereadsTree setting tree) (hdefine : define setting after tree = .ok trees) :
    s.Proceeds setting { after with trees := trees } := by
  refine ⟨hproceeds.leads.trans (State.leads_of_eq rfl rfl), fun hs other hother ↦ ?_⟩
  rw [eq_merge_of_define hdefine] at hother
  rcases TreeSet.mem_merge hother with hother | rfl
  · exact hproceeds.trees hs other hother
  · exact htree

end Proceeds

/-! ### Texts in a source -/

section Texts

variable {setting : Setting} {s after : State}

/-- An action is no text. -/
theorem isText_of_action {found : Node}
    (hderives : DerivesPassage setting (.action (.node found)) s after) : found.isText = false := by
  cases hderives with
  | blockAction _ _ hfound => cases hfound; rfl
  | branchAction _ _ hfound => cases hfound <;> rfl
  | _ => rfl

/-- Behind a text in a source stands no other. -/
theorem apart_of_statements {afterFirst : State} {first : Node} {others : List Node}
    {ending : Ending}
    (hfirst : DerivesPassage setting (.statement (.node first)) s afterFirst)
    (hothers : DerivesPassage setting (.statements others ending) afterFirst after)
    (hlexed : s.Lexed) : ∀ second ∈ others.head?, first.Apart second := by
  intro second hsecond htext
  cases hfirst with
  | comment => cases htext
  | delimited _ _ hfound =>
    rw [isText_of_action hfound] at htext
    cases htext
  | @text _ _ item hread hkind =>
    -- The item behind the text is neither a text nor a space, so it is what is read next.
    have hchain : (item :: afterFirst.rest).IsChain Item.Apart := by
      rw [← hread.rest_eq]
      exact (s.leads_skipSpaces.lexed hlexed).apart
    have hnext (next : Item) (afterNext : State) (hnext : afterFirst.Reads next afterNext) :
        next.kind ≠ .text := by
      obtain ⟨hapart, -⟩ := List.isChain_cons.mp hchain
      cases hrest : afterFirst.rest with
      | nil =>
        have hnone := afterFirst.leads_skipSpaces.suffix
        rw [hnext.rest_eq, hrest] at hnone
        cases List.suffix_nil.mp hnone
      | cons other rest =>
        obtain ⟨hne, hspace⟩ := hapart other (by simp [hrest]) hkind
        have hpeek : afterFirst.peek = other := by rw [State.peek, hrest]; rfl
        rw [← hnext.peek_eq, State.skipSpaces_of_peek (hpeek ▸ hspace), hpeek]
        exact hne
    cases hothers with
    | statementsEnd => cases hsecond
    | statementsMore _ hstatement =>
      cases hsecond
      cases hstatement with
      | text hread' hkind' => exact absurd hkind' (hnext _ _ hread')
      | comment => rfl
      | delimited _ _ hfound => exact isText_of_action hfound

end Texts

/-! ### Passages of a source -/

/-- That a statement is read again wherever `before` are visible, inside so many loops, and leaves
`after` visible. The action that ends a body leaves visible what is. -/
def Statement.Rereads (setting : Setting) (loops : Nat) (before after : List String) :
    Statement → Prop
  | .node found => RereadsStatement setting loops before found after
  | .ending _ => after = before

/-- That a passage is read again wherever `before` are visible, inside so many loops, and leaves
`after` visible. -/
def Passage.Rereads (setting : Setting) (loops : Nat) (before after : List String) :
    Passage → Prop
  | .body found _ => RereadsBody setting loops before found after
  | .statements found _ =>
    Threads (RereadsStatement setting loops) before found after ∧ found.IsChain Node.Apart
  | .statement found | .action found => found.Rereads setting loops before after
  | .branchBody kind found _ => RereadsBody setting (loops + loopsOf kind) before found after
  | .nestedBody found => (∃ last, RereadsBody setting 0 ["$"] found last) ∧ after = before
  | .control _ found | .block found => RereadsStatement setting loops before found after

section Sources

variable {setting : Setting} {s after : State}

/-- What is read of statements in a source is read again, and so is every tree that is found. -/
theorem DerivesPassage.rereads {passage : Passage}
    (hderives : DerivesPassage setting passage s after) (hlexed : s.Lexed) :
    s.Proceeds setting after ∧ passage.Rereads setting s.loopDepth s.visible after.visible := by
  induction hderives with
  | @body s after _ _ _ _ ih =>
    have henter : s.Proceeds setting s.enter := State.proceeds_of_eq rfl rfl rfl
    obtain ⟨hproceeds, hnodes, hapart⟩ := ih (henter.leads.lexed hlexed)
    exact ⟨(henter.trans hproceeds).trans (State.proceeds_of_eq rfl rfl rfl), hnodes, hapart⟩
  | statementsEnd _ _ ih =>
    obtain ⟨hproceeds, hvisible⟩ := ih hlexed
    refine ⟨hproceeds, ?_, .nil⟩
    rw [hvisible]
    exact .nil
  | statementsMore _ hfirst hothers ihFirst ihOthers =>
    obtain ⟨hproceeds, hstatement⟩ := ihFirst hlexed
    obtain ⟨hrest, hnodes, hapart⟩ := ihOthers (hproceeds.leads.lexed hlexed)
    rw [hproceeds.leads.loopDepth_eq] at hnodes
    exact ⟨hproceeds.trans hrest, .cons hstatement hnodes,
      List.isChain_cons.mpr ⟨apart_of_statements hfirst hothers hlexed, hapart⟩⟩
  | @text s after item hread hkind =>
    refine ⟨hread.proceeds, ?_⟩
    have hlegible := hread.legible hlexed
    rw [hread.visible_eq]
    refine rereads_text ?_
    simpa [Item.Legible, hkind] using hlegible
  | comment hread hkind =>
    refine ⟨hread.proceeds, ?_⟩
    rw [hread.visible_eq]
    exact rereads_comment hkind (hread.legible hlexed)
  | @delimited s afterItem after item _ hread _ _ ih =>
    have henter : s.Proceeds setting (afterItem.enterAction item.position.line) :=
      hread.proceeds.trans (State.proceeds_of_eq rfl rfl rfl)
    obtain ⟨hproceeds, hfound⟩ := ih (henter.leads.lexed hlexed)
    refine ⟨(henter.trans hproceeds).trans (State.proceeds_of_eq rfl rfl rfl), ?_⟩
    rw [henter.leads.loopDepth_eq] at hfound
    exact hread.visible_eq ▸ hfound
  | blockAction hread _ _ ih | branchAction hread _ _ ih =>
    obtain ⟨hproceeds, hfound⟩ := ih (hread.leads.lexed hlexed)
    rw [hread.leads.loopDepth_eq, hread.visible_eq] at hfound
    exact ⟨hread.proceeds.trans hproceeds, hfound⟩
  | @breakAction s _ after _ hread _ hclose hloop =>
    have hproceeds : s.Proceeds setting after := hread.proceeds.trans hclose.proceeds
    refine ⟨hproceeds, ?_⟩
    rw [hclose.visible_eq, hread.visible_eq]
    exact rereads_break (hproceeds.leads.loopDepth_eq ▸ hloop)
  | @continueAction s _ after _ hread _ hclose hloop =>
    have hproceeds : s.Proceeds setting after := hread.proceeds.trans hclose.proceeds
    refine ⟨hproceeds, ?_⟩
    rw [hclose.visible_eq, hread.visible_eq]
    exact rereads_continue (hproceeds.leads.loopDepth_eq ▸ hloop)
  | @elseWord _ afterItem _ hread =>
    exact ⟨hread.proceeds.trans (afterItem.leads_skipSpaces.proceeds rfl), hread.visible_eq⟩
  | elseAction hread _ hclose =>
    exact ⟨hread.proceeds.trans hclose.proceeds, hclose.visible_eq.trans hread.visible_eq⟩
  | endAction hread _ hclose =>
    exact ⟨hread.proceeds.trans hclose.proceeds, hclose.visible_eq.trans hread.visible_eq⟩
  | templateBare hread _ hname hclose =>
    refine ⟨(hread.proceeds.trans hname.proceeds).trans hclose.proceeds, ?_⟩
    rw [hclose.visible_eq, hname.visible_eq, hread.visible_eq]
    exact rereads_template
  | @templateWith s _ afterName _ _ _ _ _ _ _ hread _ hname _ _ hargument =>
    have hnamed : s.Proceeds setting afterName := hread.proceeds.trans hname.proceeds
    obtain ⟨hproceeds, hpipeline⟩ := hargument.rereads_pipeline (hnamed.leads.lexed hlexed)
    rw [hname.visible_eq, hread.visible_eq] at hpipeline
    exact ⟨hnamed.trans hproceeds, RereadsPipeline.template hpipeline⟩
  | pipelineAction _ _ hfound =>
    obtain ⟨hproceeds, hpipeline⟩ := hfound.rereads_pipeline hlexed
    exact ⟨hproceeds, RereadsPipeline.action hpipeline⟩
  | @branchBody kind s after _ _ _ ih =>
    obtain ⟨hproceeds, hbody⟩ := ih ⟨hlexed.legible, hlexed.apart⟩
    refine ⟨⟨⟨hproceeds.leads.suffix, ?_⟩, hproceeds.trees⟩, hbody⟩
    have hloop : after.loopDepth = s.loopDepth + loopsOf kind := hproceeds.leads.loopDepth_eq
    change after.loopDepth - loopsOf kind = s.loopDepth
    rw [hloop, Nat.add_sub_cancel]
  | nestedBody _ ih =>
    obtain ⟨hproceeds, hbody⟩ := ih ⟨hlexed.legible, hlexed.apart⟩
    exact ⟨⟨⟨hproceeds.leads.suffix, rfl⟩, hproceeds.trees⟩, ⟨_, hbody⟩, rfl⟩
  | controlOnly hhead _ ih =>
    obtain ⟨hheaded, hpipeline⟩ := hhead.rereads_pipeline hlexed
    obtain ⟨hproceeds, hbody⟩ := ih (hheaded.leads.lexed hlexed)
    rw [hheaded.leads.loopDepth_eq] at hbody
    exact ⟨(hheaded.trans hproceeds).trans (State.proceeds_of_eq rfl rfl rfl),
      RereadsBody.branch hpipeline hbody⟩
  | @controlContinued _ s _ afterFirst _ _ _ _ _ _ hhead _ _ _ _ ihFirst ihInner =>
    obtain ⟨hheaded, hpipeline⟩ := hhead.rereads_pipeline hlexed
    obtain ⟨hfirst, hbody⟩ := ihFirst (hheaded.leads.lexed hlexed)
    have hbehind : s.Proceeds setting afterFirst.advance :=
      (hheaded.trans hfirst).trans (afterFirst.leads_advance.proceeds afterFirst.trees_advance)
    obtain ⟨hproceeds, hinner⟩ := ihInner (hbehind.leads.lexed hlexed)
    rw [hheaded.leads.loopDepth_eq] at hbody
    rw [hbehind.leads.loopDepth_eq, State.visible_advance] at hinner
    exact ⟨(hbehind.trans hproceeds).trans (State.proceeds_of_eq rfl rfl rfl),
      RereadsBody.branch_otherwise hpipeline hbody
        ⟨.cons hinner .nil, List.isChain_singleton _⟩⟩
  | controlOtherwise hhead _ _ _ ihFirst ihSecond =>
    obtain ⟨hheaded, hpipeline⟩ := hhead.rereads_pipeline hlexed
    obtain ⟨hfirst, hbody⟩ := ihFirst (hheaded.leads.lexed hlexed)
    have hbehind := hheaded.trans hfirst
    obtain ⟨hproceeds, hother⟩ := ihSecond (hbehind.leads.lexed hlexed)
    rw [hheaded.leads.loopDepth_eq] at hbody
    rw [hbehind.leads.loopDepth_eq] at hother
    exact ⟨(hbehind.trans hproceeds).trans (State.proceeds_of_eq rfl rfl rfl),
      RereadsBody.branch_otherwise hpipeline hbody hother⟩
  | block hname hargument _ hdefine ih =>
    obtain ⟨hheaded, hpipeline⟩ :=
      hargument.rereads_pipeline (hname.leads.lexed hlexed)
    have hnamed := hname.proceeds.trans hheaded
    obtain ⟨hproceeds, ⟨last, hroot⟩, hvisible⟩ := ih (hnamed.leads.lexed hlexed)
    rw [hname.visible_eq] at hpipeline
    refine ⟨(hnamed.trans hproceeds).define ⟨last, hroot.nodes⟩ hdefine, ?_⟩
    change RereadsStatement setting _ _ _ _
    rw [hvisible]
    exact RereadsPipeline.template hpipeline

/-- A definition leaves visible what is. -/
theorem Defines.rereads (hdefines : Defines setting s after) (hlexed : s.Lexed) :
    s.Proceeds setting after ∧ after.visible = s.visible := by
  cases hdefines with
  | definition hname hclose hroot hdefine =>
    have hnamed := (hname.proceeds.trans hclose.proceeds : s.Proceeds setting _)
    obtain ⟨hproceeds, ⟨last, hbody⟩, hvisible⟩ := hroot.rereads (hnamed.leads.lexed hlexed)
    rw [hclose.visible_eq, hname.visible_eq] at hvisible
    exact ⟨(hnamed.trans hproceeds).define ⟨last, hbody.nodes⟩ hdefine, hvisible⟩

/-- The statements of a source are read again one after the other, although definitions may stand
between them, and so is every tree that is found. -/
theorem DerivesRoot.rereads {found : List Node} (hderives : DerivesRoot setting found s after)
    (hlexed : s.Lexed) : s.Proceeds setting after ∧
      Threads (RereadsStatement setting s.loopDepth) s.visible found after.visible := by
  induction hderives with
  | @finished s => exact ⟨(State.Leads.refl s).proceeds rfl, .nil⟩
  | @definition s afterWord _ _ _ hopens hdefines _ ih =>
    have hword : s.Proceeds setting afterWord :=
      (s.leads_advance.proceeds s.trees_advance).trans hopens.word.proceeds
    obtain ⟨hdefined, hvisible⟩ := hdefines.rereads (hword.leads.lexed hlexed)
    have hbehind := hword.trans hdefined
    obtain ⟨hproceeds, hfound⟩ := ih (hbehind.leads.lexed hlexed)
    rw [hbehind.leads.loopDepth_eq, hvisible, hopens.word.visible_eq, s.visible_advance] at hfound
    exact ⟨hbehind.trans hproceeds, hfound⟩
  | statement _ _ hfirst _ ih =>
    obtain ⟨hstatement, hnode⟩ := hfirst.rereads hlexed
    obtain ⟨hproceeds, hfound⟩ := ih (hstatement.leads.lexed hlexed)
    rw [hstatement.leads.loopDepth_eq] at hfound
    exact ⟨hstatement.trans hproceeds, .cons hnode hfound⟩

end Sources

end Parse

/-- Every tree of a source between double braces is read again. -/
theorem rereads_of_parse {name source : String} {isFunction : String → Bool} {set : TreeSet}
    (hparse : parse name Delimiters.braces isFunction source = .ok set) {tree : Tree}
    (htree : tree ∈ set.trees) : Parse.RereadsTree ⟨name, isFunction⟩ tree := by
  obtain ⟨nodes, after, hderives, hdefine⟩ := parse_eq_ok_iff.mp hparse
  have hlexed : (Parse.State.initial (lex Delimiters.braces source)).Lexed :=
    ⟨fun _ hitem ↦ legible_of_mem_lex hitem, isChain_lex source⟩
  obtain ⟨hproceeds, hnodes⟩ := hderives.rereads hlexed
  have hroot : Parse.RereadsTree ⟨name, isFunction⟩ ⟨name, name,
      ⟨(Parse.State.initial (lex Delimiters.braces source)).peek.position, nodes⟩⟩ :=
    ⟨after.visible, hnodes⟩
  have hdefined := hproceeds.define hroot hdefine
  exact hdefined.trees (fun _ hnone ↦ absurd hnone List.not_mem_nil) tree htree

end Stencil.Syntax
