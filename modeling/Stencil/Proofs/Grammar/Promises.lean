import Stencil.Proofs.Grammar.Progress

/-!
# The parser keeps its promises

Each script makes only calls that it may make and comes only to what its function promises, one
lemma for each function, in the order of the functions. A parse reads on only behind an item of a
kind that it was looking for, and no such kind ends a source, so an item is left wherever it goes
on.
-/

set_option autoImplicit false
set_option relaxedAutoImplicit false

namespace Stencil.Syntax.Parse

/-! ### Kinds that do not end a source -/

theorem endsSource_of_isDeclaring {kind : ItemKind} (hkind : isDeclaring kind = true) :
    kind.endsSource = false := by
  cases kind <;> first | rfl | cases hkind

theorem endsSource_of_isSeparator {item : Item} (hitem : isSeparator item = true) :
    item.kind.endsSource = false := by
  simp only [isSeparator, Bool.and_eq_true, decide_eq_true_eq] at hitem
  rw [hitem.1]
  rfl

theorem endsSource_of_simpleTerm {setting : Setting} {s : State} {item : Item} {term : Node}
    (hterm : simpleTerm setting s item = .ok (some term)) : item.kind.endsSource = false := by
  have hstart := (simpleTerm_eq_some_iff.mp hterm).startsOperand
  cases hkind : item.kind <;> first | rfl | (rw [hkind] at hstart; cases hstart)

open Steps (call)

namespace Script

variable {setting : Setting} {items : List Item} {s : State}

/-! ### Items -/

theorem meets_item (hend : HaveEnd items) (hs : s.Within items) :
    (item s).Meets items .item s (Call.item.Promises items s) := by
  refine .ite (fun hspace ↦ ?_) fun hspace ↦ ?_
  · have hadvance := State.consumes_advance hend hs (by rw [hspace]; rfl)
    refine .call (hadvance.admits rfl rfl trivial) fun found after hfound ↦ ?_
    obtain ⟨item, rfl, hread⟩ := hfound
    exact ⟨item, rfl, hread.of_skipSpaces (State.skipSpaces_advance hspace).symm⟩
  · have hne := (State.within_iff.mp hs).2
    cases hrest : s.rest with
    | nil => exact absurd hrest hne
    | cons next rest =>
      refine .pure ⟨next, rfl, ?_, ?_⟩
      · rw [State.skipSpaces_of_peek hspace, hrest]
        simp [State.advance, hrest]
      · simp [State.advance, hrest]

theorem meets_fields (hend : HaveEnd items) (hs : s.Within items) :
    (fields s).Meets items .fields s (Call.fields.Promises items s) := by
  refine .ite (fun hfield ↦ ?_) fun _ ↦ .pure (State.Keeps.refl hs)
  have hadvance := State.consumes_advance hend hs (by rw [hfield]; rfl)
  exact .call_bind (hadvance.admits rfl rfl trivial) fun names after hafter ↦
    .pure (hadvance.trans_keeps hafter).toKeeps

section Items

variable {α : Type} {caller : Call α} {t : State} {clause : Clause}

theorem meets_nextItem {good : Item × State → Prop} (hitem : caller.Admits items t .item s)
    (hgood : ∀ item after, s.Reads item after → good (item, after)) :
    (nextItem setting s clause).Meets items caller t good := by
  refine .call_bind hitem fun found after hfound ↦ ?_
  obtain ⟨item, rfl, hread⟩ := hfound
  exact .pure (hgood item after hread)

theorem meets_expect (hend : HaveEnd items) {kinds : List ItemKind} {good : Item × State → Prop}
    (hitem : caller.Admits items t .item s) (hkinds : ∀ kind ∈ kinds, kind.endsSource = false)
    (hgood : ∀ item after, s.Consumes items after → good (item, after)) :
    (expect setting s kinds clause).Meets items caller t good := by
  refine .bind (meets_nextItem hitem fun item after hread ↦ ?_)
  refine .ite (fun hkind ↦ .pure (hgood item after ?_)) fun _ ↦ Steps.meets_unexpected
  exact hread.consumes hend hitem.within (hkinds _ (List.contains_iff_mem.mp hkind))

theorem meets_templateName (hend : HaveEnd items) {good : (String × Position) × State → Prop}
    (hitem : caller.Admits items t .item s)
    (hgood : ∀ name after, s.Consumes items after → good (name, after)) :
    (templateName setting clause s).Meets items caller t good := by
  refine .bind (meets_expect hend hitem (by decide) fun item after hread ↦ ?_)
  exact .lift_bind fun name _ ↦ .pure (hgood (name, item.position) after hread)

end Items

/-! ### Pipelines -/

theorem meets_declarations (hend : HaveEnd items) (hs : s.Within items) {clause : Clause}
    {more : Nat} :
    (declarations setting clause more s).Meets items (.declarations clause more) s
      ((Call.declarations clause more).Promises items s) := by
  -- A variable with neither a sign nor a separator behind it is left to be read again.
  have hunchanged := State.keeps_skipSpaces hend hs
  refine .call_bind ((State.Keeps.refl hs).admits (by simp) rfl rfl trivial)
    fun found afterName hfound ↦ ?_
  obtain ⟨name, rfl, hname⟩ := hfound
  refine .ite (fun hvariable ↦ ?_) fun _ ↦ .pure hunchanged
  have hafterName := hname.consumes hend hs (by rw [hvariable]; rfl)
  refine .call_bind (hafterName.admits rfl rfl trivial) fun found afterSign hfound ↦ ?_
  obtain ⟨sign, rfl, hsign⟩ := hfound
  have hdeclared (hkind : sign.kind.endsSource = false) :
      s.Consumes items (afterSign.declare name.value) :=
    (hafterName.trans (hsign.consumes hend hafterName.within hkind)).congr rfl rfl rfl
  refine .ite (fun hkind ↦ .pure (hdeclared (endsSource_of_isDeclaring hkind)).toKeeps) fun _ ↦
    .ite (fun hseparator ↦ ?_) fun _ ↦ .pure hunchanged
  have hafterSign := hdeclared (endsSource_of_isSeparator hseparator)
  cases more with
  | zero => exact Steps.meets_fail
  | succ more =>
    refine .ite (fun _ ↦ ?_) fun _ ↦ Steps.meets_fail
    refine .call_bind (hafterSign.admits rfl rfl trivial) fun others after hothers ↦ ?_
    exact .pure (hafterSign.trans_keeps hothers).toKeeps

theorem meets_pipeline (hs : s.Within items) {clause : Clause} {closer : ItemKind}
    (hcloser : closer.endsSource = false) :
    (pipeline setting clause closer s).Meets items (.pipeline clause closer) s
      ((Call.pipeline clause closer).Promises items s) := by
  refine .call_bind ((State.Keeps.refl hs).admits (by simp) rfl rfl trivial)
    fun declared afterDeclarations hdeclared ↦ ?_
  refine .call_bind (State.Keeps.admits hdeclared (by simp) rfl rfl hcloser)
    fun found after hfound ↦ ?_
  exact .lift_bind fun _ _ ↦ .pure (State.Keeps.trans_consumes hdeclared hfound)

theorem meets_commands (hend : HaveEnd items) (hs : s.Within items) {clause : Clause}
    {closer : ItemKind} (hcloser : closer.endsSource = false) :
    (commands setting clause closer s).Meets items (.commands clause closer) s
      ((Call.commands clause closer).Promises items s) := by
  -- The item that is looked at is read again by the command, from the same place.
  have hrefl := State.Keeps.refl hs
  refine .bind (meets_nextItem (hrefl.admits (by simp) rfl rfl trivial) fun item afterItem
    hread ↦ ?_)
  refine .ite (fun hkind ↦ .pure (hread.consumes hend hs (hkind ▸ hcloser))) fun _ ↦
    .ite (fun _ ↦ ?_) fun _ ↦ Steps.meets_unexpected
  refine .call_bind (hrefl.admits (by simp) rfl rfl trivial) fun first afterFirst hfirst ↦ ?_
  refine .call_bind (State.Consumes.admits hfirst rfl rfl hcloser) fun others after hothers ↦ ?_
  exact .pure (State.Consumes.trans hfirst hothers)

theorem meets_command (hs : s.Within items) :
    (command setting s).Meets items .command s (Call.command.Promises items s) := by
  refine .call_bind ((State.Keeps.refl hs).admits (by simp) rfl rfl trivial)
    fun nodes after hoperands ↦ ?_
  exact .ite (fun hnodes ↦ .pure ⟨hoperands.1, hoperands.2 hnodes⟩) fun _ ↦ Steps.meets_fail

theorem meets_operands (hend : HaveEnd items) (hs : s.Within items) :
    (operands setting s).Meets items .operands s (Call.operands.Promises items s) := by
  have hskip := State.keeps_skipSpaces hend hs
  refine .call_bind (hskip.admits (by simp) rfl rfl trivial) fun found afterNode hfound ↦ ?_
  cases found with
  | none =>
    refine .lift_bind fun ending hending ↦ .pure ⟨?_, fun hnil ↦ absurd rfl hnil⟩
    exact hskip.trans ((commandEnd_eq_ok_iff.mp hending).keeps hend hskip.within)
  | some node =>
    have hnode := hskip.trans_consumes (hfound (by simp))
    refine .ite (fun hspace ↦ ?_) fun _ ↦ .lift_bind fun ending hending ↦ ?_
    · have hadvance := hnode.trans
        (State.consumes_advance hend hnode.within (by rw [hspace]; rfl))
      refine .call_bind (hadvance.admits rfl rfl trivial) fun others after hothers ↦ ?_
      have hafter := hadvance.trans_keeps hothers.1
      exact .pure ⟨hafter.toKeeps, fun _ ↦ hafter.shorter⟩
    · have hafter := hnode.trans_keeps ((commandEnd_eq_ok_iff.mp hending).keeps hend hnode.within)
      exact .pure ⟨hafter.toKeeps, fun _ ↦ hafter.shorter⟩

theorem meets_chained {term : Node} {t : State} (hterm : t.Consumes items s) :
    (chained setting term s).Meets items .operand t fun found ↦ t.Consumes items found.2 :=
  .ite (fun _ ↦ .call_bind (hterm.admits rfl rfl trivial) fun _ _ hfields ↦
    .lift_bind fun _ _ ↦ .pure (hterm.trans_keeps hfields)) fun _ ↦ .pure hterm

theorem meets_operand (hend : HaveEnd items) (hs : s.Within items) :
    (operand setting s).Meets items .operand s (Call.operand.Promises items s) := by
  refine .call_bind ((State.Keeps.refl hs).admits (by simp) rfl rfl trivial)
    fun found afterItem hfound ↦ ?_
  obtain ⟨item, rfl, hread⟩ := hfound
  refine .ite (fun hparen ↦ .lift_bind fun _ _ ↦ ?_) fun _ ↦ .lift_bind fun found hfound ↦ ?_
  · have hitem := hread.consumes hend hs (by rw [hparen]; rfl)
    refine .call_bind ⟨hitem.within, .inl hitem.shorter,
      congrArg (· + 1) hitem.sameDepths.depth_eq, hitem.sameDepths.loopDepth_eq, rfl⟩
      fun inner afterInner hinner ↦ ?_
    refine .call_bind (hitem.toKeeps.admits_leave hinner rfl rfl) fun _ afterParen hparen ↦ ?_
    cases hparen
    have hafter := hitem.trans (State.Consumes.leave hinner)
    exact .bind ((meets_chained hafter).mono fun _ hwhole ↦ .pure fun _ ↦ hwhole)
  · cases found with
    | none => exact .pure fun hnone ↦ absurd rfl hnone
    | some term =>
      have hafter := hread.consumes hend hs (endsSource_of_simpleTerm hfound)
      exact .bind ((meets_chained hafter).mono fun _ hwhole ↦ .pure fun _ ↦ hwhole)

/-! ### Statements -/

theorem meets_body (hs : s.Within items) :
    (body setting s).Meets items .body s (Call.body.Promises items s) := by
  refine .lift_bind fun _ _ ↦ .call_bind ⟨hs, .inr ⟨.refl s, by simp⟩, rfl, rfl, trivial⟩
    fun found inside hinside ↦ ?_
  obtain ⟨nodes, ending⟩ := found
  refine .call_bind ((State.Keeps.refl hs).admits_leave hinside rfl rfl)
    fun _ after hafter ↦ ?_
  cases hafter
  exact .pure (State.Consumes.leave hinside)

theorem meets_statements (hs : s.Within items) :
    (statements setting s).Meets items .statements s (Call.statements.Promises items s) := by
  refine .ite (fun _ ↦ Steps.meets_fail) fun _ ↦ .call_bind
    ((State.Keeps.refl hs).admits (by simp) rfl rfl trivial) fun first afterFirst hfirst ↦ ?_
  have hfirst : s.Consumes items afterFirst := hfirst
  cases first with
  | ending ending => exact .pure hfirst
  | node node =>
    refine .call_bind (hfirst.admits rfl rfl trivial) fun found after hothers ↦ ?_
    obtain ⟨nodes, ending⟩ := found
    exact .pure (hfirst.trans hothers)

theorem meets_statement (hend : HaveEnd items) (hs : s.Within items) :
    (statement setting s).Meets items .statement s (Call.statement.Promises items s) := by
  refine .bind (meets_nextItem ((State.Keeps.refl hs).admits (by simp) rfl rfl trivial)
    fun item afterItem hread ↦ ?_)
  dsimp only
  split
  next hkind => exact .pure (hread.consumes hend hs (by rw [hkind]; rfl))
  next hkind => exact .pure (hread.consumes hend hs (by rw [hkind]; rfl))
  next hkind =>
    have hitem : s.Consumes items (afterItem.enterAction item.position.line) :=
      (hread.consumes hend hs (by rw [hkind]; rfl)).congr rfl rfl rfl
    refine .call_bind (hitem.admits rfl rfl trivial) fun found after hfound ↦ ?_
    exact .pure ((hitem.trans hfound).congr rfl rfl rfl)
  next => exact Steps.meets_unexpected

section Actions

variable {t : State}

theorem meets_endControl (hend : HaveEnd items) (hword : t.Consumes items s) :
    (endControl setting s).Meets items .action t (Call.action.Promises items t) :=
  .bind (meets_expect hend (hword.admits rfl rfl trivial) (by decide)
    fun _ _ hafter ↦ .pure (hword.trans hafter))

theorem meets_elseControl (hend : HaveEnd items) (hword : t.Consumes items s) :
    (elseControl setting s).Meets items .action t (Call.action.Promises items t) :=
  .ite (fun _ ↦ .pure (hword.trans_keeps (State.keeps_skipSpaces hend hword.within))) fun _ ↦
    .bind (meets_expect hend (hword.admits rfl rfl trivial) (by decide)
      fun _ _ hafter ↦ .pure (hword.trans hafter))

theorem meets_asStatement {steps : Steps (Node × State)}
    (hsteps : steps.Meets items .action t fun found ↦ t.Consumes items found.2) :
    (asStatement steps).Meets items .action t (Call.action.Promises items t) :=
  .bind (hsteps.mono fun _ hfound ↦ .pure hfound)

theorem meets_controlAction {kind : BranchKind} (hword : t.Consumes items s) :
    (asStatement (call (.control kind) s)).Meets items .action t
      (Call.action.Promises items t) :=
  meets_asStatement (.call (hword.admits rfl rfl trivial) fun _ _ hnode ↦ hword.trans hnode)

theorem meets_loopControl (hend : HaveEnd items) {clause : Clause} {node : Node}
    (hword : t.Consumes items s) :
    (loopControl setting clause node s).Meets items .action t
      fun found ↦ t.Consumes items found.2 := by
  refine .bind (meets_nextItem (hword.admits rfl rfl trivial) fun item after hread ↦ ?_)
  refine .ite (fun _ ↦ Steps.meets_unexpected) fun hkind ↦
    .ite (fun _ ↦ Steps.meets_fail) fun _ ↦ .pure (hword.trans ?_)
  rw [ne_eq, not_not] at hkind
  exact hread.consumes hend hword.within (by rw [hkind]; rfl)

theorem meets_templateControl (hend : HaveEnd items) (hword : t.Consumes items s) :
    (templateControl setting s).Meets items .action t
      fun found ↦ t.Consumes items found.2 := by
  refine .bind (meets_templateName hend (hword.admits rfl rfl trivial) fun name afterName
    hname ↦ ?_)
  have hname := hword.trans hname
  refine .bind (meets_nextItem (hname.admits rfl rfl trivial) fun item afterItem hread ↦ ?_)
  refine .ite (fun hkind ↦ .pure (hname.trans ?_)) fun _ ↦
    .call_bind (hname.admits rfl rfl rfl) fun argument after hargument ↦
      .pure (hname.trans hargument)
  exact hread.consumes hend hname.within (by rw [hkind]; rfl)

theorem meets_pipelineAction (hs : s.Within items) :
    (pipelineAction s).Meets items .action s fun found ↦ s.Consumes items found.2 :=
  .call_bind ((State.Keeps.refl hs).admits (by simp) rfl rfl rfl) fun _ _ hfound ↦ .pure hfound

theorem meets_action (hend : HaveEnd items) (hs : s.Within items) :
    (action setting s).Meets items .action s (Call.action.Promises items s) := by
  refine .bind (meets_nextItem ((State.Keeps.refl hs).admits (by simp) rfl rfl trivial)
    fun item afterItem hread ↦ ?_)
  dsimp only
  have hword {word : Keyword} (hkind : item.kind = .keyword word) :
      s.Consumes items afterItem := hread.consumes hend hs (by rw [hkind]; rfl)
  split
  next hkind =>
    exact meets_asStatement (.call ((hword hkind).admits rfl rfl trivial) fun _ _ hnode ↦
      (hword hkind).trans hnode)
  next hkind => exact meets_asStatement (meets_loopControl hend (hword hkind))
  next hkind => exact meets_asStatement (meets_loopControl hend (hword hkind))
  next hkind => exact meets_elseControl hend (hword hkind)
  next hkind => exact meets_endControl hend (hword hkind)
  next hkind => exact meets_controlAction (hword hkind)
  next hkind => exact meets_controlAction (hword hkind)
  next hkind => exact meets_controlAction (hword hkind)
  next hkind => exact meets_asStatement (meets_templateControl hend (hword hkind))
  next => exact meets_asStatement (meets_pipelineAction hs)

end Actions

theorem meets_branchBody (hs : s.Within items) {kind : BranchKind} :
    (branchBody kind s).Meets items (.branchBody kind) s
      ((Call.branchBody kind).Promises items s) := by
  refine .call_bind ⟨hs, .inr ⟨.refl s, by simp⟩, rfl, rfl, trivial⟩
    fun found inside hinside ↦ ?_
  have hinside : (s.enterBranch kind).Consumes items inside := hinside
  have hloops : inside.loopDepth = s.loopDepth + loopsOf kind := hinside.sameDepths.loopDepth_eq
  refine .call_bind ⟨hinside.within, .inl hinside.shorter, hinside.sameDepths.depth_eq, hloops,
    Nat.le_trans (Nat.le_add_left _ _) (Nat.le_of_eq hloops.symm)⟩ fun _ after hafter ↦ ?_
  cases hafter
  exact .pure hinside.leaveBranch

theorem meets_nestedBody (hs : s.Within items) {clause : Clause} :
    (nestedBody setting clause s).Meets items (.nestedBody clause) s
      ((Call.nestedBody clause).Promises items s) := by
  refine .call_bind ⟨hs, .inr ⟨.refl s, by simp⟩, rfl, rfl, trivial⟩
    fun found after hinside ↦ ?_
  obtain ⟨inner, ending⟩ := found
  cases ending with
  | otherwise position => exact Steps.meets_fail
  | finished => exact .pure (State.Consumes.leaveTemplate hinside)

theorem meets_control (hend : HaveEnd items) (hs : s.Within items) {kind : BranchKind} :
    (control setting kind s).Meets items (.control kind) s
      ((Call.control kind).Promises items s) := by
  refine .call_bind ((State.Keeps.refl hs).admits (by simp) rfl rfl rfl)
    fun head afterHead hhead ↦ ?_
  have hhead : s.Consumes items afterHead := hhead
  refine .call_bind (hhead.admits rfl rfl trivial) fun found afterFirst hfirst ↦ ?_
  obtain ⟨first, ending⟩ := found
  have hfirst := hhead.trans hfirst
  cases ending with
  | finished => exact .pure (hfirst.congr rfl rfl rfl)
  | otherwise position =>
    refine .ite (fun hword ↦ ?_) fun _ ↦ .call_bind (hfirst.admits rfl rfl trivial)
      fun found after hsecond ↦ ?_
    · obtain ⟨word, _, hpeek⟩ := (Option.any_eq_true ..).mp hword
      have hadvance := hfirst.trans (State.consumes_advance hend hfirst.within
        (by rw [of_decide_eq_true hpeek]; rfl))
      refine .call_bind (hadvance.admits rfl rfl trivial) fun inner after hinner ↦ ?_
      exact .pure ((hadvance.trans hinner).congr rfl rfl rfl)
    · obtain ⟨second, last⟩ := found
      cases last with
      | otherwise position => exact Steps.meets_fail
      | finished => exact .pure ((hfirst.trans hsecond).congr rfl rfl rfl)

theorem meets_blockControl (hend : HaveEnd items) (hs : s.Within items) :
    (blockControl setting s).Meets items .blockControl s (Call.blockControl.Promises items s) := by
  refine .bind (meets_templateName hend ((State.Keeps.refl hs).admits (by simp) rfl rfl trivial)
    fun name afterName hname ↦ ?_)
  refine .call_bind (hname.admits rfl rfl rfl) fun argument afterHead hhead ↦ ?_
  have hhead := hname.trans hhead
  refine .call_bind (hhead.admits rfl rfl trivial) fun inner after hinner ↦ ?_
  exact .lift_bind fun trees _ ↦ .pure ((hhead.trans hinner).congr rfl rfl rfl)

/-! ### Sources -/

theorem meets_definition (hend : HaveEnd items) (hs : s.Within items) :
    (definition setting s).Meets items .definition s (Call.definition.Promises items s) := by
  refine .bind (meets_templateName hend ((State.Keeps.refl hs).admits (by simp) rfl rfl trivial)
    fun name afterName hname ↦ ?_)
  refine .bind (meets_expect hend (hname.admits rfl rfl trivial) (by decide)
    fun item afterHead hhead ↦ ?_)
  have hhead := hname.trans hhead
  refine .call_bind (hhead.admits rfl rfl trivial) fun inner after hinner ↦ ?_
  exact .lift_bind fun trees _ ↦ .pure ((hhead.trans hinner).congr rfl rfl rfl)

theorem meets_definitionStart? (hend : HaveEnd items) (hs : s.Within items) :
    (definitionStart? s).Meets items .root s
      fun opened ↦ ∀ after, opened = some after → s.Consumes items after := by
  refine .ite (fun hpeek ↦ ?_) fun _ ↦ .pure (by simp)
  have hopening := State.consumes_advance hend hs (by rw [hpeek]; rfl)
  refine .call_bind (hopening.admits rfl rfl trivial) fun found after hfound ↦ ?_
  obtain ⟨word, rfl, hread⟩ := hfound
  refine .pure fun afterWord hopened ↦ ?_
  split at hopened
  next hkind =>
    cases hopened
    exact hopening.trans (hread.consumes hend hopening.within (by rw [hkind]; rfl))
  next => cases hopened

theorem meets_root (hend : HaveEnd items) (hs : s.Within items) :
    (root setting s).Meets items .root s (Call.root.Promises items s) := by
  have hrefl := State.Keeps.refl hs
  refine .ite (fun _ ↦ .pure hrefl) fun _ ↦ .bind ((meets_definitionStart? hend hs).mono
    fun opened hopened ↦ ?_)
  cases opened with
  | some afterWord =>
    have hword := hopened afterWord rfl
    refine .call_bind (hword.admits rfl rfl trivial) fun _ after hdefinition ↦ ?_
    have hafter := hword.trans hdefinition
    exact .call (hafter.admits rfl rfl trivial) fun _ _ hothers ↦
      (hafter.trans_keeps hothers).toKeeps
  | none =>
    refine .call_bind (hrefl.admits (by simp) rfl rfl trivial) fun first afterFirst hfirst ↦ ?_
    have hfirst : s.Consumes items afterFirst := hfirst
    cases first with
    | ending ending => cases ending <;> exact Steps.meets_fail
    | node node =>
      refine .call_bind (hfirst.admits rfl rfl trivial) fun nodes after hothers ↦ ?_
      exact .pure (hfirst.trans_keeps hothers).toKeeps

theorem meets_source (hs : s.Within items) :
    (source setting s).Meets items .source s (Call.source.Promises items s) :=
  .call_bind ((State.Keeps.refl hs).admits (by simp) rfl rfl trivial) fun _ _ hroot ↦
    .lift_bind fun _ _ ↦ .pure hroot

end Script

/-! ### All functions -/

/-- The steps of a function make only calls that it may make, and keep its promise, where an item is
left and it is ready. -/
theorem Call.meets_script {α : Type} {setting : Setting} {items : List Item}
    (hend : HaveEnd items) (c : Call α) {s : State} (hs : s.Within items) (hready : c.Ready s) :
    (c.script setting s).Meets items c s (c.Promises items s) := by
  cases c with
  | item => exact Script.meets_item hend hs
  | fields => exact Script.meets_fields hend hs
  | leave | leaveBranch kind =>
    rintro found hfound
    cases hfound
    rfl
  | declarations clause more => exact Script.meets_declarations hend hs
  | operand => exact Script.meets_operand hend hs
  | operands => exact Script.meets_operands hend hs
  | command => exact Script.meets_command hs
  | commands clause closer => exact Script.meets_commands hend hs hready
  | pipeline clause closer => exact Script.meets_pipeline hs hready
  | action => exact Script.meets_action hend hs
  | statement => exact Script.meets_statement hend hs
  | statements => exact Script.meets_statements hs
  | body => exact Script.meets_body hs
  | branchBody kind => exact Script.meets_branchBody hs
  | nestedBody clause => exact Script.meets_nestedBody hs
  | control kind => exact Script.meets_control hend hs
  | blockControl => exact Script.meets_blockControl hend hs
  | definition => exact Script.meets_definition hend hs
  | root => exact Script.meets_root hend hs
  | source => exact Script.meets_source hs

end Stencil.Syntax.Parse
