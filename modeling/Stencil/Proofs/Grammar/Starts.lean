import Stencil.Proofs.Grammar.Steps

/-!
# What phrases and passages start with

A derivation shows what the parser has before it where a phrase or a passage is read. An operand, a
command and a pipeline start with an item that may start an operand, a statement is a text, a
comment or an action, and no action that is read is a definition. Behind an operand stands a blank
or what closes the pipeline, and never a sign or a comma, so a command is not taken for a
declaration (`not_startsDeclaration_of_command`), although both may start with a variable. No
definition starts where a statement is read (`not_opensDefinition`).
-/

set_option autoImplicit false
set_option relaxedAutoImplicit false

namespace Stencil.Syntax.Parse

section Starts

variable {setting : Setting} {s middle after : State}

/-! ### Spaces -/

/-- Spaces are skipped up to an item that is none. -/
theorem State.skipSpaces_of_peek (hkind : s.peek.kind ≠ .space) : s.skipSpaces = s := by
  obtain ⟨line, items, visible, trees, actionLine, loopDepth, depth⟩ := s
  cases items with
  | nil => rfl
  | cons item rest =>
    have hitem : item.kind ≠ .space := hkind
    simp [State.skipSpaces, State.skipFrom, hitem]

/-- The spaces behind a space are skipped with it. -/
theorem State.skipSpaces_advance (hspace : s.peek.kind = .space) :
    s.advance.skipSpaces = s.skipSpaces := by
  obtain ⟨line, items, visible, trees, actionLine, loopDepth, depth⟩ := s
  cases items with
  | nil => rfl
  | cons item rest =>
    have hitem : item.kind = .space := hspace
    simp [State.skipSpaces, State.skipFrom, State.advance, hitem]

/-- What is read where spaces are skipped is read before the spaces. -/
theorem State.Reads.of_skipSpaces {item : Item} (hread : s.Reads item after)
    (hskip : middle.skipSpaces = s.skipSpaces) : middle.Reads item after := by
  obtain ⟨line, items, visible, trees, actionLine, loopDepth, depth⟩ := s
  obtain ⟨line', items', visible', trees', actionLine', loopDepth', depth'⟩ := middle
  obtain ⟨hrest, hstate⟩ := hread
  rw [← hskip] at hrest
  simp only [State.skipSpaces, State.mk.injEq] at hskip
  obtain ⟨_, _, rfl, rfl, rfl, rfl, rfl⟩ := hskip
  exact ⟨hrest, hstate⟩

/-! ### Pipelines -/

/-- A term may start an operand. -/
theorem IsTerm.startsOperand {visible : List String} {item : Item} {found : Node}
    (hterm : IsTerm setting visible item found) : startsOperand item.kind = true := by
  cases hterm with
  | string hkind => rcases hkind with hkind | hkind <;> rw [hkind] <;> rfl
  | identifier hkind | dot hkind | nil hkind | variableName hkind | field hkind | bool hkind
  | charConstant hkind | number hkind => rw [hkind]; rfl

/-- An operand starts with an item that may start one. -/
theorem exists_reads_of_operand {found : Node}
    (hderives : DerivesPhrase setting (.operand found) s after) :
    ∃ item afterItem, s.Reads item afterItem ∧ startsOperand item.kind = true := by
  cases hderives with
  | parenthesized hread hkind => exact ⟨_, _, hread, by rw [hkind]; rfl⟩
  | term hread hterm => exact ⟨_, _, hread, hterm.startsOperand⟩

/-- A command starts with an item that may start an operand. -/
theorem exists_reads_of_command {found : Command}
    (hderives : DerivesPhrase setting (.command found) s after) :
    ∃ item afterItem, s.Reads item afterItem ∧ startsOperand item.kind = true := by
  cases hderives with
  | command hoperands hvalue =>
    cases hoperands with
    | operandsEnd => exact absurd rfl hvalue
    | operandsMore hfirst | operandsLast hfirst =>
      obtain ⟨item, afterItem, hread, hstart⟩ := exists_reads_of_operand hfirst
      exact ⟨item, afterItem, hread.of_skipSpaces skipSpaces_skipSpaces.symm, hstart⟩

/-- A pipeline starts with an item that may start an operand. -/
theorem exists_reads_of_pipeline {clause : Clause} {closer : ItemKind}
    {found : Pipeline} (hderives : DerivesPhrase setting (.pipeline clause closer found) s after) :
    ∃ item afterItem, s.Reads item afterItem ∧ startsOperand item.kind = true := by
  cases hderives with
  | pipeline hdeclares hcommands hvalue =>
    generalize furtherVariables clause = more at hdeclares
    cases hdeclares with
    | last hname hvariable | more hname hvariable => exact ⟨_, _, hname, hvariable ▸ rfl⟩
    | none =>
      cases hcommands with
      | commandsEnd => exact absurd rfl hvalue
      | commandsMore _ _ _ hfirst =>
        obtain ⟨item, afterItem, hread, hkind⟩ := exists_reads_of_command hfirst
        exact ⟨item, afterItem, hread.of_skipSpaces skipSpaces_skipSpaces.symm, hkind⟩

/-- What starts an operand starts no control structure. -/
theorem startsControl_of_startsOperand {kind : ItemKind} (hkind : startsOperand kind = true) :
    startsControl kind = false := by
  cases kind with
  | keyword word => cases word <;> first | rfl | cases hkind
  | _ => rfl

/-- Behind operands, or where there are none, neither a sign nor a comma stands. -/
theorem kind_of_operands {found : List Node}
    (hderives : DerivesPhrase setting (.operands found) s after) {item : Item} {afterItem : State}
    (hread : s.Reads item afterItem) :
    startsOperand item.kind = true ∨ item.kind ∈ [ItemKind.rightDelim, .rightParen, .pipe] := by
  cases hderives with
  | operandsEnd _ hend =>
    rw [← hread.peek_eq]
    cases hend with
    | closer hkind => rcases hkind with hkind | hkind <;> simp [hkind]
    | bar hkind => simp [hkind]
  | operandsMore hfirst | operandsLast hfirst =>
    obtain ⟨other, afterOther, hother, hstart⟩ := exists_reads_of_operand hfirst
    have hsame := hread.unique (hother.of_skipSpaces skipSpaces_skipSpaces.symm)
    exact .inl (hsame.1 ▸ hstart)

/-- Where an operand starts with a variable, it is the variable alone or a field follows. -/
theorem eq_of_operand {found : Node} (hderives : DerivesPhrase setting (.operand found) s after)
    {item : Item} {afterName : State} (hread : s.Reads item afterName)
    (hvariable : item.kind = .variable) : after = afterName ∨ afterName.peek.kind = .field := by
  cases hderives with
  | parenthesized hother hkind =>
    rw [← (hread.unique hother).1, hvariable] at hkind
    cases hkind
  | term hother _ hchained =>
    rw [(hread.unique hother).2]
    cases hchained with
    | alone => exact .inl rfl
    | fields hfield => exact .inr hfield

/-- What is read as a command is not taken for a declaration. -/
theorem not_startsDeclaration_of_command {found : Command}
    (hderives : DerivesPhrase setting (.command found) s after) : ¬ StartsDeclaration s := by
  rintro ⟨item, afterName, sign, afterSign, hname, hvariable, hsign, hkind⟩
  have hsignKind : sign.kind ∈ [ItemKind.assign, .declare, .char] := by
    rcases hkind with hkind | hkind
    · simp only [isDeclaring, Bool.or_eq_true, decide_eq_true_eq] at hkind
      rcases hkind with hkind | hkind <;> simp [hkind]
    · simp only [isSeparator, Bool.and_eq_true, decide_eq_true_eq] at hkind
      simp [hkind.1]
  have hpeek (hspace : afterName.peek.kind ≠ .space) : afterName.peek = sign := by
    rw [← hsign.peek_eq, State.skipSpaces_of_peek hspace]
  have hname' : s.skipSpaces.Reads item afterName := hname.of_skipSpaces skipSpaces_skipSpaces
  have hfield : afterName.peek.kind ≠ .field := by
    intro hfield
    rw [← hpeek (by simp [hfield]), hfield] at hsignKind
    revert hsignKind
    decide
  cases hderives with
  | command hoperands hvalue =>
    cases hoperands with
    | operandsEnd => exact hvalue rfl
    | operandsMore hfirst hspace hothers =>
      obtain rfl | hother := eq_of_operand hfirst hname' hvariable
      · have hfollows :=
          kind_of_operands hothers (hsign.of_skipSpaces (State.skipSpaces_advance hspace))
        generalize sign.kind = kind at hsignKind hfollows
        revert hsignKind hfollows
        cases kind <;> simp [startsOperand]
      · exact hfield hother
    | operandsLast hfirst hspace hend =>
      obtain rfl | hother := eq_of_operand hfirst hname' hvariable
      · rw [← hpeek hspace] at hsignKind
        cases hend with
        | closer hkind => rcases hkind with hkind | hkind <;> simp [hkind] at hsignKind
        | bar hkind => simp [hkind] at hsignKind
      · exact hfield hother

/-- What is read as commands is not taken for a declaration. -/
theorem not_startsDeclaration_of_commands {closer : ItemKind} {found : List Command}
    (hderives : DerivesPhrase setting (.commands closer found) s after) (hne : found ≠ []) :
    ¬ StartsDeclaration s := by
  cases hderives with
  | commandsEnd => exact absurd rfl hne
  | commandsMore _ _ _ hfirst => exact not_startsDeclaration_of_command hfirst

/-- A declaration starts behind the spaces in front of it. -/
theorem StartsDeclaration.skipSpaces (hstarts : StartsDeclaration s) :
    StartsDeclaration s.skipSpaces := by
  obtain ⟨item, afterName, sign, afterSign, hname, hdeclares⟩ := hstarts
  exact ⟨item, afterName, sign, afterSign, hname.of_skipSpaces skipSpaces_skipSpaces, hdeclares⟩

/-! ### Statements -/

/-- A statement is a text, a comment or an action. -/
theorem kind_of_statement {found : Statement}
    (hderives : DerivesPassage setting (.statement found) s after) :
    s.skipSpaces.peek.kind ∈ [ItemKind.text, .comment, .leftDelim] := by
  cases hderives with
  | text hread hkind | comment hread hkind | delimited hread hkind =>
    simp [hread.peek_eq, hkind]

/-- The source is not at its end in front of a statement. -/
theorem peek_ne_eof_of_statement {found : Statement}
    (hderives : DerivesPassage setting (.statement found) s after) :
    s.skipSpaces.peek.kind ≠ .eof := by
  have hkind := kind_of_statement hderives
  intro heof
  rw [heof] at hkind
  revert hkind
  decide

/-- In front of a body stands no keyword. -/
theorem peek_ne_keyword_of_body {found : Body} {ending : Ending}
    (hderives : DerivesPassage setting (.body found ending) s after) (word : Keyword) :
    s.peek.kind ≠ .keyword word := by
  have hkind : s.enter.skipSpaces.peek.kind ∈ [ItemKind.text, .comment, .leftDelim] := by
    cases hderives with
    | body _ hfound =>
      cases hfound with
      | statementsEnd _ hstatement | statementsMore _ hstatement =>
        exact kind_of_statement hstatement
  intro hword
  have hpeek : s.enter.peek.kind = .keyword word := hword
  rw [State.skipSpaces_of_peek (by simp [hpeek]), hpeek] at hkind
  simp at hkind

/-- No action that is read is a definition. -/
theorem peek_ne_define_of_action {found : Statement}
    (hderives : DerivesPassage setting (.action found) s after) :
    s.skipSpaces.peek.kind ≠ .keyword .defineWord := by
  cases hderives with
  | pipelineAction hread hkind hfound =>
    obtain ⟨item, afterItem, hitem, hstart⟩ := exists_reads_of_pipeline hfound
    rw [hitem.peek_eq]
    intro hword
    rw [hword] at hstart
    cases hstart
  | @branchAction _ _ _ _ kind _ hread hkind =>
    rw [hread.peek_eq, hkind]
    cases kind <;> simp [branchWord]
  | blockAction hread hkind | breakAction hread hkind | continueAction hread hkind
  | elseWord hread hkind | elseAction hread hkind | endAction hread hkind
  | templateBare hread hkind | templateWith hread hkind =>
    rw [hread.peek_eq, hkind]
    simp

/-- No definition starts where a statement is read. -/
theorem not_opensDefinition {found : Statement}
    (hderives : DerivesPassage setting (.statement found) s after) (afterWord : State) :
    ¬ OpensDefinition s afterWord := by
  rintro ⟨hdelimited, mark, hmark, hword⟩
  have hskip : s.skipSpaces = s := State.skipSpaces_of_peek (by simp [hdelimited])
  cases hderives with
  | text hread hkind | comment hread hkind =>
    rw [← hread.peek_eq, hskip, hdelimited] at hkind
    cases hkind
  | @delimited _ afterItem _ item _ hread _ hfound =>
    have hbehind : afterItem = s.advance := by
      have hrest := hread.rest_eq
      rw [hskip] at hrest
      rw [hread.state_eq, State.advance, hrest]
    refine peek_ne_define_of_action hfound ?_
    rw [hbehind]
    change s.advance.skipSpaces.peek.kind = _
    rw [hmark.peek_eq, hword]

end Starts

end Stencil.Syntax.Parse
