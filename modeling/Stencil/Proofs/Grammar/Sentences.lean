import Stencil.Proofs.Grammar.Leaves
import Stencil.Proofs.Grammar.Starts
import Stencil.Proofs.Lexing.Outside

/-!
# The sentences that the parser accepts

What an accepted source looks like as a row of items, spaces aside: texts, comments and actions
(`IsSentence`), each action one of a few forms (`IsAction`) around pipelines (`HasForm`). A pipeline
is a declaration, if any, and commands with a bar between neighbours.

The parser is looser than that in two places: it lets a bar stand after the last command, and in a
loop it takes a variable with a separator for a declaration without waiting for a sign, if a further
variable starts the first command. With both admitted the form is that of every accepted source
(`isSentence_of_parse`); without them it is not (`not_isSentence_loose`).
-/

set_option autoImplicit false
set_option relaxedAutoImplicit false

namespace Stencil.Syntax

open Parse

/-! ### Forms -/

/-- The parts of a pipeline that have a form. -/
inductive Form
  | pipeline (clause : Clause)
  | commands
  | command
  | operand

/-- That items are a declaration that a clause admits, or none. -/
inductive IsDeclaration : Clause → List Item → Prop
  | none {clause : Clause} : IsDeclaration clause []
  | single {clause : Clause} {name sign : Item} (hname : name.kind = .variable)
    (hsign : isDeclaring sign.kind = true) : IsDeclaration clause [name, sign]
  | pair {index separator name sign : Item} (hindex : index.kind = .variable)
    (hseparator : isSeparator separator = true) (hname : name.kind = .variable)
    (hsign : isDeclaring sign.kind = true) : IsDeclaration .loop [index, separator, name, sign]

/-- That items have the form of a part of a pipeline. If `loose` holds, a bar may stand after the
last command, and the first variable of a loop may stand with no more than a separator. -/
inductive HasForm (loose : Bool) : Form → List Item → Prop
  | pipeline {clause : Clause} {declaration items : List Item}
    (hdeclaration : IsDeclaration clause declaration) (hcommands : HasForm loose .commands items) :
    HasForm loose (.pipeline clause) (declaration ++ items)
  | unsigned {index separator name : Item} {items : List Item} (hloose : loose = true)
    (hindex : index.kind = .variable) (hseparator : isSeparator separator = true)
    (hname : name.kind = .variable) (hcommands : HasForm loose .commands (name :: items)) :
    HasForm loose (.pipeline .loop) (index :: separator :: name :: items)
  | lastCommand {items : List Item} (hcommand : HasForm loose .command items) :
    HasForm loose .commands items
  | moreCommands {items others : List Item} {bar : Item} (hfirst : HasForm loose .command items)
    (hbar : bar.kind = .pipe) (hothers : HasForm loose .commands others) :
    HasForm loose .commands (items ++ bar :: others)
  | trailingBar {items : List Item} {bar : Item} (hloose : loose = true)
    (hcommand : HasForm loose .command items) (hbar : bar.kind = .pipe) :
    HasForm loose .commands (items ++ [bar])
  | lastOperand {items : List Item} (hoperand : HasForm loose .operand items) :
    HasForm loose .command items
  | moreOperands {items others : List Item} (hfirst : HasForm loose .operand items)
    (hothers : HasForm loose .command others) : HasForm loose .command (items ++ others)
  | term {item : Item} (hstart : startsOperand item.kind = true) (hkind : item.kind ≠ .leftParen) :
    HasForm loose .operand [item]
  | parenthesized {opening closing : Item} {items : List Item}
    (hopening : opening.kind = .leftParen) (hinner : HasForm loose (.pipeline .parenthesized) items)
    (hclosing : closing.kind = .rightParen) :
    HasForm loose .operand (opening :: (items ++ [closing]))
  | field {item : Item} {items : List Item} (hbase : HasForm loose .operand items)
    (hkind : item.kind = .field) : HasForm loose .operand (items ++ [item])

/-- That an item is the name of a template. -/
def Item.NamesTemplate (item : Item) : Prop := item.kind = .string ∨ item.kind = .rawString

/-- That items have the form of an action, its delimiters aside. -/
inductive IsAction (loose : Bool) : List Item → Prop
  | pipeline {items : List Item} (hpipeline : HasForm loose (.pipeline .command) items) :
    IsAction loose items
  | branch {kind : BranchKind} {word : Item} {items : List Item}
    (hword : word.kind = .keyword (branchWord kind))
    (hhead : HasForm loose (.pipeline (clauseOf kind)) items) : IsAction loose (word :: items)
  | continued {kind : BranchKind} {keyword : Keyword} {first word : Item} {items : List Item}
    (hfirst : first.kind = .keyword .elseWord) (hkeyword : continuing? kind = some keyword)
    (hword : word.kind = .keyword keyword)
    (hhead : HasForm loose (.pipeline (clauseOf kind)) items) :
    IsAction loose (first :: word :: items)
  | word {word : Item} {keyword : Keyword} (hword : word.kind = .keyword keyword)
    (hkeyword : keyword ∈ [.elseWord, .endWord, .breakWord, .continueWord]) :
    IsAction loose [word]
  | template {word name : Item} (hword : word.kind = .keyword .templateWord)
    (hname : name.NamesTemplate) : IsAction loose [word, name]
  | templateWith {word name : Item} {items : List Item}
    (hword : word.kind = .keyword .templateWord) (hname : name.NamesTemplate)
    (hargument : HasForm loose (.pipeline .template) items) : IsAction loose (word :: name :: items)
  | block {word name : Item} {items : List Item} (hword : word.kind = .keyword .blockWord)
    (hname : name.NamesTemplate) (hargument : HasForm loose (.pipeline .block) items) :
    IsAction loose (word :: name :: items)
  | definition {word name : Item} (hword : word.kind = .keyword .defineWord)
    (hname : name.NamesTemplate) : IsAction loose [word, name]

/-- That items have the form of a source. -/
inductive IsSentence (loose : Bool) : List Item → Prop
  | finished {item : Item} (hend : item.kind = .eof) : IsSentence loose [item]
  | outside {item : Item} {rest : List Item} (hkind : item.kind = .text ∨ item.kind = .comment)
    (hrest : IsSentence loose rest) : IsSentence loose (item :: rest)
  | action {opening closing : Item} {items rest : List Item} (hopening : opening.kind = .leftDelim)
    (haction : IsAction loose items) (hclosing : closing.kind = .rightDelim)
    (hrest : IsSentence loose rest) : IsSentence loose (opening :: (items ++ closing :: rest))

section Forms

variable {loose : Bool} {form : Form} {items : List Item}

theorem startsOperand_variable {item : Item} (hkind : item.kind = .variable) :
    startsOperand item.kind = true := by rw [hkind]; rfl

/-- What has a form is not empty, and starts with an item that may start an operand. -/
theorem HasForm.starts (hform : HasForm loose form items) :
    ∃ first rest, items = first :: rest ∧ startsOperand first.kind = true := by
  induction hform with
  | pipeline hdeclaration _ ih =>
    cases hdeclaration with
    | none => exact ih
    | single hname => exact ⟨_, _, rfl, startsOperand_variable hname⟩
    | pair hindex => exact ⟨_, _, rfl, startsOperand_variable hindex⟩
  | unsigned _ hindex => exact ⟨_, _, rfl, startsOperand_variable hindex⟩
  | lastCommand _ ih => exact ih
  | moreCommands _ _ _ ih | moreOperands _ _ ih | trailingBar _ _ _ ih | field _ _ ih =>
    obtain ⟨first, rest, rfl, hstart⟩ := ih
    exact ⟨first, _, rfl, hstart⟩
  | lastOperand _ ih => exact ih
  | term hstart => exact ⟨_, _, rfl, hstart⟩
  | parenthesized hopening => exact ⟨_, _, rfl, by rw [hopening]; rfl⟩

/-- That an item stands inside of an action. -/
def Item.IsInside (item : Item) : Prop :=
  item.kind.isOutside = false ∧ item.kind ≠ .rightDelim

theorem isInside_of_startsOperand {item : Item} (hstart : startsOperand item.kind = true) :
    item.IsInside := by
  constructor
  · cases hkind : item.kind <;> rw [hkind] at hstart <;> first
      | rfl
      | cases hstart
  · intro hright
    rw [hright] at hstart
    cases hstart

theorem isInside_of_isDeclaring {item : Item} (hsign : isDeclaring item.kind = true) :
    item.IsInside := by
  simp only [isDeclaring, Bool.or_eq_true, decide_eq_true_eq] at hsign
  rcases hsign with hsign | hsign <;> exact ⟨by rw [hsign]; rfl, by simp [hsign]⟩

theorem isInside_of_isSeparator {item : Item} (hseparator : isSeparator item = true) :
    item.IsInside := by
  simp only [isSeparator, Bool.and_eq_true, decide_eq_true_eq] at hseparator
  exact ⟨by rw [hseparator.1]; rfl, by simp [hseparator.1]⟩

/-- Everything that has a form stands inside of an action. -/
theorem HasForm.isInside (hform : HasForm loose form items) : ∀ item ∈ items, item.IsInside := by
  induction hform with
  | pipeline hdeclaration _ ih =>
    refine List.forall_mem_append.mpr ⟨?_, ih⟩
    cases hdeclaration with
    | none => exact nofun
    | single hname hsign =>
      rw [List.forall_mem_cons, List.forall_mem_singleton]
      exact ⟨isInside_of_startsOperand (startsOperand_variable hname),
        isInside_of_isDeclaring hsign⟩
    | pair hindex hseparator hname hsign =>
      rw [List.forall_mem_cons, List.forall_mem_cons, List.forall_mem_cons,
        List.forall_mem_singleton]
      exact ⟨isInside_of_startsOperand (startsOperand_variable hindex),
        isInside_of_isSeparator hseparator,
        isInside_of_startsOperand (startsOperand_variable hname), isInside_of_isDeclaring hsign⟩
  | unsigned _ hindex hseparator _ _ ih =>
    rw [List.forall_mem_cons, List.forall_mem_cons]
    exact ⟨isInside_of_startsOperand (startsOperand_variable hindex),
      isInside_of_isSeparator hseparator, ih⟩
  | lastCommand _ ih | lastOperand _ ih => exact ih
  | moreCommands _ hbar _ ihFirst ihOthers =>
    rw [List.forall_mem_append, List.forall_mem_cons]
    exact ⟨ihFirst, ⟨by rw [hbar]; rfl, by rw [hbar]; nofun⟩, ihOthers⟩
  | trailingBar _ _ hbar ih =>
    rw [List.forall_mem_append, List.forall_mem_singleton]
    exact ⟨ih, by rw [hbar]; rfl, by rw [hbar]; nofun⟩
  | moreOperands _ _ ihFirst ihOthers => exact List.forall_mem_append.mpr ⟨ihFirst, ihOthers⟩
  | term hstart =>
    rw [List.forall_mem_singleton]
    exact isInside_of_startsOperand hstart
  | parenthesized hopening _ hclosing ih =>
    rw [List.forall_mem_cons, List.forall_mem_append, List.forall_mem_singleton]
    exact ⟨⟨by rw [hopening]; rfl, by rw [hopening]; nofun⟩, ih,
      by rw [hclosing]; rfl, by rw [hclosing]; nofun⟩
  | field _ hkind ih =>
    rw [List.forall_mem_append, List.forall_mem_singleton]
    exact ⟨ih, by rw [hkind]; rfl, by rw [hkind]; nofun⟩

theorem isInside_keyword {item : Item} {word : Keyword} (hword : item.kind = .keyword word) :
    item.IsInside := ⟨by rw [hword]; rfl, by rw [hword]; nofun⟩

theorem Item.NamesTemplate.isInside {item : Item} (hname : item.NamesTemplate) :
    item.IsInside := by
  rcases hname with hname | hname <;> exact ⟨by rw [hname]; rfl, by rw [hname]; nofun⟩

/-- Everything in an action stands inside of it. -/
theorem IsAction.isInside (haction : IsAction loose items) : ∀ item ∈ items, item.IsInside := by
  cases haction with
  | pipeline hpipeline => exact hpipeline.isInside
  | branch hword hhead => exact List.forall_mem_cons.mpr ⟨isInside_keyword hword, hhead.isInside⟩
  | continued hfirst _ hword hhead =>
    rw [List.forall_mem_cons, List.forall_mem_cons]
    exact ⟨isInside_keyword hfirst, isInside_keyword hword, hhead.isInside⟩
  | word hword =>
    rw [List.forall_mem_singleton]
    exact isInside_keyword hword
  | template hword hname | definition hword hname =>
    rw [List.forall_mem_cons, List.forall_mem_singleton]
    exact ⟨isInside_keyword hword, hname.isInside⟩
  | templateWith hword hname hargument | block hword hname hargument =>
    rw [List.forall_mem_cons, List.forall_mem_cons]
    exact ⟨isInside_keyword hword, hname.isInside, hargument.isInside⟩

end Forms

namespace Parse

/-! ### Passing items -/

/-- That these items are read between two states, spaces aside. -/
def State.Passes (s : State) (items : List Item) (after : State) : Prop :=
  ∃ read, s.rest = read ++ after.rest ∧ read.filter (·.kind ≠ .space) = items

section Passes

variable {setting : Setting} {s middle after : State} {items others : List Item}

theorem State.Passes.refl (s : State) : s.Passes [] s := ⟨[], rfl, rfl⟩

theorem State.Passes.trans (hfirst : s.Passes items middle) (hsecond : middle.Passes others after) :
    s.Passes (items ++ others) after := by
  obtain ⟨read, hread, rfl⟩ := hfirst
  obtain ⟨further, hfurther, rfl⟩ := hsecond
  exact ⟨read ++ further, by rw [hread, hfurther, List.append_assoc], List.filter_append _ _⟩

/-- What is left was there. -/
theorem State.Passes.suffix (hpasses : s.Passes items after) : after.rest <:+ s.rest := by
  obtain ⟨read, hread, _⟩ := hpasses
  exact ⟨read, hread.symm⟩

/-- Skipping spaces passes nothing else, and stops in front of what is no space. -/
theorem State.passes_skipSpaces (s : State) :
    s.Passes [] s.skipSpaces ∧ ∀ item ∈ s.skipSpaces.rest.head?, item.kind ≠ .space := by
  have hskip (line : Nat) (items : List Item) :
      (∃ read, items = read ++ (State.skipFrom line items).2 ∧
        read.filter (·.kind ≠ .space) = []) ∧
      ∀ item ∈ (State.skipFrom line items).2.head?, item.kind ≠ .space := by
    induction items generalizing line with
    | nil => exact ⟨⟨[], rfl, rfl⟩, nofun⟩
    | cons item rest ih =>
      by_cases hspace : item.kind = .space
      · obtain ⟨⟨read, hread, hspaces⟩, hhead⟩ := ih item.position.line
        simp only [State.skipFrom, if_pos hspace]
        refine ⟨⟨item :: read, ?_, ?_⟩, hhead⟩
        · rw [List.cons_append, ← hread]
        · rw [List.filter_cons_of_neg (by simp [hspace]), hspaces]
      · simp only [State.skipFrom, if_neg hspace]
        refine ⟨⟨[], rfl, rfl⟩, fun other hother ↦ ?_⟩
        cases hother
        exact hspace
  exact hskip s.line s.rest

/-- Reading an item passes it. -/
theorem State.Reads.passes {item : Item} (hread : s.Reads item after) : s.Passes [item] after := by
  obtain ⟨hskip, hhead⟩ := s.passes_skipSpaces
  rw [hread.rest_eq] at hhead
  refine hskip.trans ⟨[item], hread.rest_eq, List.filter_cons_of_pos ?_⟩
  simpa using hhead item rfl

/-- Going past an item passes it if it is no space. -/
theorem State.passes_advance (hkind : s.peek.kind ≠ .eof) :
    s.Passes ([s.peek].filter (·.kind ≠ .space)) s.advance := by
  unfold State.peek at hkind ⊢
  unfold State.advance
  cases hrest : s.rest with
  | nil =>
    rw [hrest] at hkind
    exact absurd rfl hkind
  | cons item rest => exact ⟨[item], hrest, rfl⟩

/-- What is passed first is the next item. -/
theorem State.Passes.peek_eq {item : Item} (hpasses : s.Passes (item :: items) after) :
    s.skipSpaces.peek = item := by
  have hskip (line : Nat) (read tail : List Item)
      (hread : read.filter (·.kind ≠ .space) = item :: items) :
      (State.skipFrom line (read ++ tail)).2.headD State.exhausted = item := by
    induction read generalizing line with
    | nil => cases hread
    | cons first rest ih =>
      by_cases hspace : first.kind = .space
      · rw [List.filter_cons_of_neg (by simp [hspace])] at hread
        simp only [List.cons_append, State.skipFrom, if_pos hspace]
        exact ih first.position.line hread
      · rw [List.filter_cons_of_pos (by simp [hspace])] at hread
        simp only [List.cons_append, State.skipFrom, if_neg hspace]
        exact (List.cons.inj hread).1
  obtain ⟨read, hread, hitems⟩ := hpasses
  change (State.skipFrom s.line s.rest).2.headD State.exhausted = item
  rw [hread]
  exact hskip s.line read after.rest hitems

/-! ### Pipelines -/

/-- What closes a command: nothing yet if its pipeline closes behind it, or a bar. -/
def ClosesCommand (items : List Item) (after : State) : Prop :=
  (items = [] ∧ (after.peek.kind = .rightDelim ∨ after.peek.kind = .rightParen)) ∨
    ∃ bar, items = [bar] ∧ bar.kind = .pipe

/-- That the items of a phrase between two states have its form. -/
def Phrase.HasForm (phrase : Phrase) (s after : State) : Prop :=
  match phrase with
  | pipeline clause closer _ => ∃ items closing, s.Passes (items ++ [closing]) after ∧
    closing.kind = closer ∧ Syntax.HasForm true (.pipeline clause) items
  | commands closer found => ∃ items closing, s.Passes (items ++ [closing]) after ∧
    closing.kind = closer ∧ (found = [] ∧ items = [] ∨ Syntax.HasForm true .commands items)
  | command _ => ∃ items ending, s.Passes (items ++ ending) after ∧ ClosesCommand ending after ∧
    Syntax.HasForm true .command items
  | operands found => ∃ items ending, s.Passes (items ++ ending) after ∧
    ClosesCommand ending after ∧ (found = [] ∧ items = [] ∨ Syntax.HasForm true .command items)
  | operand _ => ∃ items, s.Passes items after ∧ Syntax.HasForm true .operand items

theorem EndsCommand.passes (hend : EndsCommand s after) :
    ∃ ending, s.Passes ending after ∧ ClosesCommand ending after := by
  cases hend with
  | closer hkind => exact ⟨[], .refl s, .inl ⟨rfl, hkind⟩⟩
  | bar hkind =>
    have hpasses := s.passes_advance (by rw [hkind]; nofun)
    rw [List.filter_cons_of_pos (by simp [hkind])] at hpasses
    exact ⟨[s.peek], hpasses, .inr ⟨s.peek, rfl, hkind⟩⟩

/-- A term and the fields taken of it are an operand. -/
theorem Chained.passes {base found : Node} (hchained : Chained base s found after)
    (hitems : Syntax.HasForm true .operand items) :
    ∃ fields, s.Passes fields after ∧ Syntax.HasForm true .operand (items ++ fields) := by
  cases hchained with
  | alone => exact ⟨[], .refl s, by rwa [List.append_nil]⟩
  | fields =>
    obtain ⟨read, hread, hfields, -⟩ := fieldsFrom_eq s.line s.rest
    refine ⟨read, ⟨read, hread, List.filter_eq_self.mpr fun item hitem ↦ ?_⟩, ?_⟩
    · simp [hfields item hitem]
    · clear hread
      induction read generalizing items with
      | nil => rwa [List.append_nil]
      | cons item rest ih =>
        rw [List.forall_mem_cons] at hfields
        rw [List.append_cons]
        exact ih (.field hitems hfields.1) hfields.2

/-- What closes a pipeline does not stand in front of a command. -/
theorem State.Passes.peek_ne_closer {form : Form} (hpasses : s.Passes (items ++ others) after)
    (hform : Syntax.HasForm true form items) :
    ¬ (s.peek.kind = .rightDelim ∨ s.peek.kind = .rightParen) := by
  obtain ⟨first, rest, rfl, hstart⟩ := hform.starts
  intro hpeek
  have hskip : s.skipSpaces = s := by
    refine State.skipSpaces_of_peek ?_
    rcases hpeek with hpeek | hpeek <;> rw [hpeek] <;> nofun
  rw [← hskip, hpasses.peek_eq] at hpeek
  rcases hpeek with hpeek | hpeek <;> rw [hpeek] at hstart <;> cases hstart

/-- A declaration and the commands behind it are a pipeline. -/
theorem Declares.hasForm {clause : Clause} {declared : Declarations} {closing : Item}
    (hdeclares : Declares (furtherVariables clause) s declared middle)
    (hpasses : middle.Passes (items ++ [closing]) after)
    (hcommands : Syntax.HasForm true .commands items) :
    ∃ all, s.Passes (all ++ [closing]) after ∧ Syntax.HasForm true (.pipeline clause) all := by
  generalize hmore : furtherVariables clause = more at hdeclares
  cases hdeclares with
  | none => exact ⟨items, s.passes_skipSpaces.1.trans hpasses, .pipeline .none hcommands⟩
  | @last _ _ _ afterSign name sign hname hvariable hsign hkind =>
    have hbehind : afterSign.Passes (items ++ [closing]) after := hpasses
    exact ⟨[name, sign] ++ items, (hname.passes.trans hsign.passes).trans hbehind,
      .pipeline (.single hvariable hkind) hcommands⟩
  | @more more _ _ afterSign _ index separator _ hindex hvariable hseparator hkind hnext hothers =>
    obtain rfl : clause = .loop := by
      cases clause <;> cases hmore
      rfl
    obtain rfl : 0 = more := by cases hmore; rfl
    have hstart := hindex.passes.trans hseparator.passes
    cases hothers with
    | none =>
      have hrest := (State.passes_skipSpaces (afterSign.declare index.value)).1.trans hpasses
      obtain ⟨name, rest, rfl, hname⟩ := hcommands.starts
      rw [hrest.peek_eq] at hnext
      have hname : name.kind = .variable := by
        simp only [mayFollowSeparator, List.contains_eq_mem, List.mem_cons, List.not_mem_nil,
          or_false, decide_eq_true_eq] at hnext
        rcases hnext with hnext | hnext | hnext
        · exact hnext
        · rw [hnext] at hname
          cases hname
        · rw [hnext] at hname
          cases hname
      have hbehind : afterSign.Passes (name :: rest ++ [closing]) after := hrest
      exact ⟨index :: separator :: name :: rest, hstart.trans hbehind,
        .unsigned rfl hvariable hkind hname hcommands⟩
    | @last _ _ _ afterSecond name sign hname hsecond hsign hdeclaring =>
      have hthird : afterSign.Passes [name, sign] afterSecond := hname.passes.trans hsign.passes
      have hbehind : afterSecond.Passes (items ++ [closing]) after := hpasses
      exact ⟨[index, separator, name, sign] ++ items, (hstart.trans hthird).trans hbehind,
        .pipeline (.pair hvariable hkind hsecond hdeclaring) hcommands⟩

/-- The items of a phrase have its form. -/
theorem DerivesPhrase.hasForm {phrase : Phrase} (hderives : DerivesPhrase setting phrase s after) :
    phrase.HasForm s after := by
  induction hderives with
  | pipeline hdeclares _ hvalue _ ih =>
    obtain ⟨items, closing, hpasses, hclosing, hcommands⟩ := ih
    have hform := hcommands.resolve_left fun hnone ↦ hvalue hnone.1
    obtain ⟨items, hall, hpipeline⟩ := hdeclares.hasForm hpasses hform
    exact ⟨items, closing, hall, hclosing, hpipeline⟩
  | commandsEnd hread hcloser => exact ⟨[], _, hread.passes, hcloser, .inl ⟨rfl, rfl⟩⟩
  | @commandsMore _ _ _ afterFirst _ _ _ _ _ _ _ _ _ ihFirst ihOthers =>
    obtain ⟨items, ending, hfirst, hends, hcommand⟩ := ihFirst
    obtain ⟨further, closing, hrest, hclosing, hcommands⟩ := ihOthers
    have hpasses := hfirst.trans hrest
    rcases hends with ⟨rfl, hpeek⟩ | ⟨bar, rfl, hbar⟩
    · rcases hcommands with ⟨_, rfl⟩ | hcommands
      · exact ⟨items, closing, by simpa using hpasses, hclosing, .inr (.lastCommand hcommand)⟩
      · exact absurd hpeek (hrest.peek_ne_closer hcommands)
    · rcases hcommands with ⟨_, rfl⟩ | hcommands
      · exact ⟨items ++ [bar], closing, by simpa using hpasses, hclosing,
          .inr (.trailingBar rfl hcommand hbar)⟩
      · exact ⟨items ++ bar :: further, closing, by simpa using hpasses, hclosing,
          .inr (.moreCommands hcommand hbar hcommands)⟩
  | command _ hvalue ih =>
    obtain ⟨items, ending, hpasses, hends, hform⟩ := ih
    exact ⟨items, ending, hpasses, hends, hform.resolve_left fun hnone ↦ hvalue hnone.1⟩
  | @operandsEnd s _ _ hend =>
    obtain ⟨ending, hpasses, hends⟩ := hend.passes
    exact ⟨[], ending, s.passes_skipSpaces.1.trans hpasses, hends, .inl ⟨rfl, rfl⟩⟩
  | @operandsMore s afterFirst _ _ _ _ hspace _ ihFirst ihOthers =>
    obtain ⟨items, hfirst, hoperand⟩ := ihFirst
    obtain ⟨further, ending, hothers, hends, hform⟩ := ihOthers
    have hadvance := afterFirst.passes_advance (by rw [hspace]; nofun)
    rw [List.filter_cons_of_neg (by simp [hspace]), List.filter_nil] at hadvance
    have hpasses := s.passes_skipSpaces.1.trans (hfirst.trans (hadvance.trans hothers))
    refine ⟨items ++ further, ending, by simpa using hpasses, hends, .inr ?_⟩
    rcases hform with ⟨_, rfl⟩ | hform
    · rw [List.append_nil]
      exact .lastOperand hoperand
    · exact .moreOperands hoperand hform
  | @operandsLast s _ _ _ _ _ hend ih =>
    obtain ⟨items, hfirst, hoperand⟩ := ih
    obtain ⟨ending, hpasses, hends⟩ := hend.passes
    exact ⟨items, ending, s.passes_skipSpaces.1.trans (hfirst.trans hpasses), hends,
      .inr (.lastOperand hoperand)⟩
  | parenthesized hread hkind _ _ hchained ih =>
    obtain ⟨items, closing, hinner, hclosing, hform⟩ := ih
    obtain ⟨fields, hfields, hoperand⟩ := hchained.passes (.parenthesized hkind hform hclosing)
    exact ⟨_, (hread.passes.trans hinner).trans hfields, hoperand⟩
  | term hread hterm hchained =>
    obtain ⟨fields, hfields, hoperand⟩ :=
      hchained.passes (.term hterm.startsOperand hterm.kind_ne)
    exact ⟨_, hread.passes.trans hfields, hoperand⟩

/-! ### Actions -/

/-- That items lead from one place in a source to another. A place is outside of actions, or inside
of one of which some items have been passed. -/
inductive Advances (loose : Bool) : Option (List Item) → List Item → Option (List Item) → Prop
  | refl {place : Option (List Item)} : Advances loose place [] place
  | outside {item : Item} {rest : List Item} {place : Option (List Item)}
    (hkind : item.kind = .text ∨ item.kind = .comment) (hrest : Advances loose none rest place) :
    Advances loose none (item :: rest) place
  | opening {item : Item} {rest : List Item} {place : Option (List Item)}
    (hkind : item.kind = .leftDelim) (hrest : Advances loose (some []) rest place) :
    Advances loose none (item :: rest) place
  | inside {item : Item} {passed rest : List Item} {place : Option (List Item)}
    (hrest : Advances loose (some (passed ++ [item])) rest place) :
    Advances loose (some passed) (item :: rest) place
  | closing {item : Item} {passed rest : List Item} {place : Option (List Item)}
    (hkind : item.kind = .rightDelim) (haction : IsAction loose passed)
    (hrest : Advances loose none rest place) : Advances loose (some passed) (item :: rest) place

section Advances

variable {loose : Bool} {first second third : Option (List Item)}

theorem Advances.trans (hfirst : Advances loose first items second)
    (hsecond : Advances loose second others third) :
    Advances loose first (items ++ others) third := by
  induction hfirst with
  | refl => exact hsecond
  | outside hkind _ ih => exact .outside hkind (ih hsecond)
  | opening hkind _ ih => exact .opening hkind (ih hsecond)
  | inside _ ih => exact .inside (ih hsecond)
  | closing hkind haction _ ih => exact .closing hkind haction (ih hsecond)

/-- Items lead on inside of an action. -/
theorem advances_inside (passed items : List Item) :
    Advances loose (some passed) items (some (passed ++ items)) := by
  induction items generalizing passed with
  | nil =>
    rw [List.append_nil]
    exact .refl
  | cons item rest ih =>
    rw [List.append_cons]
    exact .inside (ih (passed ++ [item]))

/-- The items of an action and the delimiter behind it lead out of it. -/
theorem advances_action {passed : List Item} {closing : Item}
    (haction : IsAction loose (passed ++ items)) (hclosing : closing.kind = .rightDelim) :
    Advances loose (some passed) (items ++ [closing]) none :=
  (advances_inside passed items).trans (.closing hclosing haction .refl)

/-- That items go on from a place to the end of a sentence. -/
def EndsSentence (loose : Bool) : Option (List Item) → List Item → Prop
  | none, items => IsSentence loose items
  | some passed, items => ∃ inner closing rest, items = inner ++ closing :: rest ∧
    IsAction loose (passed ++ inner) ∧ closing.kind = .rightDelim ∧ IsSentence loose rest

/-- What leads out of actions goes in front of a sentence. -/
theorem Advances.endsSentence (hadvances : Advances loose first items second)
    (htail : EndsSentence loose second others) : EndsSentence loose first (items ++ others) := by
  induction hadvances with
  | refl => exact htail
  | outside hkind _ ih => exact .outside hkind (ih htail)
  | opening hkind _ ih =>
    obtain ⟨inner, closing, rest, hsplit, haction, hclosing, hrest⟩ := ih htail
    rw [List.cons_append, hsplit]
    exact .action hkind haction hclosing hrest
  | @inside item passed _ _ _ ih =>
    obtain ⟨inner, closing, rest, hsplit, haction, hclosing, hrest⟩ := ih htail
    rw [List.append_assoc] at haction
    exact ⟨item :: inner, closing, rest, by rw [List.cons_append, hsplit, List.cons_append],
      haction, hclosing, hrest⟩
  | @closing item passed rest _ hkind haction _ ih =>
    exact ⟨[], item, rest ++ others, rfl, by rwa [List.append_nil], hkind, ih htail⟩

/-- What leads out of actions passes no end of a source. -/
theorem Advances.ne_end (hadvances : Advances loose first items second) (hsecond : second = none) :
    (∀ item ∈ first.getD [], item.IsInside) ∧
      ∀ item ∈ items, item.kind ≠ .eof ∧ item.kind ≠ .error := by
  induction hadvances with
  | refl =>
    subst hsecond
    exact ⟨nofun, nofun⟩
  | outside hkind _ ih =>
    refine ⟨nofun, List.forall_mem_cons.mpr ⟨?_, (ih hsecond).2⟩⟩
    rcases hkind with hkind | hkind <;> rw [hkind] <;> exact ⟨nofun, nofun⟩
  | opening hkind _ ih =>
    refine ⟨nofun, List.forall_mem_cons.mpr ⟨?_, (ih hsecond).2⟩⟩
    rw [hkind]
    exact ⟨nofun, nofun⟩
  | inside _ ih =>
    obtain ⟨hpassed, hrest⟩ := ih hsecond
    obtain ⟨hpassed, hitem⟩ := List.forall_mem_append.mp hpassed
    have hinside := hitem _ (List.mem_singleton_self _)
    refine ⟨hpassed, List.forall_mem_cons.mpr ⟨⟨fun hend ↦ ?_, fun hend ↦ ?_⟩, hrest⟩⟩
    · exact absurd hinside.1 (by rw [hend]; nofun)
    · exact absurd hinside.1 (by rw [hend]; nofun)
  | closing hkind haction _ ih =>
    refine ⟨haction.isInside, List.forall_mem_cons.mpr ⟨?_, (ih hsecond).2⟩⟩
    rw [hkind]
    exact ⟨nofun, nofun⟩

end Advances

/-- That what is read between two states leads from one place in a source to another. -/
def State.LeadsTo (s : State) (place : Option (List Item)) (after : State)
    (reached : Option (List Item)) : Prop :=
  ∃ items, s.Passes items after ∧ Advances true place items reached

theorem State.LeadsTo.trans {first second third : Option (List Item)}
    (hfirst : s.LeadsTo first middle second) (hsecond : middle.LeadsTo second after third) :
    s.LeadsTo first after third := by
  obtain ⟨items, hpasses, hadvances⟩ := hfirst
  obtain ⟨others, hfurther, hon⟩ := hsecond
  exact ⟨items ++ others, hpasses.trans hfurther, hadvances.trans hon⟩

/-- Where a body ends in front of an item of a kind: outside of actions, or behind the word that
ends it if a keyword goes on. -/
def Ending.EndsAt : Ending → ItemKind → Option (List Item) → Prop
  | .finished, _, place => place = none
  | .otherwise _, next, none => next.isKeyword = false
  | .otherwise _, next, some passed =>
    ∃ word, passed = [word] ∧ word.kind = .keyword .elseWord ∧ next.isKeyword = true

/-- Where a statement ends in front of an item of a kind. -/
def Statement.EndsAt : Statement → ItemKind → Option (List Item) → Prop
  | .node _, _, place => place = none
  | .ending last, next, place => last.EndsAt next place

/-- What is read for a passage leads out of the actions that it starts in. -/
def Passage.LeadsTo (passage : Passage) (s after : State) : Prop :=
  match passage with
  | body _ ending | statements _ ending | branchBody _ _ ending =>
    ∃ place, s.LeadsTo none after place ∧ ending.EndsAt after.peek.kind place
  | statement found => ∃ place, s.LeadsTo none after place ∧ found.EndsAt after.peek.kind place
  | action found => ∃ place, s.LeadsTo (some []) after place ∧ found.EndsAt after.peek.kind place
  | nestedBody _ => s.LeadsTo none after none
  | control kind _ => ∀ words, (∀ items, Syntax.HasForm true (.pipeline (clauseOf kind)) items →
      IsAction true (words ++ items)) → s.LeadsTo (some words) after none
  | block _ => ∀ word : Item, word.kind = .keyword .blockWord → s.LeadsTo (some [word]) after none

/-- A pipeline that closes an action leads out of it. -/
theorem DerivesPhrase.leadsTo {clause : Clause} {found : Pipeline} {words : List Item}
    (hderives : DerivesPhrase setting (.pipeline clause .rightDelim found) s after)
    (haction : ∀ items, Syntax.HasForm true (.pipeline clause) items →
      IsAction true (words ++ items)) : s.LeadsTo (some words) after none := by
  obtain ⟨items, closing, hpasses, hclosing, hform⟩ := hderives.hasForm
  exact ⟨_, hpasses, advances_action (haction items hform) hclosing⟩

/-- A delimiter that closes an action leads out of it. -/
theorem State.ReadsKind.leadsTo {words : List Item} (hclose : s.ReadsKind .rightDelim after)
    (haction : IsAction true words) : s.LeadsTo (some words) after none := by
  obtain ⟨closing, hread, hclosing⟩ := hclose
  exact ⟨_, hread.passes, .closing hclosing haction .refl⟩

/-- An item leads on inside of an action. -/
theorem State.Reads.leadsTo {item : Item} (hread : s.Reads item after) (words : List Item) :
    s.LeadsTo (some words) after (some (words ++ [item])) :=
  ⟨_, hread.passes, advances_inside words [item]⟩

theorem NamesTemplate.leadsTo {name : String} {position : Position}
    (hname : NamesTemplate s name position after) (words : List Item) :
    ∃ item : Item, item.NamesTemplate ∧ s.LeadsTo (some words) after (some (words ++ [item])) := by
  cases hname with
  | @name item _ _ hread hkind => exact ⟨item, hkind, hread.leadsTo words⟩

theorem State.LeadsTo.suffix {first second : Option (List Item)}
    (hleads : s.LeadsTo first after second) : after.rest <:+ s.rest := by
  obtain ⟨items, hpasses, _⟩ := hleads
  exact hpasses.suffix

/-- No keyword stands behind an item that closes an action. -/
theorem State.Reads.isKeyword_peek {item : Item} (hread : s.Reads item after)
    (hkind : item.kind = .rightDelim) (hchain : s.rest.IsChain Item.Closes) :
    after.peek.kind.isKeyword = false := by
  have hskip := hchain.suffix (s.passes_skipSpaces.1.suffix)
  rw [hread.rest_eq, List.isChain_cons] at hskip
  unfold State.peek
  cases hrest : after.rest with
  | nil => rfl
  | cons next rest =>
    have hnext := hskip.1 next (by rw [hrest]; rfl) hkind
    cases hkeyword : next.kind with
    | keyword word =>
      rw [hkeyword] at hnext
      cases hnext
    | _ => simp [hkeyword, ItemKind.isKeyword]

theorem exists_keyword_eq {kind : ItemKind} (hkeyword : kind.isKeyword = true) :
    ∃ word, kind = .keyword word := by
  cases kind <;> first
    | exact ⟨_, rfl⟩
    | cases hkeyword

/-- What is read for a passage leads out of the actions that it starts in.
Assumes: what stands behind a right delimiter is outside of actions. -/
theorem DerivesPassage.leadsTo {passage : Passage}
    (hderives : DerivesPassage setting passage s after) (hchain : s.rest.IsChain Item.Closes) :
    passage.LeadsTo s after := by
  have hword {s afterItem after : State} {item : Item} {word : Keyword}
      (hread : s.Reads item afterItem) (hkind : item.kind = .keyword word)
      (hword : word ∈ [Keyword.elseWord, .endWord, .breakWord, .continueWord])
      (hclose : afterItem.ReadsKind .rightDelim after) : s.LeadsTo (some []) after none :=
    (hread.leadsTo []).trans (hclose.leadsTo (.word hkind hword))
  induction hderives with
  | body _ _ ih => exact ih hchain
  | statementsEnd _ _ ih => exact ih hchain
  | statementsMore _ _ _ ihFirst ihOthers =>
    obtain ⟨place, hfirst, rfl⟩ := ihFirst hchain
    obtain ⟨place, hothers, hends⟩ := ihOthers (hchain.suffix hfirst.suffix)
    exact ⟨place, hfirst.trans hothers, hends⟩
  | text hread hkind => exact ⟨none, ⟨_, hread.passes, .outside (.inl hkind) .refl⟩, rfl⟩
  | comment hread hkind => exact ⟨none, ⟨_, hread.passes, .outside (.inr hkind) .refl⟩, rfl⟩
  | @delimited s afterItem after item found hread hkind _ ih =>
    obtain ⟨place, hfound, hends⟩ := ih (hchain.suffix hread.passes.suffix)
    have hopen : s.LeadsTo none afterItem (some []) := ⟨_, hread.passes, .opening hkind .refl⟩
    exact ⟨place, hopen.trans hfound, hends⟩
  | blockAction hread hkind _ ih =>
    exact ⟨none, (hread.leadsTo []).trans (ih (hchain.suffix hread.passes.suffix) _ hkind), rfl⟩
  | breakAction hread hkind hclose _ => exact ⟨none, hword hread hkind (by decide) hclose, rfl⟩
  | continueAction hread hkind hclose _ => exact ⟨none, hword hread hkind (by decide) hclose, rfl⟩
  | @elseWord s afterItem item hread hkind hcontinues =>
    refine ⟨some [item], (hread.leadsTo []).trans ⟨[], afterItem.passes_skipSpaces.1, .refl⟩, ?_⟩
    refine ⟨item, rfl, hkind, ?_⟩
    simp only [continues, List.contains_eq_mem, List.mem_cons, List.not_mem_nil, or_false,
      decide_eq_true_eq] at hcontinues
    rcases hcontinues with hcontinues | hcontinues <;> rw [hcontinues] <;> rfl
  | elseAction hread hkind hclose hcloser =>
    have hclosed := hchain.suffix hread.passes.suffix
    exact ⟨none, hword hread hkind (by decide) ⟨_, hclose, hcloser⟩,
      hclose.isKeyword_peek hcloser hclosed⟩
  | endAction hread hkind hclose => exact ⟨none, hword hread hkind (by decide) hclose, rfl⟩
  | branchAction hread hkind _ ih =>
    refine ⟨none, (hread.leadsTo []).trans (ih (hchain.suffix hread.passes.suffix) _ ?_), rfl⟩
    exact fun items hform ↦ .branch hkind hform
  | templateBare hread hkind hname hclose =>
    obtain ⟨item, hitem, hnamed⟩ := hname.leadsTo [_]
    have hclosed := hclose.leadsTo (.template hkind hitem)
    exact ⟨none, ((hread.leadsTo []).trans hnamed).trans hclosed, rfl⟩
  | templateWith hread hkind hname _ _ hargument =>
    obtain ⟨item, hitem, hnamed⟩ := hname.leadsTo [_]
    refine ⟨none, ((hread.leadsTo []).trans hnamed).trans (hargument.leadsTo ?_), rfl⟩
    exact fun items hform ↦ .templateWith hkind hitem hform
  | pipelineAction _ _ hfound => exact ⟨none, hfound.leadsTo fun items hform ↦ .pipeline hform, rfl⟩
  | branchBody _ ih => exact ih hchain
  | nestedBody _ ih =>
    obtain ⟨place, hfound, rfl⟩ := ih hchain
    exact hfound
  | controlOnly hhead _ ih =>
    intro words haction
    have hleads := hhead.leadsTo haction
    obtain ⟨place, hfirst, rfl⟩ := ih (hchain.suffix hleads.suffix)
    exact hleads.trans hfirst
  | @controlContinued _ _ _ afterFirst _ _ _ _ word _ hhead _ hword hpeek _ ihFirst ihInner =>
    intro words haction
    have hleads := hhead.leadsTo haction
    obtain ⟨place, hfirst, hends⟩ := ihFirst (hchain.suffix hleads.suffix)
    cases place with
    | none =>
      have hkeyword : afterFirst.peek.kind.isKeyword = false := hends
      rw [hpeek] at hkeyword
      cases hkeyword
    | some passed =>
      obtain ⟨first, rfl, hfirstWord, _⟩ := hends
      have hadvance := afterFirst.passes_advance (by rw [hpeek]; nofun)
      rw [List.filter_cons_of_pos (by simp [hpeek])] at hadvance
      have hbefore := (hleads.trans hfirst).trans
        ⟨[afterFirst.peek], hadvance, advances_inside [first] [afterFirst.peek]⟩
      refine hbefore.trans (ihInner (hchain.suffix hbefore.suffix) _ fun items hform ↦ ?_)
      exact .continued hfirstWord hword hpeek hform
  | controlOtherwise hhead _ _ hsecond ihFirst ihSecond =>
    intro words haction
    have hleads := hhead.leadsTo haction
    obtain ⟨place, hfirst, hends⟩ := ihFirst (hchain.suffix hleads.suffix)
    cases place with
    | none =>
      have hbefore := hleads.trans hfirst
      obtain ⟨place, hbody, rfl⟩ := ihSecond (hchain.suffix hbefore.suffix)
      exact hbefore.trans hbody
    | some passed =>
      obtain ⟨_, _, _, hkeyword⟩ := hends
      obtain ⟨word, hpeek⟩ := exists_keyword_eq hkeyword
      exact absurd hpeek (peek_ne_keyword_of_body hsecond word)
  | block hname hargument _ _ ih =>
    intro word hword
    obtain ⟨item, hitem, hnamed⟩ := hname.leadsTo [word]
    have hhead := hnamed.trans (hargument.leadsTo fun items hform ↦ .block hword hitem hform)
    exact hhead.trans (ih (hchain.suffix hhead.suffix))

/-- What is read of a source, up to its end, leads out of all actions.
Assumes: what stands behind a right delimiter is outside of actions. -/
theorem DerivesRoot.leadsTo {found : List Node} (hderives : DerivesRoot setting found s after)
    (hchain : s.rest.IsChain Item.Closes) : s.LeadsTo none after none ∧ after.peek.kind = .eof := by
  induction hderives with
  | finished hpeek => exact ⟨⟨[], .refl _, .refl⟩, hpeek⟩
  | @definition s afterWord afterFirst _ _ hopens hdefines _ ih =>
    obtain ⟨word, hword, hkind⟩ := hopens.word
    have hadvance := s.passes_advance (by rw [hopens.delimited]; nofun)
    rw [List.filter_cons_of_pos (by simp [hopens.delimited])] at hadvance
    have hopen : s.LeadsTo none s.advance (some []) :=
      ⟨[s.peek], hadvance, .opening hopens.delimited .refl⟩
    have hstart := hopen.trans (hword.leadsTo [])
    have hfirst : s.LeadsTo none afterFirst none := by
      cases hdefines with
      | definition hname hclose hroot _ =>
        obtain ⟨item, hitem, hnamed⟩ := hname.leadsTo [word]
        have hhead := (hstart.trans hnamed).trans (hclose.leadsTo (.definition hkind hitem))
        exact hhead.trans (hroot.leadsTo (hchain.suffix hhead.suffix))
    obtain ⟨hothers, hend⟩ := ih (hchain.suffix hfirst.suffix)
    exact ⟨hfirst.trans hothers, hend⟩
  | statement _ _ hfirst _ ih =>
    obtain ⟨place, hfirst, rfl⟩ := hfirst.leadsTo hchain
    obtain ⟨hothers, hend⟩ := ih (hchain.suffix hfirst.suffix)
    exact ⟨hfirst.trans hothers, hend⟩

/-- The items of a source that is derived lead out of all actions up to the last one, which is the
end of the source. -/
theorem DerivesRoot.exists_end {delimiters : Delimiters} {source : String} {found : List Node}
    (hderives : DerivesRoot setting found (State.initial (lex delimiters source)) after) :
    ∃ items ending, lex delimiters source = items ++ [ending] ∧ ending.kind = .eof ∧
      Advances true none (items.filter (·.kind ≠ .space)) none := by
  obtain ⟨⟨items, hpasses, hadvances⟩, hend⟩ :=
    hderives.leadsTo (areOutside_lex delimiters source).isChain
  obtain ⟨read, hread, rfl⟩ := hpasses
  change lex delimiters source = read ++ after.rest at hread
  rcases eq_nil_or_end_of_suffix hread hend with hrest | ⟨last, hrest, hkind⟩
  · obtain ⟨before, last, hlex, hlast, _⟩ := lex_eq_append delimiters source
    have hmem : last ∈ read.filter (·.kind ≠ .space) := by
      rw [hrest, List.append_nil] at hread
      rw [List.mem_filter, ← hread, hlex]
      refine ⟨List.mem_append_right _ (List.mem_singleton_self last), ?_⟩
      rcases hlast with hlast | hlast <;> simp [hlast]
    obtain ⟨hne, hne'⟩ := (hadvances.ne_end rfl).2 last hmem
    exact (hlast.elim hne hne').elim
  · rw [hrest] at hread
    exact ⟨read, last, hread, hkind, hadvances⟩

end Passes

end Parse

/-- The items of an accepted source, spaces aside, are texts, comments and actions of the admitted
forms up to the end: every pipeline in them, be it an action, the head of a control structure, the
argument of a template or a part between parentheses, is a declaration, if any, and commands of one
operand or more with a bar between neighbours. Besides, a bar may stand after the last command, and
in a loop a variable may stand with a separator and without a sign in front of a first command that
starts with a variable. -/
theorem isSentence_of_parse {name source : String} {delimiters : Delimiters}
    {isFunction : String → Bool} {set : TreeSet}
    (hparse : parse name delimiters isFunction source = .ok set) :
    IsSentence true ((lex delimiters source).filter (·.kind ≠ .space)) := by
  obtain ⟨nodes, after, hderives, _⟩ := parse_eq_ok_iff.mp hparse
  obtain ⟨items, ending, hlex, hkind, hadvances⟩ := hderives.exists_end
  rw [hlex, List.filter_append, List.filter_cons_of_pos (by simp [hkind])]
  exact hadvances.endsSentence (.finished hkind)

/-- The items of a loop that declares both its variables have the form. -/
theorem isSentence_loop :
    ∃ set, parse "page" Delimiters.brackets (fun _ ↦ false) "[range $i, $x := .]text[end]" =
        .ok set ∧
      IsSentence true
        ((lex Delimiters.brackets "[range $i, $x := .]text[end]").filter (·.kind ≠ .space)) := by
  have hparse : parse "page" Delimiters.brackets (fun _ ↦ false) "[range $i, $x := .]text[end]" =
      .ok ⟨[⟨"page", "page", ⟨⟨0, 1⟩, [.branch .loop ⟨7, 1⟩ ⟨⟨7, 1⟩, false, [⟨⟨7, 1⟩, ["$i"]⟩,
        ⟨⟨11, 1⟩, ["$x"]⟩], [⟨⟨17, 1⟩, [.dot ⟨17, 1⟩]⟩]⟩ ⟨⟨19, 1⟩, [.text ⟨19, 1⟩ "text"]⟩
        none]⟩⟩]⟩ := by
    cbv
  exact ⟨_, hparse, isSentence_of_parse hparse⟩

/-! ### Where the forms are loose -/

section Strict

variable {form : Form} {items : List Item}

/-- Without the two exceptions, no bar is the last item of what has a form. -/
theorem HasForm.exists_last (hform : HasForm false form items) :
    ∃ init last, items = init ++ [last] ∧ last.kind ≠ .pipe := by
  induction hform with
  | unsigned hloose | trailingBar hloose => cases hloose
  | pipeline _ _ ih | moreOperands _ _ _ ih =>
    obtain ⟨init, last, rfl, hlast⟩ := ih
    exact ⟨_, last, (List.append_assoc _ init [last]).symm, hlast⟩
  | lastCommand _ ih | lastOperand _ ih => exact ih
  | @moreCommands before _ bar _ _ _ _ ih =>
    obtain ⟨init, last, rfl, hlast⟩ := ih
    exact ⟨before ++ bar :: init, last, by simp, hlast⟩
  | @term item hstart =>
    refine ⟨[], item, rfl, fun hbar ↦ ?_⟩
    rw [hbar] at hstart
    cases hstart
  | parenthesized _ _ hclosing => exact ⟨_ :: _, _, rfl, by rw [hclosing]; nofun⟩
  | field _ hkind => exact ⟨_, _, rfl, by rw [hkind]; nofun⟩

/-- That a separator among items comes with a sign. -/
def Signed (items : List Item) : Prop :=
  (∃ item ∈ items, isSeparator item = true) → ∃ sign ∈ items, isDeclaring sign.kind = true

theorem Signed.append {others : List Item} (hfirst : Signed items) (hsecond : Signed others) :
    Signed (items ++ others) := by
  rintro ⟨item, hitem, hseparator⟩
  rcases List.mem_append.mp hitem with hitem | hitem
  · obtain ⟨sign, hsign, hkind⟩ := hfirst ⟨item, hitem, hseparator⟩
    exact ⟨sign, List.mem_append_left others hsign, hkind⟩
  · obtain ⟨sign, hsign, hkind⟩ := hsecond ⟨item, hitem, hseparator⟩
    exact ⟨sign, List.mem_append_right items hsign, hkind⟩

theorem signed_singleton {item : Item} (hkind : item.kind ≠ .char) : Signed [item] := by
  rintro ⟨other, hother, hseparator⟩
  rw [List.mem_singleton.mp hother, isSeparator, Bool.and_eq_true, decide_eq_true_eq] at hseparator
  exact absurd hseparator.1 hkind

theorem signed_of_mem {sign : Item} (hsign : sign ∈ items) (hkind : isDeclaring sign.kind = true) :
    Signed items := fun _ ↦ ⟨sign, hsign, hkind⟩

/-- Without the two exceptions, a separator comes with a sign. -/
theorem HasForm.signed (hform : HasForm false form items) : Signed items := by
  induction hform with
  | unsigned hloose | trailingBar hloose => cases hloose
  | pipeline hdeclaration _ ih =>
    cases hdeclaration with
    | none => exact ih
    | single _ hsign | pair _ _ _ hsign => exact signed_of_mem (by simp) hsign
  | lastCommand _ ih | lastOperand _ ih => exact ih
  | moreCommands _ hbar _ ihFirst ihOthers =>
    exact ihFirst.append ((signed_singleton (by rw [hbar]; nofun)).append ihOthers)
  | moreOperands _ _ ihFirst ihOthers => exact ihFirst.append ihOthers
  | @term item hstart =>
    refine signed_singleton fun hchar ↦ ?_
    rw [hchar] at hstart
    cases hstart
  | parenthesized hopening _ hclosing ih =>
    exact (signed_singleton (by rw [hopening]; nofun)).append
      (ih.append (signed_singleton (by rw [hclosing]; nofun)))
  | field _ hkind ih => exact ih.append (signed_singleton (by rw [hkind]; nofun))

theorem Item.NamesTemplate.ne {name : Item} (hname : name.NamesTemplate) :
    name.kind ≠ .pipe ∧ name.kind ≠ .char := by
  rcases hname with hname | hname <;> rw [hname] <;> exact ⟨nofun, nofun⟩

/-- Without the two exceptions, no bar is the last item of an action and a separator comes with a
sign. -/
theorem IsAction.strict (haction : IsAction false items) :
    (∃ init last, items = init ++ [last] ∧ last.kind ≠ .pipe) ∧ Signed items := by
  have hkeyword {word : Item} {keyword : Keyword} (hword : word.kind = .keyword keyword) :
      Signed [word] := signed_singleton (by rw [hword]; nofun)
  cases haction with
  | pipeline hpipeline => exact ⟨hpipeline.exists_last, hpipeline.signed⟩
  | branch hword hhead =>
    obtain ⟨init, last, rfl, hlast⟩ := hhead.exists_last
    exact ⟨⟨_ :: init, last, rfl, hlast⟩, (hkeyword hword).append hhead.signed⟩
  | continued hfirst _ hword hhead =>
    obtain ⟨init, last, rfl, hlast⟩ := hhead.exists_last
    exact ⟨⟨_ :: _ :: init, last, rfl, hlast⟩,
      (hkeyword hfirst).append ((hkeyword hword).append hhead.signed)⟩
  | word hword => exact ⟨⟨[], _, rfl, by rw [hword]; nofun⟩, hkeyword hword⟩
  | template hword hname | definition hword hname =>
    exact ⟨⟨[_], _, rfl, hname.ne.1⟩, (hkeyword hword).append (signed_singleton hname.ne.2)⟩
  | templateWith hword hname hargument | block hword hname hargument =>
    obtain ⟨init, last, rfl, hlast⟩ := hargument.exists_last
    exact ⟨⟨_ :: _ :: init, last, rfl, hlast⟩,
      (hkeyword hword).append ((signed_singleton hname.ne.2).append hargument.signed)⟩

/-- The first action of a sentence reaches up to the first right delimiter. -/
theorem IsSentence.isAction {loose : Bool} {opening closing : Item} {rest : List Item}
    (hsentence : IsSentence loose (opening :: (items ++ closing :: rest)))
    (hopening : opening.kind = .leftDelim) (hitems : ∀ item ∈ items, item.kind ≠ .rightDelim)
    (hclosing : closing.kind = .rightDelim) : IsAction loose items := by
  have hcut {items rest : List Item} {closing : Item}
      (hitems : ∀ item ∈ items, item.kind ≠ .rightDelim) (hclosing : closing.kind = .rightDelim) :
      (items ++ closing :: rest).takeWhile (·.kind ≠ .rightDelim) = items := by
    rw [List.takeWhile_append_of_pos (by simpa using hitems),
      List.takeWhile_cons_of_neg (by simp [hclosing]), List.append_nil]
  generalize hall : opening :: (items ++ closing :: rest) = all at hsentence
  cases hsentence with
  | finished => simp at hall
  | outside hkind =>
    rw [← (List.cons.inj hall).1, hopening] at hkind
    rcases hkind with hkind | hkind <;> cases hkind
  | @action _ _ inner _ _ haction hright =>
    have hinner : inner = items := by
      rw [← hcut (fun item hitem ↦ (haction.isInside item hitem).2) hright,
        ← (List.cons.inj hall).2, hcut hitems hclosing]
    rwa [← hinner]

/-- Two sources that are accepted and do not have the form without the exceptions: one with a bar
behind its last command, and one with a variable that is declared without a sign. -/
theorem not_isSentence_loose :
    (parse "page" Delimiters.brackets (fun _ ↦ false) "[.A |]" =
        .ok ⟨[⟨"page", "page", ⟨⟨0, 1⟩, [.action ⟨1, 1⟩ ⟨⟨1, 1⟩, false, [],
          [⟨⟨1, 1⟩, [.field ⟨1, 1⟩ ["A"]]⟩]⟩]⟩⟩]⟩ ∧
      ¬ IsSentence false ((lex Delimiters.brackets "[.A |]").filter (·.kind ≠ .space))) ∧
    (parse "page" Delimiters.brackets (fun _ ↦ false) "[range $i, $i][end]" =
        .ok ⟨[⟨"page", "page", ⟨⟨0, 1⟩, [.branch .loop ⟨7, 1⟩ ⟨⟨7, 1⟩, false, [⟨⟨7, 1⟩, ["$i"]⟩],
          [⟨⟨11, 1⟩, [.var ⟨⟨11, 1⟩, ["$i"]⟩]⟩]⟩ ⟨⟨14, 1⟩, []⟩ none]⟩⟩]⟩ ∧
      ¬ IsSentence false
        ((lex Delimiters.brackets "[range $i, $i][end]").filter (·.kind ≠ .space))) := by
  refine ⟨⟨by cbv, fun hsentence ↦ ?_⟩, ⟨by cbv, fun hsentence ↦ ?_⟩⟩
  · have hlex : (lex Delimiters.brackets "[.A |]").filter (·.kind ≠ .space) =
        ⟨.leftDelim, ⟨0, 1⟩, "["⟩ :: ([⟨.field, ⟨1, 1⟩, ".A"⟩, ⟨.pipe, ⟨4, 1⟩, "|"⟩] ++
          ⟨.rightDelim, ⟨5, 1⟩, "]"⟩ :: [⟨.eof, ⟨6, 1⟩, ""⟩]) := by
      cbv
    rw [hlex] at hsentence
    have haction := hsentence.isAction rfl (by decide) rfl
    obtain ⟨init, last, hitems, hlast⟩ := haction.strict.1
    have hbar := (List.append_inj' (show [_] ++ [_] = _ from hitems) rfl).2
    rw [← (List.cons.inj hbar).1] at hlast
    exact hlast rfl
  · have hlex : (lex Delimiters.brackets "[range $i, $i][end]").filter (·.kind ≠ .space) =
        ⟨.leftDelim, ⟨0, 1⟩, "["⟩ :: ([⟨.keyword .rangeWord, ⟨1, 1⟩, "range"⟩,
          ⟨.variable, ⟨7, 1⟩, "$i"⟩, ⟨.char, ⟨9, 1⟩, ","⟩, ⟨.variable, ⟨11, 1⟩, "$i"⟩] ++
          ⟨.rightDelim, ⟨13, 1⟩, "]"⟩ :: [⟨.leftDelim, ⟨14, 1⟩, "["⟩,
            ⟨.keyword .endWord, ⟨15, 1⟩, "end"⟩, ⟨.rightDelim, ⟨18, 1⟩, "]"⟩,
            ⟨.eof, ⟨19, 1⟩, ""⟩]) := by
      cbv
    rw [hlex] at hsentence
    have haction := hsentence.isAction rfl (by decide) rfl
    obtain ⟨sign, hsign, hkind⟩ := haction.strict.2 ⟨⟨.char, ⟨9, 1⟩, ","⟩, by simp, by decide⟩
    revert sign
    decide

end Strict

end Stencil.Syntax
