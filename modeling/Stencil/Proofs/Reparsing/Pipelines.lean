import Stencil.Proofs.Reparsing.Terms

/-!
# Pipelines that are read again

A pipeline of a source is read again from its canonical text, wherever the variables are visible
that were visible in front of it, in a clause that lets it declare as many (`RereadsPipeline`). Its
parts are read one after the other, each with the variables that the one before it leaves visible
(`Threads`): a command is its operands with blanks between them, and the commands stand between the
declaration and what closes the pipeline. A pipeline in parentheses is a term again.
-/

set_option autoImplicit false
set_option relaxedAutoImplicit false

namespace Stencil.Syntax.Parse

open Delimiters

/-! ### Parts one after the other -/

/-- That parts stand one after the other, each with the variables visible that the one before it
leaves visible. -/
inductive Threads {α : Type} (step : List String → α → List String → Prop) :
    List String → List α → List String → Prop
  | nil {visible : List String} : Threads step visible [] visible
  | cons {before middle after : List String} {first : α} {rest : List α}
    (hfirst : step before first middle) (hrest : Threads step middle rest after) :
    Threads step before (first :: rest) after

/-! ### The end of a pipeline and of a command -/

/-- That an item that closes a pipeline starts a text: a right delimiter where no parenthesis is
open, or a right parenthesis. -/
inductive ClosesPipeline : ItemKind → Nat → List Char → Mode → List Char → Prop
  | delimiter {more : List Char} :
    ClosesPipeline .rightDelim 0 ('\x7d' :: '\x7d' :: more) .outside more
  | paren {depth : Nat} {more : List Char} :
    ClosesPipeline .rightParen (depth + 1) (')' :: more) (.inside depth) more

namespace ClosesPipeline

variable {closer : ItemKind} {depth : Nat} {tail more : List Char} {mode : Mode}

theorem endsOperand (hcloses : ClosesPipeline closer depth tail mode more) : EndsOperand tail := by
  cases hcloses with
  | delimiter => exact .delimiter
  | paren => exact .paren

theorem emits (hcloses : ClosesPipeline closer depth tail mode more) :
    ∃ value, Emits (.inside depth) tail closer value mode more := by
  cases hcloses with
  | delimiter => exact ⟨_, emits_rightDelim more⟩
  | paren => exact ⟨_, standalone_rightParen.emits trivial rfl⟩

theorem kind (hcloses : ClosesPipeline closer depth tail mode more) :
    closer = .rightDelim ∨ closer = .rightParen := by
  cases hcloses with
  | delimiter => exact .inl rfl
  | paren => exact .inr rfl

theorem kind_ne_space (hcloses : ClosesPipeline closer depth tail mode more) : closer ≠ .space := by
  rcases hcloses.kind with rfl | rfl <;> simp

end ClosesPipeline

/-- That a command ends in front of a text, and what is left once the parser is behind it: a bar is
read, and what closes the pipeline is not. -/
inductive EndsCommandText (depth : Nat) : List Char → List Char → Prop
  | bar {rest : List Char} (hsolid : Solid rest) :
    EndsCommandText depth (' ' :: '|' :: ' ' :: rest) (' ' :: rest)
  | closer {closer : ItemKind} {tail more : List Char} {mode : Mode}
    (hcloses : ClosesPipeline closer depth tail mode more) : EndsCommandText depth tail tail

/-! ### Operands in a row -/

section Operands

variable {setting : Setting} {s last : State} {before after : List String} {depth : Nat}
  {tail left : List Char}

/-- A command ends behind an operand. -/
theorem derives_end (setting : Setting) (hends : EndsCommandText depth tail left)
    (hbefore : s.Before (.inside depth) tail) :
    ∃ last, (∀ {start : State} {operand : Node},
        DerivesPhrase setting (.operand operand) start.skipSpaces s →
          DerivesPhrase setting (.operands [operand]) start last) ∧
      s.Reaches last s.visible (.inside depth) left := by
  cases hends with
  | @bar rest hsolid =>
    have hbar : Solid ('|' :: ' ' :: rest) := standalone_bar.solid.append (' ' :: rest)
    have hblank : s.peek.kind = .space := (hbefore.peek (hbar.emits_space depth)).1
    have hskipped := hbefore.advance (hbar.emits_space depth)
    have hemits : Emits (.inside depth) ('|' :: ' ' :: rest) .pipe "|" (.inside depth)
      (' ' :: rest) := standalone_bar.emits trivial rfl
    have hpeek : s.advance.peek.kind = .pipe := (hskipped.before.peek hemits).1
    have hskip : s.advance.skipSpaces = s.advance :=
      State.skipSpaces_of_peek (by rw [hpeek]; simp)
    have hreaches := hskipped.before.advance hemits
    rw [hskipped.visible_eq] at hreaches
    refine ⟨s.advance.advance, fun hoperand ↦ .operandsMore hoperand hblank (.operandsEnd ?_ ?_),
      hskipped.trans hreaches⟩
    · rw [hskip, hpeek]
      rfl
    · rw [hskip]
      exact .bar hpeek
  | closer hcloses =>
    obtain ⟨value, hemits⟩ := hcloses.emits
    have hpeek := (hbefore.peek hemits).1
    refine ⟨s, fun hoperand ↦ .operandsLast hoperand ?_ (.closer (hpeek ▸ hcloses.kind)),
      hbefore, rfl, rfl, rfl, rfl⟩
    rw [hpeek]
    exact hcloses.kind_ne_space

theorem EndsCommandText.endsOperand (hends : EndsCommandText depth tail left) :
    EndsOperand tail := by
  cases hends with
  | bar => exact .blank (standalone_bar.solid.append _)
  | closer hcloses => exact hcloses.endsOperand

/-- The text of operands starts with that of the first of them. -/
theorem Threads.solid_operands {operands : List Node}
    (hthreads : Threads (RereadsOperand setting) before operands after) (hne : operands ≠ []) :
    Solid (" ".intercalate (Node.operandTexts operands)).toList := by
  cases hthreads with
  | nil => exact absurd rfl hne
  | cons hfirst hrest =>
    cases hrest with
    | nil => simpa [Node.operandTexts] using hfirst.solid
    | cons =>
      simp only [Node.operandTexts, String.intercalate_cons_cons, String.toList_append,
        List.append_assoc]
      exact hfirst.solid.append _

/-- Operands with blanks between them are read again. -/
theorem Threads.derives_operands {operands : List Node}
    (hthreads : Threads (RereadsOperand setting) before operands after) (hne : operands ≠ [])
    (hends : EndsCommandText depth tail left) (hvisible : s.visible = before)
    (hdepth : s.depth + Node.allNesting operands ≤ maxDepth)
    (hfaces : s.Faces (.inside depth)
      ((" ".intercalate (Node.operandTexts operands)).toList ++ tail)) :
    ∃ again last, DerivesPhrase setting (.operands again) s last ∧
      again.map Node.unplaced = operands.map Node.unplaced ∧
      s.Reaches last after (.inside depth) left := by
  induction hthreads generalizing s with
  | nil => exact absurd rfl hne
  | @cons before middle after first rest hfirst hrest ih =>
    rw [Node.allNesting] at hdepth
    have hroom : s.depth + first.nesting ≤ maxDepth := by omega
    have hrow : s.depth + Node.allNesting rest ≤ maxDepth := by omega
    rcases rest with _ | ⟨second, others⟩
    · cases hrest
      obtain ⟨again, afterFirst, hderives, hagain, hreaches⟩ :=
        hfirst.derives (s := s.skipSpaces) hvisible hroom hends.endsOperand
          (by simpa [Node.operandTexts] using hfaces.skipSpaces)
      obtain ⟨last, hlast, hleft⟩ := derives_end setting hends hreaches.before
      rw [hreaches.visible_eq] at hleft
      exact ⟨[again], last, hlast hderives, by simp [hagain],
        hreaches.of_skipSpaces.trans hleft⟩
    · have hsolid := (hrest.solid_operands (List.cons_ne_nil second others)).append tail
      have htext :
          (" ".intercalate (Node.operandTexts (first :: second :: others))).toList ++ tail =
            (first.write true).toList ++
              ' ' :: ((" ".intercalate (Node.operandTexts (second :: others))).toList ++ tail) := by
        simp [Node.operandTexts, String.intercalate_cons_cons]
      rw [htext] at hfaces
      obtain ⟨again, afterFirst, hderives, hagain, hreaches⟩ :=
        hfirst.derives (s := s.skipSpaces) hvisible hroom (.blank hsolid) hfaces.skipSpaces
      have hblank := (hreaches.before.peek (hsolid.emits_space depth)).1
      have hskipped := hreaches.before.advance (hsolid.emits_space depth)
      have hsame : afterFirst.advance.depth = s.depth := hskipped.depth_eq.trans hreaches.depth_eq
      obtain ⟨others', last, hothers, hmap, hlast⟩ :=
        ih (List.cons_ne_nil second others) (hskipped.visible_eq.trans hreaches.visible_eq)
          (hsame ▸ hrow) (hskipped.before.faces_solid hsolid)
      refine ⟨again :: others', last, .operandsMore hderives hblank hothers, ?_,
        hreaches.of_skipSpaces.trans (hskipped.trans hlast)⟩
      simp only [List.map_cons, hagain, hmap]

end Operands

/-! ### Commands -/

/-- That a command is read again wherever `before` are visible; it leaves `after` visible. -/
structure RereadsCommand (setting : Setting) (before : List String) (command : Command)
    (after : List String) : Prop where
  nonempty : command.operands ≠ []
  operands : Threads (RereadsOperand setting) before command.operands after

section Commands

variable {setting : Setting} {s : State} {before after : List String} {depth : Nat}
  {tail left more : List Char} {closer : ItemKind} {mode : Mode}

theorem RereadsCommand.solid {command : Command}
    (hcommand : RereadsCommand setting before command after) : Solid command.canonical.toList := by
  obtain ⟨position, operands⟩ := command
  exact hcommand.operands.solid_operands hcommand.nonempty

/-- The text of commands starts with that of the first of them. -/
theorem Threads.solid_commands {commands : List Command}
    (hthreads : Threads (RereadsCommand setting) before commands after) (hne : commands ≠ []) :
    Solid (" | ".intercalate (Command.canonicals commands)).toList := by
  cases hthreads with
  | nil => exact absurd rfl hne
  | cons hfirst hrest =>
    cases hrest with
    | nil => simpa [Command.canonicals] using hfirst.solid
    | cons =>
      simp only [Command.canonicals, String.intercalate_cons_cons, String.toList_append,
        List.append_assoc]
      exact hfirst.solid.append _

/-- A command is read again with what ends it. -/
theorem RereadsCommand.derives {command : Command}
    (hcommand : RereadsCommand setting before command after)
    (hends : EndsCommandText depth tail left) (hvisible : s.visible = before)
    (hdepth : s.depth + command.nesting ≤ maxDepth)
    (hfaces : s.Faces (.inside depth) (command.canonical.toList ++ tail)) :
    ∃ again last, DerivesPhrase setting (.command again) s last ∧
      again.unplaced = command.unplaced ∧ s.Reaches last after (.inside depth) left := by
  obtain ⟨position, operands⟩ := command
  obtain ⟨again, last, hoperands, hmap, hlast⟩ :=
    hcommand.operands.derives_operands hcommand.nonempty hends hvisible hdepth hfaces
  have hne : again ≠ [] := by
    rintro rfl
    exact hcommand.nonempty (List.map_eq_nil_iff.mp hmap.symm)
  refine ⟨_, last, .command hoperands hne, ?_, hlast⟩
  rw [Command.unplaced_mk, Command.unplaced_mk, hmap]

/-- Commands with bars between them are read again with what closes their pipeline. -/
theorem Threads.derives_commands {commands : List Command}
    (hthreads : Threads (RereadsCommand setting) before commands after)
    (hcloses : ClosesPipeline closer depth tail mode more) (hvisible : s.visible = before)
    (hdepth : s.depth + Command.allNesting commands ≤ maxDepth)
    (hfaces : s.Faces (.inside depth)
      ((" | ".intercalate (Command.canonicals commands)).toList ++ tail)) :
    ∃ again last, DerivesPhrase setting (.commands closer again) s last ∧
      again.map Command.unplaced = commands.map Command.unplaced ∧
      s.Reaches last after mode more := by
  -- What closes the pipeline starts no operand, so a command is read where there is one.
  have hstart {kind : ItemKind} (hkind : startsOperand kind = true) : kind ≠ closer := by
    rintro rfl
    rcases hcloses.kind with rfl | rfl <;> cases hkind
  obtain ⟨value, hemits⟩ := hcloses.emits
  induction hthreads generalizing s with
  | nil =>
    rw [Command.canonicals, String.intercalate_nil, String.toList_empty, List.nil_append] at hfaces
    obtain ⟨item, last, hread, hkind, -, hlast⟩ := hfaces.reads hemits
    rw [hvisible] at hlast
    exact ⟨[], last, .commandsEnd hread hkind, rfl, hlast⟩
  | @cons before middle after first rest hfirst hrest ih =>
    rw [Command.allNesting] at hdepth
    have hroom : s.depth + first.nesting ≤ maxDepth := by omega
    have hrow : s.depth + Command.allNesting rest ≤ maxDepth := by omega
    -- The rest of the commands is what is before the parser once the first of them is ended.
    obtain ⟨text, left, htext, hends, hleft⟩ : ∃ text left,
        (" | ".intercalate (Command.canonicals (first :: rest))).toList ++ tail =
          first.canonical.toList ++ text ∧ EndsCommandText depth text left ∧
        ∀ {state : State}, state.Before (.inside depth) left → state.Faces (.inside depth)
          ((" | ".intercalate (Command.canonicals rest)).toList ++ tail) := by
      rcases rest with _ | ⟨second, others⟩
      · refine ⟨tail, tail, by simp [Command.canonicals], .closer hcloses, fun hbefore ↦ ?_⟩
        refine hbefore.faces ?_
        rw [(hbefore.peek hemits).1]
        exact hcloses.kind_ne_space
      · have hsolid := (hrest.solid_commands (List.cons_ne_nil second others)).append tail
        refine ⟨_, _, ?_, .bar hsolid, fun hbefore ↦ hbefore.faces_behind hsolid⟩
        simp [Command.canonicals, String.intercalate_cons_cons]
    rw [htext] at hfaces
    obtain ⟨again, afterFirst, hderives, hagain, hreaches⟩ :=
      hfirst.derives hends hvisible hroom hfaces
    obtain ⟨others, last, hothers, hmap, hlast⟩ :=
      ih hreaches.visible_eq (hreaches.depth_eq ▸ hrow) (hleft hreaches.before)
    obtain ⟨item, afterItem, hread, hkind⟩ := exists_reads_of_command hderives
    refine ⟨again :: others, last, .commandsMore hread (hstart hkind) hkind hderives hothers, ?_,
      hreaches.trans hlast⟩
    simp only [List.map_cons, hagain, hmap]

end Commands

/-! ### Declarations -/

/-- That a declaration may name a variable: it has no fields, and its name stands alone. -/
structure IsTarget (target : Variable) : Prop where
  path_eq : target.path = [target.canonical]
  standalone : Standalone .variable EndsName target.canonical.toList

/-- The sign of a declaration. -/
def signText (isAssign : Bool) : List Char := if isAssign then ['='] else [':', '=']

/-- The variables of a declaration with the sign, in front of a text. -/
def targetsText (isAssign : Bool) (targets : List Variable) (rest : List Char) : List Char :=
  (", ".intercalate (targets.map Variable.canonical)).toList ++
    ' ' :: (signText isAssign ++ ' ' :: rest)

/-- That a declaration may stand in a text, where `more` further variables may follow the first. -/
structure Declarations.Legible (more : Nat) (declared : Declarations) : Prop where
  targets : ∀ target ∈ declared.targets, IsTarget target
  length_le : declared.targets.length ≤ more + 1
  isAssign_eq : declared.targets = [] → declared.isAssign = false

section Declarations

variable {setting : Setting} {s after : State} {more depth : Nat}

theorem IsTarget.name?_eq {target : Variable} (htarget : IsTarget target) :
    target.name? = some target.canonical := by
  rw [Variable.name?, htarget.path_eq]
  rfl

/-- A variable of the same name is the same target up to positions. -/
theorem IsTarget.unplaced_targetOf {target : Variable} (htarget : IsTarget target) {item : Item}
    (hvalue : item.value = target.canonical) : (targetOf item).unplaced = target.unplaced := by
  rw [targetOf, hvalue, ← htarget.path_eq]
  rfl

theorem isTarget_targetOf {item : Item} (hkind : item.kind = .variable)
    (hlegible : item.Legible braces) : IsTarget (targetOf item) := by
  have hcanonical : (targetOf item).canonical = item.value := String.intercalate_singleton
  constructor
  · rw [hcanonical]
    rfl
  · rw [hcanonical]
    exact hkind ▸ hlegible.standalone_name (hkind ▸ rfl)

/-- The declaration of a source may stand in a text. -/
theorem Declares.legible {declared : Declarations} (hdeclares : Declares more s declared after)
    (hlexed : s.Lexed) : declared.Legible more := by
  induction hdeclares with
  | none => exact ⟨by simp, by simp, fun _ ↦ rfl⟩
  | last hname hvariable =>
    refine ⟨fun target htarget ↦ ?_, by simp, by simp⟩
    cases List.mem_singleton.mp htarget
    exact isTarget_targetOf hvariable (hname.legible hlexed)
  | more hname hvariable hsign _ _ _ ih =>
    have hsigned := hsign.leads.lexed (hname.leads.lexed hlexed)
    have hothers := ih ⟨hsigned.legible, hsigned.apart⟩
    refine ⟨List.forall_mem_cons.mpr ⟨?_, hothers.targets⟩, ?_, by simp⟩
    · exact isTarget_targetOf hvariable (hname.legible hlexed)
    · simpa using hothers.length_le

/-- The sign of a declaration stands alone. -/
theorem standalone_signText (isAssign : Bool) :
    ∃ kind, Standalone kind Anything (signText isAssign) ∧ isDeclaring kind = true ∧
      decide (kind = .assign) = isAssign := by
  cases isAssign with
  | true => exact ⟨.assign, standalone_assign, rfl, rfl⟩
  | false => exact ⟨.declare, standalone_declare, rfl, rfl⟩

theorem targetsText_singleton {isAssign : Bool} {target : Variable} (rest : List Char) :
    targetsText isAssign [target] rest =
      target.canonical.toList ++ ' ' :: (signText isAssign ++ ' ' :: rest) := by
  rw [targetsText, List.map_singleton, String.intercalate_singleton]

theorem targetsText_cons {isAssign : Bool} {first second : Variable} {targets : List Variable}
    (rest : List Char) :
    targetsText isAssign (first :: second :: targets) rest =
      first.canonical.toList ++
        ([','] ++ ' ' :: targetsText isAssign (second :: targets) rest) := by
  simp only [targetsText, List.map_cons, String.intercalate_cons_cons]
  simp

/-- A declaration starts with a variable. -/
theorem solid_targetsText {isAssign : Bool} {first : Variable} {targets : List Variable}
    (hfirst : IsTarget first) (rest : List Char) :
    Solid (targetsText isAssign (first :: targets) rest) := by
  cases targets with
  | nil =>
    rw [targetsText_singleton]
    exact hfirst.standalone.solid.append _
  | cons second targets =>
    rw [targetsText_cons]
    exact hfirst.standalone.solid.append _

/-- A variable is the next item where a declaration has variables. -/
theorem Declares.peek_kind {declared : Declarations} (hdeclares : Declares more s declared after)
    (hne : declared.targets ≠ []) : s.skipSpaces.peek.kind = .variable := by
  cases hdeclares with
  | none => exact absurd rfl hne
  | last hname hvariable | more hname hvariable => rw [hname.peek_eq, hvariable]

/-- The variables of a declaration are read again, with the sign behind them. -/
theorem derives_targets {isAssign : Bool} {first : Variable} {targets : List Variable}
    {rest : List Char} (htargets : ∀ target ∈ first :: targets, IsTarget target)
    (hlength : targets.length ≤ more)
    (hfaces : s.Faces (.inside depth) (targetsText isAssign (first :: targets) rest)) :
    ∃ again last, Declares more s ⟨isAssign, again⟩ last ∧
      again.map Variable.unplaced = (first :: targets).map Variable.unplaced ∧
      s.Reaches last (declareAll s.visible (first :: targets)) (.inside depth) (' ' :: rest) := by
  obtain ⟨sign, hsignStands, hdeclaring, hassign⟩ := standalone_signText isAssign
  have hsignDepth : nextDepth depth sign = some depth := by
    cases sign <;> first | rfl | cases hdeclaring
  have hsignSolid := hsignStands.solid.append (' ' :: rest)
  induction targets generalizing s first more with
  | nil =>
    have htarget := htargets first List.mem_cons_self
    rw [targetsText_singleton] at hfaces
    obtain ⟨item, afterName, hname, hvariable, hvalue, hnamed⟩ :=
      hfaces.reads (htarget.standalone.emits (.operand (.blank hsignSolid)) rfl)
    rw [String.ofList_toList] at hvalue
    obtain ⟨mark, afterSign, hsign, hmark, -, hsigned⟩ :=
      (hnamed.before.faces_behind hsignSolid).reads (hsignStands.emits trivial hsignDepth)
    have hreaches := (hnamed.trans hsigned).declare hvalue
    rw [hnamed.visible_eq] at hreaches
    rw [declareAll_cons htarget.name?_eq]
    refine ⟨[targetOf item], afterSign.declare item.value, ?_, ?_, hreaches⟩
    · rw [← hassign, ← hmark]
      exact .last hname hvariable hsign (hmark ▸ hdeclaring)
    · rw [List.map_singleton, List.map_singleton, htarget.unplaced_targetOf hvalue]
  | cons second targets ih =>
    obtain _ | more := more
    · cases hlength
    have htarget := htargets first List.mem_cons_self
    have hothers := fun target htarget ↦ htargets target (List.mem_cons_of_mem first htarget)
    rw [targetsText_cons] at hfaces
    obtain ⟨item, afterName, hname, hvariable, hvalue, hnamed⟩ :=
      hfaces.reads (htarget.standalone.emits .comma rfl)
    rw [String.ofList_toList] at hvalue
    obtain ⟨mark, afterSign, hsign, hmark, hcomma, hsigned⟩ :=
      (hnamed.before.faces_solid (standalone_comma.solid.append _)).reads
        (standalone_comma.emits trivial rfl)
    have hreaches := (hnamed.trans hsigned).declare hvalue
    rw [hnamed.visible_eq] at hreaches
    obtain ⟨again, last, hdeclares, hmap, hlast⟩ :=
      ih hothers (Nat.le_of_succ_le_succ hlength)
        (hreaches.before.faces_behind (solid_targetsText (hothers second List.mem_cons_self) rest))
    rw [hreaches.visible_eq] at hlast
    rw [declareAll_cons htarget.name?_eq]
    have hne : again ≠ [] := by
      rintro rfl
      cases hmap
    refine ⟨targetOf item :: again, last, ?_, ?_, hreaches.trans hlast⟩
    · refine .more hname hvariable hsign ?_ ?_ hdeclares
      · rw [isSeparator, hmark, hcomma]
        rfl
      · rw [hdeclares.peek_kind hne]
        rfl
    · simp only [List.map_cons, htarget.unplaced_targetOf hvalue, hmap]

end Declarations

/-! ### Pipelines -/

section Pipelines

variable {setting : Setting} {s after : State}

/-- That a pipeline is read again, wherever `before` are visible, in a clause that lets it declare
so many variables after the first; it leaves `after` visible. -/
structure RereadsPipeline (setting : Setting) (further : Nat) (before : List String)
    (found : Pipeline) (after : List String) : Prop where
  solid : Solid found.canonical.toList
  derives : ∀ (clause : Clause) {s : State} {closer : ItemKind} {depth : Nat}
    {tail more : List Char} {mode : Mode}, furtherVariables clause = further →
    s.visible = before → s.depth + found.nesting ≤ maxDepth →
    ClosesPipeline closer depth tail mode more →
    s.Faces (.inside depth) (found.canonical.toList ++ tail) →
    ∃ again last, DerivesPhrase setting (.pipeline clause closer again) s last ∧
      again.unplaced = found.unplaced ∧ s.Reaches last after mode more

/-- The text of a pipeline is that of its declaration and its commands. -/
theorem canonical_append (position : Position) (isAssign : Bool) (first : Variable)
    (targets : List Variable) (commands : List Command) (tail : List Char) :
    (Pipeline.canonical ⟨position, isAssign, first :: targets, commands⟩).toList ++ tail =
      targetsText isAssign (first :: targets)
        ((" | ".intercalate (Command.canonicals commands)).toList ++ tail) := by
  simp only [Pipeline.canonical, declarationText, targetsText, signText]
  cases isAssign <;> simp

section Parts

variable {before later after : List String} {commands : List Command} {position : Position}
  (hcommands : Threads (RereadsCommand setting) later commands after) (hne : commands ≠ [])
  (hcallable : valueStage? 2 commands.tail = none)

include hcommands hne hcallable

/-- The commands of a pipeline are read again behind a declaration. -/
theorem derives_behind {s middle : State} {clause : Clause} {closer : ItemKind}
    {declared : Declarations} {targets : List Variable} {depth : Nat} {tail more : List Char}
    {mode : Mode} (hdeclares : Declares (furtherVariables clause) s declared middle)
    (hmap : declared.targets.map Variable.unplaced = targets.map Variable.unplaced)
    (hvisible : middle.visible = later)
    (hdepth : middle.depth + Command.allNesting commands ≤ maxDepth)
    (hcloses : ClosesPipeline closer depth tail mode more)
    (hfaces : middle.Faces (.inside depth)
      ((" | ".intercalate (Command.canonicals commands)).toList ++ tail)) :
    ∃ again last, DerivesPhrase setting (.pipeline clause closer again) s last ∧
      again.unplaced = Pipeline.unplaced ⟨position, declared.isAssign, targets, commands⟩ ∧
      middle.Reaches last after mode more := by
  obtain ⟨again, last, hagain, hsame, hlast⟩ :=
    hcommands.derives_commands hcloses hvisible hdepth hfaces
  have hnonempty : again ≠ [] := by
    rintro rfl
    exact hne (List.map_eq_nil_iff.mp hsame.symm)
  have hstages : valueStage? 2 again.tail = none := by
    rw [← valueStage?_unplaced, List.map_tail, hsame, ← List.map_tail, valueStage?_unplaced]
    exact hcallable
  refine ⟨_, last, .pipeline hdeclares hagain hnonempty hstages, ?_, hlast⟩
  rw [Pipeline.unplaced_mk, Pipeline.unplaced_mk, hmap, hsame]

/-- Commands that are read again are a pipeline that is. -/
theorem rereads_commands {more : Nat} :
    RereadsPipeline setting more later ⟨position, false, [], commands⟩ after := by
  have hcanonical : Pipeline.canonical ⟨position, false, [], commands⟩ =
      " | ".intercalate (Command.canonicals commands) := by
    simp [Pipeline.canonical, declarationText]
  refine ⟨hcanonical ▸ hcommands.solid_commands hne,
    fun clause {s closer depth tail left mode} _ hvisible hdepth hcloses hfaces ↦ ?_⟩
  rw [hcanonical] at hfaces
  -- The commands are read where no declaration is, and so there is none.
  obtain ⟨again, last, hagain, hsame, -⟩ :=
    hcommands.derives_commands (s := s.skipSpaces) hcloses hvisible hdepth hfaces.skipSpaces
  have hnonempty : again ≠ [] := by
    rintro rfl
    exact hne (List.map_eq_nil_iff.mp hsame.symm)
  have hnone : ¬ StartsDeclaration s := fun hstarts ↦
    not_startsDeclaration_of_commands hagain hnonempty hstarts.skipSpaces
  obtain ⟨again, last, hagain, hsame, hlast⟩ :=
    derives_behind hcommands hne hcallable (.none hnone) rfl hvisible hdepth hcloses
      hfaces.skipSpaces
  exact ⟨again, last, hagain, hsame, hlast.of_skipSpaces⟩

/-- A declaration and commands that are read again are a pipeline that is. -/
theorem rereads_declaration {more : Nat} {isAssign : Bool} {first : Variable}
    {targets : List Variable}
    (hdeclared : (Declarations.mk isAssign (first :: targets)).Legible more)
    (hlater : later = declareAll before (first :: targets)) :
    RereadsPipeline setting more before ⟨position, isAssign, first :: targets, commands⟩ after := by
  refine ⟨?_,
    fun clause {s closer depth tail left mode} hclause hvisible hdepth hcloses hfaces ↦ ?_⟩
  · have htext := canonical_append position isAssign first targets commands []
    rw [List.append_nil] at htext
    rw [htext]
    exact solid_targetsText (hdeclared.targets first List.mem_cons_self) _
  · rw [canonical_append] at hfaces
    have hlength : targets.length ≤ furtherVariables clause := by
      rw [hclause]
      exact Nat.le_of_succ_le_succ hdeclared.length_le
    obtain ⟨names, middle, hdeclares, hmap, hreaches⟩ :=
      derives_targets hdeclared.targets hlength hfaces
    rw [hvisible, ← hlater] at hreaches
    obtain ⟨again, last, hagain, hsame, hlast⟩ :=
      derives_behind hcommands hne hcallable hdeclares hmap hreaches.visible_eq
        (hreaches.depth_eq.symm ▸ hdepth) hcloses
        (hreaches.before.faces_behind ((hcommands.solid_commands hne).append tail))
    exact ⟨again, last, hagain, hsame, hreaches.trans hlast⟩

end Parts

/-- A pipeline in parentheses that is read again is a term that is. -/
theorem RereadsPipeline.term {before after : List String} {inner : Pipeline}
    (hinner : RereadsPipeline setting 0 before inner after) :
    RereadsTerm setting before (.pipeline inner) after := by
  have htext (more : List Char) : ((Node.pipeline inner).write true).toList ++ more =
      ['('] ++ (inner.canonical.toList ++ ')' :: more) := by
    simp [Node.write]
  refine ⟨?_, fun {s depth more} hvisible hdepth _ hfaces ↦ ?_⟩
  · have hsplit := htext []
    rw [List.append_nil] at hsplit
    rw [hsplit]
    exact standalone_leftParen.solid.append _
  · rw [htext] at hfaces
    have hroom : s.depth + (inner.nesting + 1) ≤ maxDepth := hdepth
    have hdeeper : nextDepth depth .leftParen = some (depth + 1) := rfl
    obtain ⟨item, afterItem, hread, hkind, -, hopened⟩ :=
      hfaces.reads (standalone_leftParen.emits trivial hdeeper)
    have hsolid := hinner.solid.append (')' :: more)
    have henter : afterItem.enter.depth = s.depth + 1 := congrArg (· + 1) hopened.depth_eq
    obtain ⟨again, last, hagain, hsame, hlast⟩ :=
      hinner.derives .parenthesized (s := afterItem.enter) rfl
        (hopened.visible_eq.trans hvisible) (by rw [henter]; omega) .paren
        (State.Before.faces_solid (s := afterItem.enter) hopened.before hsolid)
    refine ⟨.pipeline again, last.leave, ?_, ⟨hlast.before, hlast.visible_eq, ?_, ?_, ?_⟩,
      fun hchained ↦ .parenthesized hread hkind ?_ hagain hchained⟩
    · rw [Node.unplaced, Node.mapPosition]
      exact congrArg Node.pipeline hsame
    · exact hlast.trees_eq.trans hopened.trees_eq
    · exact hlast.loopDepth_eq.trans hopened.loopDepth_eq
    · change last.depth - 1 = s.depth
      rw [hlast.depth_eq, henter, Nat.add_sub_cancel]
    · rw [hopened.depth_eq]
      omega

/-! ### Pipelines of a source -/

/-- That a part of a pipeline is read again wherever `before` are visible, and leaves `after`
visible. -/
def Phrase.Rereads (setting : Setting) (before after : List String) : Phrase → Prop
  | .pipeline clause _ found =>
    RereadsPipeline setting (furtherVariables clause) before found after
  | .commands _ found => Threads (RereadsCommand setting) before found after
  | .command found => RereadsCommand setting before found after
  | .operands found => Threads (RereadsOperand setting) before found after
  | .operand found => RereadsOperand setting before found after

/-- What is read of a pipeline in a source is read again, and inside the same loops. -/
theorem DerivesPhrase.rereads {phrase : Phrase} (hderives : DerivesPhrase setting phrase s after)
    (hlexed : s.Lexed) : s.Leads after ∧ phrase.Rereads setting s.visible after.visible := by
  induction hderives with
  | @pipeline _ _ _ _ _ declared _ hdeclares _ hvalue hcallable ih =>
    obtain ⟨hleads, hcommands⟩ := ih (hdeclares.leads.lexed hlexed)
    refine ⟨hdeclares.leads.trans hleads, ?_⟩
    have hdeclared := hdeclares.legible hlexed
    have hvisible := hdeclares.visible_eq
    rcases declared with ⟨isAssign, _ | ⟨first, targets⟩⟩
    · obtain rfl : isAssign = false := hdeclared.isAssign_eq rfl
      rw [hvisible] at hcommands
      exact rereads_commands hcommands hvalue hcallable
    · exact rereads_declaration hcommands hvalue hcallable hdeclared hvisible
  | commandsEnd hread =>
    refine ⟨hread.leads, ?_⟩
    rw [hread.visible_eq]
    exact .nil
  | commandsMore _ _ _ _ _ ihFirst ihOthers =>
    obtain ⟨hleads, hfirst⟩ := ihFirst hlexed
    obtain ⟨hrest, hothers⟩ := ihOthers (hleads.lexed hlexed)
    exact ⟨hleads.trans hrest, .cons hfirst hothers⟩
  | command _ hvalue ih =>
    obtain ⟨hleads, hoperands⟩ := ih hlexed
    exact ⟨hleads, hvalue, hoperands⟩
  | @operandsEnd s after _ hend =>
    refine ⟨s.leads_skipSpaces.trans hend.leads, ?_⟩
    have hvisible : after.visible = s.visible := hend.visible_eq
    rw [hvisible]
    exact .nil
  | @operandsMore s afterFirst after _ _ _ _ _ ihFirst ihOthers =>
    obtain ⟨hleads, hfirst⟩ := ihFirst (s.leads_skipSpaces.lexed hlexed)
    have hbehind := (s.leads_skipSpaces.trans hleads).trans afterFirst.leads_advance
    obtain ⟨hrest, hothers⟩ := ihOthers (hbehind.lexed hlexed)
    rw [State.visible_advance] at hothers
    exact ⟨hbehind.trans hrest, .cons hfirst hothers⟩
  | @operandsLast s afterFirst after _ _ _ hend ihFirst =>
    obtain ⟨hleads, hfirst⟩ := ihFirst (s.leads_skipSpaces.lexed hlexed)
    refine ⟨(s.leads_skipSpaces.trans hleads).trans hend.leads, .cons hfirst ?_⟩
    rw [hend.visible_eq]
    exact .nil
  | @parenthesized s afterItem afterInner after _ _ _ hread _ _ _ hchained ih =>
    have henter : s.Leads afterItem.enter := hread.leads.trans (State.leads_of_eq rfl rfl)
    obtain ⟨hleads, hinner⟩ := ih (henter.lexed hlexed)
    have hleave : s.Leads afterInner.leave :=
      (henter.trans hleads).trans (State.leads_of_eq rfl rfl)
    refine ⟨hleave.trans hchained.leads, ?_⟩
    have hterm : RereadsTerm setting s.visible _ afterInner.visible :=
      RereadsPipeline.term (hread.visible_eq ▸ hinner)
    have hoperand := hterm.operand (hchained.extends (hleave.lexed hlexed)) (by simp)
    rw [hchained.visible_eq]
    exact hoperand
  | term hread hterm hchained =>
    refine ⟨hread.leads.trans hchained.leads, ?_⟩
    rw [hchained.visible_eq, hread.visible_eq]
    exact (hterm.rereads (hread.legible hlexed)).operand
      (hchained.extends (hread.leads.lexed hlexed)) hterm.path_ne_nil

end Pipelines

end Stencil.Syntax.Parse
