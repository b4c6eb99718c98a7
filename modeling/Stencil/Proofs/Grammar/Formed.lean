import Stencil.Proofs.Grammar.Context
import Stencil.Proofs.Grammar.Trees

/-!
# The shape of parsed trees

A tree is made of one type of nodes, and what is built by hand may hold any node anywhere. The
parser builds less: statements stand in bodies and operands in commands, no command is empty, fields
are taken of something and of no explicit nil, every variable has a name, a name that is called is
one of a function, and a break or a continue stands inside a loop. `Body.IsFormed` says all this of
a body by the number of loops around it. Every tree of a source has that shape
(`isFormed_of_parse`).

The number of loops is the one that the parser counts, so the proof is an induction on derivations
along which the count stays what it was (`DerivesPassage.sameDepths`).
-/

set_option autoImplicit false
set_option relaxedAutoImplicit false

namespace Stencil.Syntax

/-! ### Operands -/

/-- That a variable has a name. -/
def Variable.IsNamed (v : Variable) : Prop := v.name? ≠ none

theorem Variable.isNamed_of_path_ne_nil {v : Variable} (hpath : v.path ≠ []) : v.IsNamed :=
  fun hnone ↦ hpath (List.head?_eq_none_iff.mp hnone)

section Operands

variable (isFunction : String → Bool)

mutual

/-- That a node may stand in a command: a term, a pipeline in parentheses, or fields taken of one of
these that is not nil. -/
def Node.IsOperand : Node → Prop
  | .identifier _ name => isFunction name = true
  | .pipeline inner => inner.IsFormed
  | .chain _ base path => path ≠ [] ∧ (∀ position, base ≠ .nil position) ∧ base.IsOperand
  | .var reference => reference.IsNamed
  | .dot _ | .nil _ | .field .. | .bool .. | .number _ | .string .. => True
  | _ => False

/-- That the variables of a pipeline have names, and every command the shape that the parser gives
it. -/
def Pipeline.IsFormed : Pipeline → Prop
  | ⟨_, _, targets, commands⟩ => (∀ target ∈ targets, target.IsNamed) ∧ Command.AllFormed commands

/-- That commands have the shape that the parser gives them. -/
def Command.AllFormed : List Command → Prop
  | [] => True
  | command :: rest => command.IsFormed ∧ Command.AllFormed rest

/-- That a command has the shape that the parser gives it: one operand at least, and nothing else.
-/
def Command.IsFormed : Command → Prop
  | ⟨_, operands⟩ => operands ≠ [] ∧ Node.AllOperands operands

/-- That nodes may stand in a command. -/
def Node.AllOperands : List Node → Prop
  | [] => True
  | operand :: rest => operand.IsOperand ∧ Node.AllOperands rest

end

variable {isFunction}

theorem Pipeline.IsFormed.isNamed {pipeline : Pipeline} (hformed : pipeline.IsFormed isFunction) :
    ∀ target ∈ pipeline.targets, target.IsNamed := by
  obtain ⟨_, _, targets, commands⟩ := pipeline
  exact hformed.1

end Operands

/-! ### Statements -/

section Statements

variable (isFunction : String → Bool)

mutual

/-- That a node may stand in a body that is inside a number of loops. The else part of a loop is not
inside that loop. -/
def Node.IsStatement (loops : Nat) : Node → Prop
  | .text .. | .comment .. => True
  | .action _ inner => inner.IsFormed isFunction
  | .branch kind _ head body otherwise =>
    head.IsFormed isFunction ∧ body.IsFormed (loops + Parse.loopsOf kind) ∧
      match otherwise with
      | none => True
      | some other => other.IsFormed loops
  | .template _ _ argument =>
    match argument with
    | none => True
    | some inner => inner.IsFormed isFunction
  | .breakLoop _ | .continueLoop _ => 0 < loops
  | _ => False

/-- That nodes may stand in a body that is inside a number of loops. -/
def Node.AllStatements (loops : Nat) : List Node → Prop
  | [] => True
  | node :: rest => node.IsStatement loops ∧ Node.AllStatements loops rest

/-- That a body inside a number of loops has the shape that the parser gives it. -/
def Body.IsFormed (loops : Nat) : Body → Prop
  | ⟨_, nodes⟩ => Node.AllStatements loops nodes

end

end Statements

namespace Parse

variable {setting : Setting} {s after : State}

/-! ### Parsed operands -/

/-- That a part of a pipeline has the shape that the parser gives it. -/
def Phrase.IsFormed (isFunction : String → Bool) : Phrase → Prop
  | .pipeline _ _ found => found.IsFormed isFunction
  | .commands _ found => Command.AllFormed isFunction found
  | .command found => found.IsFormed isFunction
  | .operands found => Node.AllOperands isFunction found
  | .operand found => found.IsOperand isFunction

/-- A term may stand in a command. -/
theorem IsTerm.isOperand {visible : List String} {item : Item} {base : Node}
    (hterm : IsTerm setting visible item base) : base.IsOperand setting.isFunction := by
  cases hterm with
  | identifier _ hfunction => exact hfunction
  | variableName => exact Variable.isNamed_of_path_ne_nil (List.cons_ne_nil _ _)
  | _ => trivial

/-- What may stand in a command may stand there with fields taken of it. -/
theorem Chained.isOperand {base found : Node} (hchained : Chained base s found after)
    (hbase : base.IsOperand setting.isFunction) : found.IsOperand setting.isFunction := by
  cases hchained with
  | alone => exact hbase
  | fields hkind hfields =>
    have hnames : s.fields.value ≠ [] := fields_ne_nil_iff.mpr hkind
    have hnil (position : Position) : base ≠ .nil position := by
      rintro rfl
      cases hfields
    unfold takeFields
    split
    next reference =>
      refine Variable.isNamed_of_path_ne_nil ?_
      exact List.append_ne_nil_of_right_ne_nil reference.path hnames
    next => exact ⟨hnames, hnil, hbase⟩

/-- The variables of a declaration have names. -/
theorem Declares.isNamed {more : Nat} {declared : Declarations}
    (hdeclares : Declares more s declared after) : ∀ target ∈ declared.targets, target.IsNamed := by
  induction hdeclares with
  | none => exact List.forall_mem_nil _
  | last => exact List.forall_mem_singleton.mpr nofun
  | more _ _ _ _ _ _ ih => exact List.forall_mem_cons.mpr ⟨nofun, ih⟩

/-- A part of a pipeline that is read has its shape. -/
theorem DerivesPhrase.isFormed {phrase : Phrase} (hderives : DerivesPhrase setting phrase s after) :
    phrase.IsFormed setting.isFunction := by
  induction hderives with
  | pipeline hdeclares _ _ _ ih => exact ⟨hdeclares.isNamed, ih⟩
  | commandsEnd | operandsEnd => trivial
  | commandsMore _ _ _ _ _ ihFirst ihOthers => exact ⟨ihFirst, ihOthers⟩
  | command _ hvalue ih => exact ⟨hvalue, ih⟩
  | operandsMore _ _ _ ihFirst ihOthers => exact ⟨ihFirst, ihOthers⟩
  | operandsLast _ _ _ ih => exact ⟨ih, trivial⟩
  | parenthesized _ _ _ _ hchained ih => exact hchained.isOperand ih
  | term _ hterm hchained => exact hchained.isOperand hterm.isOperand

/-! ### Parsed statements -/

/-- That a statement may stand in a body that is inside a number of loops. -/
def Statement.IsFormed (isFunction : String → Bool) (loops : Nat) : Statement → Prop
  | .node found => found.IsStatement isFunction loops
  | .ending _ => True

/-- That a part of a body inside a number of loops has the shape that the parser gives it. -/
def Passage.IsFormed (isFunction : String → Bool) (loops : Nat) : Passage → Prop
  | .body found _ => found.IsFormed isFunction loops
  | .statements found _ => Node.AllStatements isFunction loops found
  | .statement found | .action found => found.IsFormed isFunction loops
  | .branchBody kind found _ => found.IsFormed isFunction (loops + loopsOf kind)
  | .nestedBody found => found.IsFormed isFunction 0
  | .control _ found | .block found => found.IsStatement isFunction loops

/-- A part of a body that is read has its shape, inside the loops that the parser counts. -/
theorem DerivesPassage.isFormed {passage : Passage}
    (hderives : DerivesPassage setting passage s after) :
    passage.IsFormed setting.isFunction s.loopDepth := by
  induction hderives with
  | body _ _ ih => exact ih
  | statementsEnd | text | comment | elseWord | elseAction | endAction | templateBare => trivial
  | statementsMore _ hfirst _ ihFirst ihOthers =>
    exact ⟨ihFirst, hfirst.sameDepths.loopDepth_eq ▸ ihOthers⟩
  | delimited hread _ _ ih =>
    exact hread.sameDepths.loopDepth_eq ▸ ih
  | blockAction hread _ _ ih | branchAction hread _ _ ih =>
    exact hread.sameDepths.loopDepth_eq ▸ ih
  | breakAction hread _ hclose hloop | continueAction hread _ hclose hloop =>
    have hloops := (hread.sameDepths.trans hclose.sameDepths).loopDepth_eq
    exact hloops ▸ Nat.pos_of_ne_zero hloop
  | templateWith _ _ _ _ _ hargument => exact hargument.isFormed
  | pipelineAction _ _ hfound => exact hfound.isFormed
  | branchBody _ ih | nestedBody _ ih => exact ih
  | controlOnly hhead _ ih =>
    exact ⟨hhead.isFormed, hhead.sameDepths.loopDepth_eq ▸ ih, trivial⟩
  | @controlContinued _ _ _ afterFirst _ _ _ _ _ _ hhead hfirst _ _ _ ihFirst ihInner =>
    have hloops := ((hhead.sameDepths.trans hfirst.sameDepths).trans
      afterFirst.sameDepths_advance).loopDepth_eq
    exact ⟨hhead.isFormed, hhead.sameDepths.loopDepth_eq ▸ ihFirst, hloops ▸ ihInner, trivial⟩
  | controlOtherwise hhead hfirst _ _ ihFirst ihSecond =>
    have hloops := (hhead.sameDepths.trans hfirst.sameDepths).loopDepth_eq
    exact ⟨hhead.isFormed, hhead.sameDepths.loopDepth_eq ▸ ihFirst, hloops ▸ ihSecond⟩
  | block _ hargument => exact hargument.isFormed

/-- The statements of a source stand outside of loops. -/
theorem DerivesRoot.isFormed {found : List Node} (hderives : DerivesRoot setting found s after)
    (hstart : s.loopDepth = 0) : Node.AllStatements setting.isFunction 0 found := by
  induction hderives with
  | finished => trivial
  | definition hopens hdefines _ ih =>
    exact ih ((hopens.sameDepths hdefines).loopDepth_eq.trans hstart)
  | statement _ _ hfirst _ ih =>
    exact ⟨hstart ▸ hfirst.isFormed, ih (hfirst.sameDepths.loopDepth_eq.trans hstart)⟩

/-- What is read as a tree has the shape of one, outside of loops. -/
theorem DerivesTree.isFormed {root : Body} (hderives : DerivesTree setting root) :
    root.IsFormed setting.isFunction 0 := by
  cases hderives with
  | source hfound => exact hfound.isFormed rfl
  | nested hfound => exact hfound.isFormed

end Parse

/-- Every tree of a source has the shape that the parser gives it. -/
theorem isFormed_of_parse {name source : String} {delimiters : Delimiters}
    {isFunction : String → Bool} {set : TreeSet}
    (hparse : parse name delimiters isFunction source = .ok set) {tree : Tree}
    (htree : tree ∈ set.trees) : tree.root.IsFormed isFunction 0 :=
  (derivesTree_of_parse hparse htree).isFormed

end Stencil.Syntax
