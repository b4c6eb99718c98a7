import Stencil.Syntax.Parse

/-!
# Derivations

The grammar as a relation. A derivation says that a phrase or a passage is read between two states
of a parse, with one rule for each way in which the parser can go on, and nothing else: neither what
is looked at and left nor what the parser refuses. `DerivesPhrase` is about pipelines and what they
are made of, `DerivesPassage` about statements and the bodies of control structures, `DerivesRoot`
about a whole source.

What the parser reads has a derivation, and what has a derivation is read by the parser. So a fact
about all that the parser accepts is proved by induction on derivations.
-/

set_option autoImplicit false
set_option relaxedAutoImplicit false

namespace Stencil.Syntax.Parse

/-! ### Reading an item -/

/-- That `item` is the first item after spaces, and `after` the state once it is read. -/
structure State.Reads (s : State) (item : Item) (after : State) : Prop where
  rest_eq : s.skipSpaces.rest = item :: after.rest
  state_eq : after = { s with line := item.position.line, rest := after.rest }

/-- That the bar that ends a command is read, or nothing of what closes the pipeline. -/
inductive EndsCommand (s : State) : State → Prop
  | closer (hkind : s.peek.kind = .rightDelim ∨ s.peek.kind = .rightParen) : EndsCommand s s
  | bar (hkind : s.peek.kind = .pipe) : EndsCommand s s.advance

/-! ### Declarations -/

/-- Whether a sign ends a declaration. -/
def isDeclaring (kind : ItemKind) : Bool := kind = .assign || kind = .declare

/-- Whether an item separates two variables of a declaration. -/
def isSeparator (item : Item) : Bool := item.kind = .char && item.value = ","

/-- Whether a variable or the end of a declaration's pipeline may stand here. -/
def mayFollowSeparator (kind : ItemKind) : Bool :=
  [ItemKind.variable, .rightDelim, .rightParen].contains kind

/-- The variable that an item declares. -/
def targetOf (item : Item) : Variable := ⟨item.position, [item.value]⟩

/-- That a declaration starts here: a variable with a sign or a separator after it. -/
def StartsDeclaration (s : State) : Prop :=
  ∃ item afterName sign afterSign, s.Reads item afterName ∧ item.kind = .variable ∧
    afterName.Reads sign afterSign ∧ (isDeclaring sign.kind = true ∨ isSeparator sign = true)

/-- That a declaration, or none, is read between two states. After a separator, so many further
variables may follow. -/
inductive Declares : Nat → State → Declarations → State → Prop
  | none {more : Nat} {s : State} (hnone : ¬ StartsDeclaration s) : Declares more s {} s.skipSpaces
  | last {more : Nat} {s afterName afterSign : State} {item sign : Item}
    (hname : s.Reads item afterName) (hvariable : item.kind = .variable)
    (hsign : afterName.Reads sign afterSign) (hkind : isDeclaring sign.kind = true) :
    Declares more s ⟨sign.kind = .assign, [targetOf item]⟩ (afterSign.declare item.value)
  | more {more : Nat} {s afterName afterSign after : State} {item sign : Item}
    {others : Declarations} (hname : s.Reads item afterName) (hvariable : item.kind = .variable)
    (hsign : afterName.Reads sign afterSign) (hseparator : isSeparator sign = true)
    (hnext : mayFollowSeparator (afterSign.declare item.value).skipSpaces.peek.kind = true)
    (hothers : Declares more (afterSign.declare item.value) others after) :
    Declares (more + 1) s { others with targets := targetOf item :: others.targets } after

/-! ### Terms -/

/-- That an item is a term by itself. -/
inductive IsTerm (setting : Setting) (visible : List String) (item : Item) : Node → Prop
  | identifier (hkind : item.kind = .identifier)
    (hfunction : setting.isFunction item.value = true) :
    IsTerm setting visible item (.identifier item.position item.value)
  | dot (hkind : item.kind = .keyword .dot) : IsTerm setting visible item (.dot item.position)
  | nil (hkind : item.kind = .keyword .nilWord) : IsTerm setting visible item (.nil item.position)
  | variableName (hkind : item.kind = .variable) (hvisible : item.value ∈ visible) :
    IsTerm setting visible item (.var (targetOf item))
  | field (hkind : item.kind = .field) :
    IsTerm setting visible item (.field item.position (splitDots (item.value.toList.drop 1)))
  | bool (hkind : item.kind = .bool) :
    IsTerm setting visible item (.bool item.position (item.value = "true"))
  | charConstant {c : Char} (hkind : item.kind = .charConstant)
    (hvalue : Literal.unquoteChar item.value = some c) :
    IsTerm setting visible item (.number (NumberLiteral.ofCodePoint item.position item.value c))
  | number {literal : NumberLiteral} (hkind : item.kind = .number)
    (hvalue : NumberLiteral.ofText item.position item.value = .ok literal) :
    IsTerm setting visible item (.number literal)
  | string {text : String} (hkind : item.kind = .string ∨ item.kind = .rawString)
    (hvalue : Literal.unquote item.value = some text) :
    IsTerm setting visible item (.string item.position item.value text)

/-- Whether fields can be taken of a term: it is no literal and not the dot. -/
def hasFields : Node → Bool
  | .bool .. | .string .. | .number .. | .nil .. | .dot .. => false
  | _ => true

/-- A term with fields taken of it, which start at a position. -/
def takeFields (base : Node) (position : Position) (names : List String) : Node :=
  match base with
  | .var reference => .var { reference with path := reference.path ++ names }
  | _ => .chain position base names

/-- That the fields after a term are read. -/
inductive Chained (base : Node) (s : State) : Node → State → Prop
  | alone (hkind : s.peek.kind ≠ .field) : Chained base s base s
  | fields (hkind : s.peek.kind = .field) (hfields : hasFields base = true) :
    Chained base s (takeFields base s.peek.position s.fields.value) s.fields.state

/-! ### Pipelines -/

/-- A part of a pipeline with what it is parsed to. -/
inductive Phrase
  /-- A pipeline with the item that closes it. -/
  | pipeline (clause : Clause) (closer : ItemKind) (found : Pipeline)
  /-- Commands with the item that closes their pipeline. -/
  | commands (closer : ItemKind) (found : List Command)
  | command (found : Command)
  | operands (found : List Node)
  | operand (found : Node)

/-- That a phrase is read between two states. -/
inductive DerivesPhrase (setting : Setting) : Phrase → State → State → Prop
  | pipeline {clause : Clause} {closer : ItemKind} {s afterDeclarations after : State}
    {declared : Declarations} {found : List Command}
    (hdeclares : Declares (furtherVariables clause) s declared afterDeclarations)
    (hcommands : DerivesPhrase setting (.commands closer found) afterDeclarations after)
    (hvalue : found ≠ []) (hcallable : valueStage? 2 found.tail = none) :
    DerivesPhrase setting (.pipeline clause closer
      ⟨s.skipSpaces.peek.position, declared.isAssign, declared.targets, found⟩) s after
  | commandsEnd {closer : ItemKind} {s after : State} {item : Item} (hread : s.Reads item after)
    (hcloser : item.kind = closer) : DerivesPhrase setting (.commands closer []) s after
  | commandsMore {closer : ItemKind} {s afterItem afterFirst after : State} {item : Item}
    {first : Command} {others : List Command} (hread : s.Reads item afterItem)
    (hcloser : item.kind ≠ closer) (hstart : startsOperand item.kind = true)
    (hfirst : DerivesPhrase setting (.command first) s afterFirst)
    (hothers : DerivesPhrase setting (.commands closer others) afterFirst after) :
    DerivesPhrase setting (.commands closer (first :: others)) s after
  | command {s after : State} {found : List Node}
    (hoperands : DerivesPhrase setting (.operands found) s after) (hvalue : found ≠ []) :
    DerivesPhrase setting (.command ⟨s.skipSpaces.peek.position, found⟩) s after
  | operandsEnd {s after : State} (hnone : startsOperand s.skipSpaces.peek.kind = false)
    (hend : EndsCommand s.skipSpaces after) : DerivesPhrase setting (.operands []) s after
  | operandsMore {s afterFirst after : State} {first : Node} {others : List Node}
    (hfirst : DerivesPhrase setting (.operand first) s.skipSpaces afterFirst)
    (hspace : afterFirst.peek.kind = .space)
    (hothers : DerivesPhrase setting (.operands others) afterFirst.advance after) :
    DerivesPhrase setting (.operands (first :: others)) s after
  | operandsLast {s afterFirst after : State} {first : Node}
    (hfirst : DerivesPhrase setting (.operand first) s.skipSpaces afterFirst)
    (hspace : afterFirst.peek.kind ≠ .space) (hend : EndsCommand afterFirst after) :
    DerivesPhrase setting (.operands [first]) s after
  | parenthesized {s afterItem afterInner after : State} {item : Item} {inner : Pipeline}
    {found : Node} (hread : s.Reads item afterItem) (hkind : item.kind = .leftParen)
    (hdepth : afterItem.depth < maxDepth)
    (hinner : DerivesPhrase setting (.pipeline .parenthesized .rightParen inner) afterItem.enter
      afterInner)
    (hchained : Chained (.pipeline inner) afterInner.leave found after) :
    DerivesPhrase setting (.operand found) s after
  | term {s afterItem after : State} {item : Item} {base found : Node}
    (hread : s.Reads item afterItem) (hterm : IsTerm setting s.visible item base)
    (hchained : Chained base afterItem found after) :
    DerivesPhrase setting (.operand found) s after

/-! ### Statements -/

/-- The keyword that starts a control structure. -/
def branchWord : BranchKind → Keyword
  | .conditional => .ifWord
  | .loop => .rangeWord
  | .context => .withWord

/-- Whether an action that starts with this item is more than a pipeline. -/
def startsControl : ItemKind → Bool
  | .keyword .dot | .keyword .nilWord | .keyword .defineWord => false
  | .keyword _ => true
  | _ => false

/-- Whether a control structure may go on with this word after an else. -/
def continues (kind : ItemKind) : Bool :=
  [ItemKind.keyword .ifWord, .keyword .withWord].contains kind

/-- That the name of a template is read. -/
inductive NamesTemplate (s : State) : String → Position → State → Prop
  | name {item : Item} {after : State} {text : String} (hread : s.Reads item after)
    (hkind : item.kind = .string ∨ item.kind = .rawString)
    (hvalue : Literal.unquote item.value = some text) : NamesTemplate s text item.position after

/-- That an item of a kind is read. -/
def State.ReadsKind (s : State) (kind : ItemKind) (after : State) : Prop :=
  ∃ item, s.Reads item after ∧ item.kind = kind

/-- A part of a body with what it is parsed to. -/
inductive Passage
  | body (found : Body) (ending : Ending)
  | statements (found : List Node) (ending : Ending)
  | statement (found : Statement)
  /-- An action after its left delimiter. -/
  | action (found : Statement)
  | branchBody (kind : BranchKind) (found : Body) (ending : Ending)
  | nestedBody (found : Body)
  /-- A control structure after its keyword. -/
  | control (kind : BranchKind) (found : Node)
  /-- A block after its keyword. -/
  | block (found : Node)

/-- That a passage is read between two states. -/
inductive DerivesPassage (setting : Setting) : Passage → State → State → Prop
  | body {s after : State} {found : List Node} {ending : Ending} (hdepth : s.depth < maxDepth)
    (hfound : DerivesPassage setting (.statements found ending) s.enter after) :
    DerivesPassage setting (.body ⟨s.skipSpaces.peek.position, found⟩ ending) s after.leave
  | statementsEnd {s after : State} {ending : Ending} (hpeek : s.skipSpaces.peek.kind ≠ .eof)
    (hending : DerivesPassage setting (.statement (.ending ending)) s after) :
    DerivesPassage setting (.statements [] ending) s after
  | statementsMore {s afterFirst after : State} {first : Node} {others : List Node}
    {ending : Ending} (hpeek : s.skipSpaces.peek.kind ≠ .eof)
    (hfirst : DerivesPassage setting (.statement (.node first)) s afterFirst)
    (hothers : DerivesPassage setting (.statements others ending) afterFirst after) :
    DerivesPassage setting (.statements (first :: others) ending) s after
  | text {s after : State} {item : Item} (hread : s.Reads item after) (hkind : item.kind = .text) :
    DerivesPassage setting (.statement (.node (.text item.position item.value))) s after
  | comment {s after : State} {item : Item} (hread : s.Reads item after)
    (hkind : item.kind = .comment) :
    DerivesPassage setting (.statement (.node (.comment item.position item.value))) s after
  | delimited {s afterItem after : State} {item : Item} {found : Statement}
    (hread : s.Reads item afterItem) (hkind : item.kind = .leftDelim)
    (hfound : DerivesPassage setting (.action found) (afterItem.enterAction item.position.line)
      after) :
    DerivesPassage setting (.statement found) s after.leaveAction
  | blockAction {s afterItem after : State} {found : Node} {item : Item}
    (hread : s.Reads item afterItem) (hkind : item.kind = .keyword .blockWord)
    (hfound : DerivesPassage setting (.block found) afterItem after) :
    DerivesPassage setting (.action (.node found)) s after
  | breakAction {s afterItem after : State} {item : Item} (hread : s.Reads item afterItem)
    (hkind : item.kind = .keyword .breakWord) (hclose : afterItem.ReadsKind .rightDelim after)
    (hloop : after.loopDepth ≠ 0) :
    DerivesPassage setting (.action (.node (.breakLoop item.position))) s after
  | continueAction {s afterItem after : State} {item : Item} (hread : s.Reads item afterItem)
    (hkind : item.kind = .keyword .continueWord) (hclose : afterItem.ReadsKind .rightDelim after)
    (hloop : after.loopDepth ≠ 0) :
    DerivesPassage setting (.action (.node (.continueLoop item.position))) s after
  | elseWord {s afterItem : State} {item : Item} (hread : s.Reads item afterItem)
    (hkind : item.kind = .keyword .elseWord)
    (hcontinues : continues afterItem.skipSpaces.peek.kind = true) :
    DerivesPassage setting
      (.action (.ending (.otherwise afterItem.skipSpaces.peek.position))) s afterItem.skipSpaces
  | elseAction {s afterItem after : State} {item closer : Item} (hread : s.Reads item afterItem)
    (hkind : item.kind = .keyword .elseWord) (hclose : afterItem.Reads closer after)
    (hcloser : closer.kind = .rightDelim) :
    DerivesPassage setting (.action (.ending (.otherwise closer.position))) s after
  | endAction {s afterItem after : State} {item : Item} (hread : s.Reads item afterItem)
    (hkind : item.kind = .keyword .endWord) (hclose : afterItem.ReadsKind .rightDelim after) :
    DerivesPassage setting (.action (.ending .finished)) s after
  | branchAction {s afterItem after : State} {item : Item} {kind : BranchKind} {found : Node}
    (hread : s.Reads item afterItem) (hkind : item.kind = .keyword (branchWord kind))
    (hfound : DerivesPassage setting (.control kind found) afterItem after) :
    DerivesPassage setting (.action (.node found)) s after
  | templateBare {s afterItem afterName after : State} {item : Item} {name : String}
    {position : Position} (hread : s.Reads item afterItem)
    (hkind : item.kind = .keyword .templateWord) (hname : NamesTemplate afterItem name position
      afterName) (hclose : afterName.ReadsKind .rightDelim after) :
    DerivesPassage setting (.action (.node (.template position name none))) s after
  | templateWith {s afterItem afterName afterNext after : State} {item next : Item} {name : String}
    {position : Position} {argument : Pipeline} (hread : s.Reads item afterItem)
    (hkind : item.kind = .keyword .templateWord) (hname : NamesTemplate afterItem name position
      afterName) (hnext : afterName.Reads next afterNext) (hopen : next.kind ≠ .rightDelim)
    (hargument : DerivesPhrase setting (.pipeline .template .rightDelim argument) afterName
      after) :
    DerivesPassage setting (.action (.node (.template position name (some argument)))) s after
  | pipelineAction {s afterItem after : State} {item : Item} {found : Pipeline}
    (hread : s.Reads item afterItem) (hkind : startsControl item.kind = false)
    (hfound : DerivesPhrase setting (.pipeline .command .rightDelim found) s after) :
    DerivesPassage setting (.action (.node (.action s.skipSpaces.peek.position found))) s after
  | branchBody {kind : BranchKind} {s after : State} {found : Body} {ending : Ending}
    (hfound : DerivesPassage setting (.body found ending) (s.enterBranch kind) after) :
    DerivesPassage setting (.branchBody kind found ending) s (after.leaveBranch kind)
  | nestedBody {s after : State} {found : Body}
    (hfound : DerivesPassage setting (.body found .finished) s.enterTemplate after) :
    DerivesPassage setting (.nestedBody found) s (after.leaveTemplate s)
  | controlOnly {kind : BranchKind} {s afterHead after : State} {head : Pipeline} {first : Body}
    (hhead : DerivesPhrase setting (.pipeline (clauseOf kind) .rightDelim head) s afterHead)
    (hfirst : DerivesPassage setting (.branchBody kind first .finished) afterHead after) :
    DerivesPassage setting (.control kind (.branch kind head.position head first none)) s
      (after.keepVariables s.visible.length)
  | controlContinued {kind : BranchKind} {s afterHead afterFirst after : State} {head : Pipeline}
    {first : Body} {position : Position} {word : Keyword} {inner : Node}
    (hhead : DerivesPhrase setting (.pipeline (clauseOf kind) .rightDelim head) s afterHead)
    (hfirst : DerivesPassage setting (.branchBody kind first (.otherwise position)) afterHead
      afterFirst)
    (hword : continuing? kind = some word) (hpeek : afterFirst.peek.kind = .keyword word)
    (hinner : DerivesPassage setting (.control kind inner) afterFirst.advance after) :
    DerivesPassage setting
      (.control kind (.branch kind head.position head first (some ⟨position, [inner]⟩))) s
      (after.keepVariables s.visible.length)
  | controlOtherwise {kind : BranchKind} {s afterHead afterFirst after : State} {head : Pipeline}
    {first second : Body} {position : Position}
    (hhead : DerivesPhrase setting (.pipeline (clauseOf kind) .rightDelim head) s afterHead)
    (hfirst : DerivesPassage setting (.branchBody kind first (.otherwise position)) afterHead
      afterFirst)
    (hother : ∀ word, continuing? kind = some word → afterFirst.peek.kind ≠ .keyword word)
    (hsecond : DerivesPassage setting (.body second .finished) afterFirst after) :
    DerivesPassage setting
      (.control kind (.branch kind head.position head first (some second))) s
      (after.keepVariables s.visible.length)
  | block {s afterName afterHead after : State} {name : String} {position : Position}
    {argument : Pipeline} {root : Body} {trees : TreeSet}
    (hname : NamesTemplate s name position afterName)
    (hargument : DerivesPhrase setting (.pipeline .block .rightDelim argument) afterName afterHead)
    (hroot : DerivesPassage setting (.nestedBody root) afterHead after)
    (hdefine : define setting after ⟨name, setting.template, root⟩ = .ok trees) :
    DerivesPassage setting (.block (.template position name (some argument))) s
      { after with trees := trees }

/-! ### Sources -/

/-- That a definition is read, from its keyword's end on. -/
inductive Defines (setting : Setting) (s : State) : State → Prop
  | definition {afterName afterHead after : State} {name : String} {position : Position}
    {root : Body} {trees : TreeSet} (hname : NamesTemplate s name position afterName)
    (hclose : afterName.ReadsKind .rightDelim afterHead)
    (hroot : DerivesPassage setting (.nestedBody root) afterHead after)
    (hdefine : define setting after ⟨name, setting.template, root⟩ = .ok trees) :
    Defines setting s { after with trees := trees }

/-- That a definition starts here, and the state after its keyword. -/
structure OpensDefinition (s afterWord : State) : Prop where
  delimited : s.peek.kind = .leftDelim
  word : s.advance.ReadsKind (.keyword .defineWord) afterWord

/-- That the statements and definitions of a source are read up to its end. -/
inductive DerivesRoot (setting : Setting) : List Node → State → State → Prop
  | finished {s : State} (hpeek : s.peek.kind = .eof) : DerivesRoot setting [] s s
  | definition {s afterWord afterFirst after : State} {found : List Node}
    (hopens : OpensDefinition s afterWord) (hdefines : Defines setting afterWord afterFirst)
    (hothers : DerivesRoot setting found afterFirst after) : DerivesRoot setting found s after
  | statement {s afterFirst after : State} {first : Node} {others : List Node}
    (hpeek : s.peek.kind ≠ .eof) (hopens : ∀ afterWord, ¬ OpensDefinition s afterWord)
    (hfirst : DerivesPassage setting (.statement (.node first)) s afterFirst)
    (hothers : DerivesRoot setting others afterFirst after) :
    DerivesRoot setting (first :: others) s after

end Stencil.Syntax.Parse
