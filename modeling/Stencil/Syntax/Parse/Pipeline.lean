import Stencil.Syntax.Canonical
import Stencil.Syntax.Parse.State

/-!
# Parsing pipelines

A pipeline is an optional declaration and commands with bars between them, up to the item that
closes it. A declaration is a variable and a sign, or in a loop two variables with a comma
(`declarations`). A command is a sequence of operands with blanks between them (`operands`), an
operand a term with the fields taken of it (`operand`), and a term a literal, a name, the dot or a
pipeline in parentheses (`term`). From the second command on, the first operand has to be something
that can be called.
-/

set_option autoImplicit false
set_option relaxedAutoImplicit false

namespace Stencil.Syntax.Parse

/-! ### Declarations -/

/-- The sign and the variables of a declaration. -/
structure Declarations where
  isAssign : Bool := false
  targets : List Variable := []

/-- Makes a variable visible. -/
def State.declare (s : State) (name : String) : State :=
  { s with visible := name :: s.visible }

/-- Reads a declaration, if one starts here. After a variable and a comma, `more` further variables
may follow. A variable without a sign or a comma after it is left to be an operand. -/
def declarations (setting : Setting) (clause : Clause) (more : Nat) (s : State) :
    Except ParseError (Maybe Declarations s) :=
  let unchanged : Maybe Declarations s := ⟨{}, s.skipSpaces, s.skipSpaces_notLonger⟩
  match s.next with
  | none => .ok unchanged
  | some ⟨item, afterName, h1⟩ =>
    if item.kind = .variable then
      match afterName.next with
      | none => .ok unchanged
      | some ⟨sign, afterSign, h2⟩ =>
        have progress := h1.trans h2
        let declared := afterSign.declare item.value
        let found : Variable := ⟨item.position, [item.value]⟩
        if sign.kind = .assign || sign.kind = .declare then
          .ok ⟨⟨sign.kind = .assign, [found]⟩, declared, progress.notLonger⟩
        else if sign.kind = .char && sign.value = "," then
          match more with
          | 0 => declared.fail setting (.tooManyDeclarations clause)
          | more + 1 =>
            if [ItemKind.variable, .rightDelim, .rightParen].contains
                declared.skipSpaces.peek.kind then do
              let ⟨others, after, h3⟩ ← declarations setting clause more declared
              have all := progress.trans_notLonger h3
              return ⟨{ others with targets := found :: others.targets }, after, all.notLonger⟩
            else declared.skipSpaces.fail setting .loopVariablesOnly
        else .ok unchanged
    else .ok unchanged

/-- How many variables a declaration may name after the first. -/
def furtherVariables : Clause → Nat
  | .loop => 1
  | _ => 0

/-! ### Terms -/

/-- Whether an operand may start with an item of this kind. -/
def startsOperand : ItemKind → Bool
  | .bool | .charConstant | .field | .identifier | .number | .rawString | .string | .variable
  | .leftParen | .keyword .dot | .keyword .nilWord => true
  | _ => false

/-- Parts of a text between dots. -/
def splitDots (text : List Char) : List String :=
  match text with
  | [] => [""]
  | c :: rest =>
    match splitDots rest with
    | [] => [""]
    | first :: others =>
      if c = '.' then "" :: first :: others else (String.singleton c ++ first) :: others

/-- The text of a field without its dot. -/
def fieldName (item : Item) : String := String.ofList (item.value.toList.drop 1)

/-- A number, or the fault of its text. -/
def numberTerm (setting : Setting) (s : State) (item : Item) : Except ParseError Node :=
  match NumberLiteral.ofText item.position item.value with
  | .ok literal => .ok (.number literal)
  | .error .overflow => s.fail setting (.integerOverflow item.value)
  | .error .malformed => s.fail setting (.malformedNumber item.value)

/-- A term that is a single item, if the item is one; `s` is the state after it. -/
def simpleTerm (setting : Setting) (s : State) (item : Item) : Except ParseError (Option Node) :=
  match item.kind with
  | .identifier =>
    if setting.isFunction item.value then .ok (some (.identifier item.position item.value))
    else s.fail setting (.unknownFunction item.value)
  | .keyword .dot => .ok (some (.dot item.position))
  | .keyword .nilWord => .ok (some (.nil item.position))
  | .variable =>
    if s.visible.contains item.value then .ok (some (.var ⟨item.position, [item.value]⟩))
    else s.fail setting (.undefinedVariable item.value)
  | .field => .ok (some (.field item.position (splitDots (item.value.toList.drop 1))))
  | .bool => .ok (some (.bool item.position (item.value = "true")))
  | .charConstant =>
    match Literal.unquoteChar item.value with
    | some c => .ok (some (.number (NumberLiteral.ofCodePoint item.position item.value c)))
    | none => s.fail setting (.badLiteral item.value)
  | .number => do return some (← numberTerm setting s item)
  | .string | .rawString => do
    return some (.string item.position item.value (← literalValue setting s item))
  | _ => .ok none

/-- Reads fields that follow one another. -/
def fieldsFrom (line : Nat) : List Item → List String × Nat × List Item
  | [] => ([], line, [])
  | item :: rest =>
    if item.kind = .field then
      let (names, line, rest) := fieldsFrom item.position.line rest
      (fieldName item :: names, line, rest)
    else ([], line, item :: rest)

/-- Reading fields leaves no more items. -/
theorem fieldsFrom_length_le (line : Nat) (items : List Item) :
    (fieldsFrom line items).2.2.length ≤ items.length := by
  induction items generalizing line with
  | nil => simp [fieldsFrom]
  | cons item rest ih =>
    simp only [fieldsFrom]
    split
    · exact Nat.le_trans (ih _) (Nat.le_succ _)
    · exact Nat.le_refl _

/-- The fields that follow a term, and the state after them. -/
def State.fields (s : State) : Maybe (List String) s :=
  ⟨(fieldsFrom s.line s.rest).1,
    { s with line := (fieldsFrom s.line s.rest).2.1, rest := (fieldsFrom s.line s.rest).2.2 },
    fieldsFrom_length_le s.line s.rest⟩

/-- A term with the fields taken of it, which start at `position`. -/
def withFields (setting : Setting) (s : State) (base : Node) (position : Position)
    (names : List String) : Except ParseError Node :=
  match base with
  | .var reference => .ok (.var { reference with path := reference.path ++ names })
  | .bool .. | .string .. | .number .. | .nil .. | .dot .. =>
    s.fail setting (.fieldOfLiteral base.canonical)
  | _ => .ok (.chain position base names)

/-! ### Pipelines -/

/-- Whether a node cannot be called. -/
def isValueOnly : Node → Bool
  | .bool .. | .dot .. | .nil .. | .number .. | .string .. => true
  | _ => false

/-- The first stage, from the given number on, whose command cannot be called. -/
def valueStage? (stage : Nat) : List Command → Option Nat
  | [] => none
  | command :: rest =>
    if command.operands.head?.any isValueOnly then some stage else valueStage? (stage + 1) rest

/-- The commands of a pipeline, which must be callable from the second on. -/
def checkCommands (setting : Setting) (clause : Clause) (s : State) (commands : List Command) :
    Except ParseError Unit :=
  match commands with
  | [] => s.fail setting (.missingValue clause)
  | _ :: rest =>
    match valueStage? 2 rest with
    | some stage => s.fail setting (.notExecutable stage)
    | none => .ok ()

/-- Operands and the state after them. Where there are operands, items were read. -/
structure Operands (start : State) where
  nodes : List Node
  state : State
  notLonger : state.NotLonger start
  consumed : nodes ≠ [] → state.Shorter start

/-- No operands at all. -/
def Operands.empty {start : State} (state : State) (h : state.NotLonger start) : Operands start :=
  ⟨[], state, h, fun nonempty => absurd rfl nonempty⟩

/-- An operand and those after it. -/
def Operands.cons {start : State} (node : Node) (others : List Node) (state : State)
    (h : state.Shorter start) : Operands start :=
  ⟨node :: others, state, h.notLonger, fun _ => h⟩

/-- Reads the bar that ends a command, or stops before the item that closes its pipeline. -/
def commandEnd (setting : Setting) (s : State) : Except ParseError (Maybe Unit s) :=
  match s.peek.kind with
  | .rightDelim | .rightParen => .ok ⟨(), s, .refl s⟩
  | .pipe => .ok ⟨(), s.advance, s.advance_notLonger⟩
  | _ => s.advance.unexpected setting s.peek .operand

/-- A node with the fields that follow it. -/
def chained (setting : Setting) (node : Node) (s : State) : Except ParseError (Maybe Node s) := do
  if s.peek.kind = .field then
    let ⟨names, after, h⟩ := s.fields
    return ⟨← withFields setting after node s.peek.position names, after, h⟩
  else return ⟨node, s, .refl s⟩

mutual

/-- Reads a pipeline and the item that closes it. -/
def pipeline (setting : Setting) (clause : Clause) (closer : ItemKind) (s : State) :
    Except ParseError (Reading Pipeline s) := do
  let ⟨declared, afterDeclarations, h1⟩ ←
    declarations setting clause (furtherVariables clause) s
  let ⟨found, after, h2⟩ ← commands setting clause closer afterDeclarations
  checkCommands setting clause after found
  return ⟨⟨s.skipSpaces.peek.position, declared.isAssign, declared.targets, found⟩, after,
    h1.trans_shorter h2⟩
termination_by 5 * s.rest.length + 4
decreasing_by
  omega

/-- Reads commands and the item that closes their pipeline. -/
def commands (setting : Setting) (clause : Clause) (closer : ItemKind) (s : State) :
    Except ParseError (Reading (List Command) s) := do
  let ⟨item, afterItem, h1⟩ ← nextItem setting s clause
  if item.kind = closer then return ⟨[], afterItem, h1⟩
  else if startsOperand item.kind then
    let ⟨first, afterFirst, h2⟩ ← command setting s
    let ⟨others, after, h3⟩ ← commands setting clause closer afterFirst
    return ⟨first :: others, after, h2.trans h3⟩
  else afterItem.unexpected setting item clause
termination_by 5 * s.rest.length + 3
decreasing_by
  all_goals omega

/-- Reads a command and the bar that ends it, or stops before the item that closes its pipeline. -/
def command (setting : Setting) (s : State) : Except ParseError (Reading Command s) := do
  let ⟨nodes, after, _, consumed⟩ ← operands setting s
  if nonempty : nodes ≠ [] then
    return ⟨⟨s.skipSpaces.peek.position, nodes⟩, after, consumed nonempty⟩
  else after.fail setting .emptyCommand
termination_by 5 * s.rest.length + 2
decreasing_by
  omega

/-- Reads operands with spaces between them, and a bar if one follows. -/
def operands (setting : Setting) (s : State) : Except ParseError (Operands s) := do
  match ← operand setting s.skipSpaces with
  | none =>
    let ⟨_, after, h⟩ ← commandEnd setting s.skipSpaces
    return .empty after h.ofSkipSpaces
  | some ⟨node, afterNode, h1⟩ =>
    have progress := h1.ofSkipSpaces
    if afterNode.peek.kind = .space then
      let ⟨more, after, h2, _⟩ ← operands setting afterNode.advance
      have rest := h2.ofAdvance
      return .cons node more after (progress.trans_notLonger rest)
    else
      let ⟨_, after, h2⟩ ← commandEnd setting afterNode
      return .cons node [] after (progress.trans_notLonger h2)
termination_by 5 * s.rest.length + 1
decreasing_by
  · have bound := s.skipSpaces_notLonger
    omega
  · have bound := afterNode.advance_notLonger
    omega

/-- Reads a term and the fields taken of it, if a term starts here. -/
def operand (setting : Setting) (s : State) : Except ParseError (Option (Reading Node s)) := do
  match s.next with
  | none => return none
  | some ⟨item, afterItem, h1⟩ =>
    if item.kind = .leftParen then
      checkDepth setting afterItem
      let ⟨inner, afterInner, h2⟩ ← pipeline setting .parenthesized .rightParen afterItem.enter
      have progress := h1.trans h2
      let ⟨node, after, h3⟩ ← chained setting (.pipeline inner) afterInner.leave
      return some ⟨node, after, progress.trans_notLonger h3⟩
    else
      match ← simpleTerm setting afterItem item with
      | none => return none
      | some term =>
        let ⟨node, after, h2⟩ ← chained setting term afterItem
        return some ⟨node, after, h1.trans_notLonger h2⟩
termination_by 5 * s.rest.length
decreasing_by
  simp only [State.enter]
  omega

end

end Stencil.Syntax.Parse
