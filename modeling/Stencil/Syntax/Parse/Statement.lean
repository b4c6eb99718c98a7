import Stencil.Syntax.Parse.Pipeline

/-!
# Parsing statements

A body is a sequence of statements up to the action that ends it, which is an end or an else
(`Ending`). A statement is a text, a comment or an action. Control structures hold bodies of their
own: an `if`, a `range` or a `with` (`control`), whose else part may be a further structure of the
same kind under the same end, and a `block`, which defines a template where it invokes it
(`blockControl`).

The variables that a control structure declares are visible up to its end. A template that is
defined inside another sees none of the other's variables and none of its loops (`nestedBody`).
-/

set_option autoImplicit false
set_option relaxedAutoImplicit false

namespace Stencil.Syntax.Parse

/-- How a body ends. -/
inductive Ending
  | finished
  /-- An else, with the position of what follows the word. -/
  | otherwise (position : Position)

/-- What a statement is: a node, or the end of the body around it. -/
inductive Statement
  | node (node : Node)
  | ending (ending : Ending)

/-- The part of the grammar that the head of a control structure is. -/
def clauseOf : BranchKind → Clause
  | .conditional => .conditional
  | .loop => .loop
  | .context => .context

/-- The keyword after an else that continues a control structure, where there is one. -/
def continuing? : BranchKind → Option Keyword
  | .conditional => some .ifWord
  | .context => some .withWord
  | .loop => none

/-- How many loops a body is inside of for being that of a control structure. -/
def loopsOf : BranchKind → Nat
  | .loop => 1
  | _ => 0

namespace State

/-- The state inside the body of a control structure. -/
def enterBranch (s : State) (kind : BranchKind) : State :=
  { s with loopDepth := s.loopDepth + loopsOf kind }

/-- The state after the body of a control structure. -/
def leaveBranch (s : State) (kind : BranchKind) : State :=
  { s with loopDepth := s.loopDepth - loopsOf kind }

/-- The state with only as many variables as before, the oldest ones. -/
def keepVariables (s : State) (count : Nat) : State :=
  { s with visible := s.visible.drop (s.visible.length - count) }

/-- The state inside an action that starts on a line. -/
def enterAction (s : State) (line : Nat) : State := { s with actionLine := some line }

/-- The state after an action. -/
def leaveAction (s : State) : State := { s with actionLine := none }

/-- The state at the start of a template's own body. -/
def enterTemplate (s : State) : State := { s with visible := ["$"], loopDepth := 0 }

/-- The state after a template's own body, with the scope from before it. -/
def leaveTemplate (s before : State) : State :=
  { s with visible := before.visible, loopDepth := before.loopDepth }

end State

/-! ### Actions without bodies -/

/-- Reads the delimiter that closes an end action. -/
def endControl (setting : Setting) (s : State) : Except ParseError (Reading Statement s) := do
  let ⟨_, after, h⟩ ← expect setting s [.rightDelim] .closing
  return ⟨.ending .finished, after, h⟩

/-- Reads the delimiter that closes an else action. A keyword that may continue a control structure
is left to be read. -/
def elseControl (setting : Setting) (s : State) : Except ParseError (Maybe Statement s) := do
  if [ItemKind.keyword .ifWord, .keyword .withWord].contains s.skipSpaces.peek.kind then
    return ⟨.ending (.otherwise s.skipSpaces.peek.position), s.skipSpaces, s.skipSpaces_notLonger⟩
  else
    let ⟨item, after, h⟩ ← expect setting s [.rightDelim] .otherwise
    return ⟨.ending (.otherwise item.position), after, h.notLonger⟩

/-- Reads the delimiter that closes a break or continue action, which stands in a loop. -/
def loopControl (setting : Setting) (clause : Clause) (node : Node) (s : State) :
    Except ParseError (Reading Node s) := do
  let ⟨item, after, h⟩ ← nextItem setting s clause
  if item.kind ≠ .rightDelim then after.unexpected setting item clause
  else if after.loopDepth = 0 then after.fail setting (.outsideLoop clause)
  else return ⟨node, after, h⟩

/-- Reads the name of a template and its position. -/
def templateName (setting : Setting) (clause : Clause) (s : State) :
    Except ParseError (Reading (String × Position) s) := do
  let ⟨item, after, h⟩ ← expect setting s [.string, .rawString] clause
  let name ← literalValue setting after item
  return ⟨(name, item.position), after, h⟩

/-- Reads the invocation of a template. -/
def templateControl (setting : Setting) (s : State) : Except ParseError (Reading Node s) := do
  let ⟨(name, position), afterName, h1⟩ ← templateName setting .template s
  let ⟨item, afterItem, h2⟩ ← nextItem setting afterName .template
  if item.kind = .rightDelim then
    return ⟨.template position name none, afterItem, h1.trans h2⟩
  else
    let ⟨argument, after, h3⟩ ← pipeline setting .template .rightDelim afterName
    return ⟨.template position name (some argument), after, h1.trans h3⟩

/-- Reads a pipeline that is an action of its own. -/
def pipelineAction (setting : Setting) (s : State) : Except ParseError (Reading Node s) := do
  let ⟨inner, after, h⟩ ← pipeline setting .command .rightDelim s
  return ⟨.action s.skipSpaces.peek.position inner, after, h⟩

/-! ### Bodies -/

mutual

/-- Reads a body and the action that ends it. -/
def body (setting : Setting) (s : State) : Except ParseError (Reading (Body × Ending) s) := do
  checkDepth setting s
  let ⟨(nodes, ending), after, h⟩ ← statements setting s.enter
  return ⟨(⟨s.skipSpaces.peek.position, nodes⟩, ending), after.leave, h⟩
termination_by 6 * s.rest.length + 4
decreasing_by
  simp only [State.enter]
  omega

/-- Reads statements and the action that ends their body. -/
def statements (setting : Setting) (s : State) :
    Except ParseError (Reading (List Node × Ending) s) := do
  if s.skipSpaces.peek.kind = .eof then s.skipSpaces.fail setting .unexpectedEnd
  else
    let ⟨first, afterFirst, h1⟩ ← statement setting s
    match first with
    | .ending ending => return ⟨([], ending), afterFirst, h1⟩
    | .node node =>
      let ⟨(nodes, ending), after, h2⟩ ← statements setting afterFirst
      return ⟨(node :: nodes, ending), after, h1.trans h2⟩
termination_by 6 * s.rest.length + 3
decreasing_by
  all_goals omega

/-- Reads a text, a comment or an action. -/
def statement (setting : Setting) (s : State) : Except ParseError (Reading Statement s) := do
  let ⟨item, afterItem, h1⟩ ← nextItem setting s .input
  match item.kind with
  | .text => return ⟨.node (.text item.position item.value), afterItem, h1⟩
  | .comment => return ⟨.node (.comment item.position item.value), afterItem, h1⟩
  | .leftDelim =>
    let ⟨found, after, h2⟩ ← action setting (afterItem.enterAction item.position.line)
    have progress := h1.trans h2
    return ⟨found, after.leaveAction, progress⟩
  | _ => afterItem.unexpected setting item .input
termination_by 6 * s.rest.length + 2
decreasing_by
  simp only [State.enterAction]
  omega

/-- Reads an action after its left delimiter. -/
def action (setting : Setting) (s : State) : Except ParseError (Reading Statement s) := do
  let ⟨item, afterItem, h1⟩ ← nextItem setting s .command
  match item.kind with
  | .keyword .blockWord =>
    let ⟨node, after, h2⟩ ← blockControl setting afterItem
    return ⟨.node node, after, h1.trans h2⟩
  | .keyword .breakWord =>
    let ⟨node, after, h2⟩ ← loopControl setting .breakLoop (.breakLoop item.position) afterItem
    return ⟨.node node, after, h1.trans h2⟩
  | .keyword .continueWord =>
    let ⟨node, after, h2⟩ ←
      loopControl setting .continueLoop (.continueLoop item.position) afterItem
    return ⟨.node node, after, h1.trans h2⟩
  | .keyword .elseWord =>
    let ⟨found, after, h2⟩ ← elseControl setting afterItem
    return ⟨found, after, h1.trans_notLonger h2⟩
  | .keyword .endWord =>
    let ⟨found, after, h2⟩ ← endControl setting afterItem
    return ⟨found, after, h1.trans h2⟩
  | .keyword .ifWord =>
    let ⟨node, after, h2⟩ ← control setting .conditional afterItem
    return ⟨.node node, after, h1.trans h2⟩
  | .keyword .rangeWord =>
    let ⟨node, after, h2⟩ ← control setting .loop afterItem
    return ⟨.node node, after, h1.trans h2⟩
  | .keyword .withWord =>
    let ⟨node, after, h2⟩ ← control setting .context afterItem
    return ⟨.node node, after, h1.trans h2⟩
  | .keyword .templateWord =>
    let ⟨node, after, h2⟩ ← templateControl setting afterItem
    return ⟨.node node, after, h1.trans h2⟩
  | _ =>
    let ⟨node, after, h2⟩ ← pipelineAction setting s
    return ⟨.node node, after, h2⟩
termination_by 6 * s.rest.length + 1
decreasing_by
  all_goals omega

/-- Reads the body of a control structure, which is one loop deeper in a loop. -/
def branchBody (setting : Setting) (kind : BranchKind) (s : State) :
    Except ParseError (Reading (Body × Ending) s) := do
  let ⟨found, after, h⟩ ← body setting (s.enterBranch kind)
  return ⟨found, after.leaveBranch kind, h⟩
termination_by 6 * s.rest.length + 5
decreasing_by
  simp only [State.enterBranch]
  omega

/-- Reads the body of a template that is defined where the state stands, with its end. -/
def nestedBody (setting : Setting) (clause : Clause) (s : State) :
    Except ParseError (Reading Body s) := do
  let ⟨(root, ending), after, h⟩ ← body setting s.enterTemplate
  match ending with
  | .otherwise _ => (after.leaveTemplate s).fail setting (.elseIn clause)
  | .finished => return ⟨root, after.leaveTemplate s, h⟩
termination_by 6 * s.rest.length + 5
decreasing_by
  simp only [State.enterTemplate]
  omega

/-- Reads a control structure after its keyword, with its body, its else part and its end. -/
def control (setting : Setting) (kind : BranchKind) (s : State) :
    Except ParseError (Reading Node s) := do
  let ⟨head, afterHead, h1⟩ ← pipeline setting (clauseOf kind) .rightDelim s
  let ⟨(first, ending), afterFirst, h2⟩ ← branchBody setting kind afterHead
  have progress := h1.trans h2
  match ending with
  | .finished =>
    return ⟨.branch kind head.position head first none,
      afterFirst.keepVariables s.visible.length, progress⟩
  | .otherwise position =>
    if (continuing? kind).any (fun word => afterFirst.peek.kind = .keyword word) then
      let ⟨inner, after, h3⟩ ← control setting kind afterFirst.advance
      have further := h3.ofAdvance
      have all := progress.trans further
      return ⟨.branch kind head.position head first (some ⟨position, [inner]⟩),
        after.keepVariables s.visible.length, all⟩
    else
      let ⟨(second, last), after, h3⟩ ← body setting afterFirst
      have all := progress.trans h3
      match last with
      | .otherwise _ => after.fail setting .repeatedElse
      | .finished =>
        return ⟨.branch kind head.position head first (some second),
          after.keepVariables s.visible.length, all⟩
termination_by 6 * s.rest.length
decreasing_by
  · omega
  · have bound := afterFirst.advance_notLonger
    omega
  · omega

/-- Reads a block after its keyword: a template's name, its argument and its body. -/
def blockControl (setting : Setting) (s : State) : Except ParseError (Reading Node s) := do
  let ⟨(name, position), afterName, h1⟩ ← templateName setting .block s
  let ⟨argument, afterHead, h2⟩ ← pipeline setting .block .rightDelim afterName
  have head := h1.trans h2
  let ⟨root, after, h3⟩ ← nestedBody setting .block afterHead
  have all := head.trans h3
  let trees ← define setting after ⟨name, setting.template, root⟩
  return ⟨.template position name (some argument), { after with trees := trees }, all⟩
termination_by 6 * s.rest.length
decreasing_by
  omega

end

end Stencil.Syntax.Parse
