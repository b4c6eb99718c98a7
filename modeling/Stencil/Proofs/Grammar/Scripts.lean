import Stencil.Proofs.Grammar.Calls
import Stencil.Proofs.Grammar.Starts

/-!
# The scripts of the parser

The steps of each function of the parser, in the order of the functions. A script calls what its
function calls, a call of the function itself included, and does no more between two calls than
look at the state and at what was read. With its calls made it gives what its function gives, one
lemma for each function (`Script.eval_pipeline` and its like), and `Call.run_eq` for all of them.
-/

set_option autoImplicit false
set_option relaxedAutoImplicit false

namespace Stencil.Syntax.Parse

open Steps (call)

/-- An unexpected item is a fault whatever was to be read. -/
theorem map_unexpected {α β : Type} (f : α → β) (setting : Setting) (s : State) (item : Item)
    (clause : Clause) :
    f <$> (s.unexpected setting item clause : Except ParseError α) =
      s.unexpected setting item clause := by
  unfold State.unexpected
  split <;> rfl

namespace Script

/-! ### Items -/

def item (s : State) : Steps (Option Item × State) := do
  if s.peek.kind = .space then call .item s.advance
  else
    match s.rest with
    | [] => return (none, s)
    | next :: _ => return (some next, s.advance)

def fields (s : State) : Steps (List String × State) := do
  if s.peek.kind = .field then
    let (names, after) ← call .fields s.advance
    return (fieldName s.peek :: names, after)
  else return ([], s)

/-- The next item after spaces, which must not be missing. -/
def nextItem (setting : Setting) (s : State) (clause : Clause) : Steps (Item × State) := do
  let (found, after) ← call .item s
  match found with
  | some item => return (item, after)
  | none => s.unexpected setting State.exhausted clause

/-- The next item after spaces, which must be of one of the given kinds. -/
def expect (setting : Setting) (s : State) (kinds : List ItemKind) (clause : Clause) :
    Steps (Item × State) := do
  let (item, after) ← nextItem setting s clause
  if kinds.contains item.kind then return (item, after)
  else after.unexpected setting item clause

/-- The name of a template and its position. -/
def templateName (setting : Setting) (clause : Clause) (s : State) :
    Steps ((String × Position) × State) := do
  let (item, after) ← expect setting s [.string, .rawString] clause
  let name ← literalValue setting after item
  return ((name, item.position), after)

section Items

variable (setting : Setting) (s : State)

theorem eval_item : (item s).eval setting = .ok s.nextFound := by
  have hfound (t : State) : t.nextFound = if t.skipSpaces.rest = [] then (none, t.skipSpaces)
      else (some t.skipSpaces.peek, t.skipSpaces.advance) := by
    unfold State.nextFound State.next
    by_cases hrest : t.skipSpaces.rest = []
    · simp [hrest]
    · simp [hrest]
  rw [item, Steps.eval_ite, Steps.eval_call, Call.run, hfound s, hfound s.advance]
  split
  next hspace => rw [State.skipSpaces_advance hspace]
  next hspace =>
    rw [State.skipSpaces_of_peek hspace]
    cases hrest : s.rest with
    | nil => rfl
    | cons next rest =>
      rw [State.peek, hrest]
      rfl

theorem eval_fields : (fields s).eval setting = .ok s.fields.found := by
  obtain ⟨line, items, visible, trees, actionLine, loopDepth, depth⟩ := s
  rw [fields, Steps.eval_ite, Steps.eval_bind, Steps.eval_call, Call.run]
  cases items with
  | nil => rfl
  | cons next rest =>
    by_cases hfield : next.kind = .field
    · refine (if_pos hfield).trans ?_
      simp only [Maybe.found, State.fields, fieldsFrom, if_pos hfield]
      rfl
    · refine (if_neg hfield).trans ?_
      simp only [Maybe.found, State.fields, fieldsFrom, if_neg hfield]
      rfl

theorem eval_nextItem (clause : Clause) :
    (nextItem setting s clause).eval setting =
      Reading.found <$> Parse.nextItem setting s clause := by
  rw [nextItem, Parse.nextItem, Steps.eval_bind, Steps.eval_call, Call.run, State.nextFound]
  cases s.next <;> rfl

theorem eval_expect (kinds : List ItemKind) (clause : Clause) :
    (expect setting s kinds clause).eval setting =
      Reading.found <$> Parse.expect setting s kinds clause := by
  rw [expect, Parse.expect, Steps.eval_bind, eval_nextItem, map_bind, bind_map_left]
  refine bind_congr fun reading ↦ ?_
  obtain ⟨item, after, h⟩ := reading
  dsimp only [Reading.found]
  rw [Steps.eval_ite, apply_ite (Functor.map _), map_unexpected]
  rfl

theorem eval_templateName (clause : Clause) :
    (templateName setting clause s).eval setting =
      Reading.found <$> Parse.templateName setting clause s := by
  rw [templateName, Parse.templateName, Steps.eval_bind, eval_expect, map_bind, bind_map_left]
  refine bind_congr fun reading ↦ ?_
  obtain ⟨item, after, h⟩ := reading
  dsimp only [Reading.found]
  rw [Steps.eval_bind, map_bind]
  rfl

end Items

/-! ### Pipelines -/

def declarations (setting : Setting) (clause : Clause) (more : Nat) (s : State) :
    Steps (Declarations × State) := do
  let (name, afterName) ← call .item s
  match name with
  | none => return ({}, s.skipSpaces)
  | some name =>
    if name.kind = .variable then
      let (sign, afterSign) ← call .item afterName
      match sign with
      | none => return ({}, s.skipSpaces)
      | some sign =>
        let declared := afterSign.declare name.value
        if isDeclaring sign.kind then
          return (⟨sign.kind = .assign, [targetOf name]⟩, declared)
        else if isSeparator sign then
          match more with
          | 0 => declared.fail setting (.tooManyDeclarations clause)
          | more + 1 =>
            if mayFollowSeparator declared.skipSpaces.peek.kind then
              let (others, after) ← call (.declarations clause more) declared
              return ({ others with targets := targetOf name :: others.targets }, after)
            else declared.skipSpaces.fail setting .loopVariablesOnly
        else return ({}, s.skipSpaces)
    else return ({}, s.skipSpaces)

def pipeline (setting : Setting) (clause : Clause) (closer : ItemKind) (s : State) :
    Steps (Pipeline × State) := do
  let (declared, afterDeclarations) ← call (.declarations clause (furtherVariables clause)) s
  let (found, after) ← call (.commands clause closer) afterDeclarations
  checkCommands setting clause after found
  return (⟨s.skipSpaces.peek.position, declared.isAssign, declared.targets, found⟩, after)

def commands (setting : Setting) (clause : Clause) (closer : ItemKind) (s : State) :
    Steps (List Command × State) := do
  let (item, afterItem) ← nextItem setting s clause
  if item.kind = closer then return ([], afterItem)
  else if startsOperand item.kind then
    let (first, afterFirst) ← call .command s
    let (others, after) ← call (.commands clause closer) afterFirst
    return (first :: others, after)
  else afterItem.unexpected setting item clause

def command (setting : Setting) (s : State) : Steps (Command × State) := do
  let (nodes, after) ← call .operands s
  if nodes ≠ [] then return (⟨s.skipSpaces.peek.position, nodes⟩, after)
  else after.fail setting .emptyCommand

def operands (setting : Setting) (s : State) : Steps (List Node × State) := do
  let (found, afterNode) ← call .operand s.skipSpaces
  match found with
  | none =>
    let ending ← commandEnd setting s.skipSpaces
    return ([], ending.state)
  | some node =>
    if afterNode.peek.kind = .space then
      let (others, after) ← call .operands afterNode.advance
      return (node :: others, after)
    else
      let ending ← commandEnd setting afterNode
      return ([node], ending.state)

/-- A term with the fields that follow it. -/
def chained (setting : Setting) (term : Node) (s : State) : Steps (Node × State) := do
  if s.peek.kind = .field then
    let (names, after) ← call .fields s
    let whole ← withFields setting after term s.peek.position names
    return (whole, after)
  else return (term, s)

def operand (setting : Setting) (s : State) : Steps (Option Node × State) := do
  let (found, afterItem) ← call .item s
  match found with
  | none => return (none, s)
  | some item =>
    if item.kind = .leftParen then
      checkDepth setting afterItem
      let (inner, afterInner) ← call (.pipeline .parenthesized .rightParen) afterItem.enter
      let (_, afterParen) ← call .leave afterInner
      let (node, after) ← chained setting (.pipeline inner) afterParen
      return (some node, after)
    else
      let found ← simpleTerm setting afterItem item
      match found with
      | none => return (none, s)
      | some term =>
        let (node, after) ← chained setting term afterItem
        return (some node, after)

section Pipelines

variable (setting : Setting) (s : State)

theorem eval_chained (term : Node) :
    (chained setting term s).eval setting = Maybe.found <$> Parse.chained setting term s := by
  rw [chained, Parse.chained, Steps.eval_ite, apply_ite (Functor.map _), Steps.eval_bind,
    Steps.eval_call, Call.run]
  refine ite_congr rfl (fun _ ↦ ?_) fun _ ↦ rfl
  change Steps.eval setting (liftM _ >>= _) = Maybe.found <$> (withFields _ _ _ _ _ >>= _)
  rw [Steps.eval_bind, map_bind]
  rfl

theorem eval_declarations (clause : Clause) (more : Nat) :
    (declarations setting clause more s).eval setting =
      Maybe.found <$> Parse.declarations setting clause more s := by
  rw [declarations, Parse.declarations, Steps.eval_bind, Steps.eval_call, Call.run,
    State.nextFound]
  cases s.next with
  | none => rfl
  | some reading =>
    obtain ⟨name, afterName, h1⟩ := reading
    change (ite _ _ _ : Steps _).eval setting = Maybe.found <$> ite _ _ _
    rw [Steps.eval_ite, apply_ite (Functor.map _), Steps.eval_bind, Steps.eval_call, Call.run,
      State.nextFound]
    refine ite_congr rfl (fun _ ↦ ?_) fun _ ↦ rfl
    cases afterName.next with
    | none => rfl
    | some reading =>
      obtain ⟨sign, afterSign, h2⟩ := reading
      change (ite _ _ _ : Steps _).eval setting = Maybe.found <$> ite _ _ _
      rw [Steps.eval_ite, apply_ite (Functor.map _), Steps.eval_ite, apply_ite (Functor.map _)]
      refine ite_congr rfl (fun _ ↦ rfl) fun _ ↦ ite_congr rfl (fun _ ↦ ?_) fun _ ↦ rfl
      cases more with
      | zero => rfl
      | succ more =>
        dsimp only
        rw [Steps.eval_ite, apply_ite (Functor.map _), Steps.eval_bind, Steps.eval_call, Call.run,
          bind_map_left, map_bind]
        rfl

theorem eval_pipeline (clause : Clause) (closer : ItemKind) :
    (pipeline setting clause closer s).eval setting =
      Reading.found <$> Parse.pipeline setting clause closer s := by
  rw [pipeline, Parse.pipeline]
  simp only [Steps.eval_bind, Steps.eval_call, Call.run, map_bind, bind_map_left]
  rfl

theorem eval_commands (clause : Clause) (closer : ItemKind) :
    (commands setting clause closer s).eval setting =
      Reading.found <$> Parse.commands setting clause closer s := by
  rw [commands, Parse.commands, Steps.eval_bind, eval_nextItem, map_bind, bind_map_left]
  refine bind_congr fun reading ↦ ?_
  obtain ⟨item, afterItem, h⟩ := reading
  dsimp only [Reading.found]
  simp only [Steps.eval_ite, apply_ite (Functor.map _), Steps.eval_bind, Steps.eval_call, Call.run,
    map_bind, bind_map_left, map_unexpected]
  rfl

theorem eval_command :
    (command setting s).eval setting = Reading.found <$> Parse.command setting s := by
  rw [command, Parse.command, Steps.eval_bind, Steps.eval_call, Call.run, map_bind, bind_map_left]
  refine bind_congr fun reading ↦ ?_
  obtain ⟨nodes, after, _, consumed⟩ := reading
  dsimp only [Operands.found]
  by_cases h : nodes ≠ []
  · rw [if_pos h, dif_pos h]
    rfl
  · rw [if_neg h, dif_neg h]
    rfl

theorem eval_operands :
    (operands setting s).eval setting = Operands.found <$> Parse.operands setting s := by
  rw [operands, Parse.operands, Steps.eval_bind, Steps.eval_call, Call.run, map_bind,
    bind_map_left]
  refine bind_congr fun found ↦ ?_
  cases found with
  | none =>
    dsimp only [foundOrNone]
    rw [Steps.eval_bind, map_bind]
    rfl
  | some reading =>
    obtain ⟨node, afterNode, h⟩ := reading
    dsimp only [foundOrNone]
    simp only [Steps.eval_ite, apply_ite (Functor.map _), Steps.eval_bind, Steps.eval_call,
      Call.run, map_bind, bind_map_left]
    rfl

theorem eval_operand :
    (operand setting s).eval setting = foundOrNone <$> Parse.operand setting s := by
  rw [operand, Parse.operand, Steps.eval_bind, Steps.eval_call, Call.run, State.nextFound]
  cases s.next with
  | none => rfl
  | some reading =>
    obtain ⟨item, afterItem, h⟩ := reading
    change (ite _ _ _ : Steps _).eval setting = foundOrNone <$> ite _ _ _
    rw [Steps.eval_ite, apply_ite (Functor.map _)]
    refine ite_congr rfl (fun _ ↦ ?_) fun _ ↦ ?_
    · simp only [Steps.eval_bind, Steps.eval_call, eval_chained, Call.run, map_bind, bind_map_left]
      rfl
    · rw [Steps.eval_bind, map_bind]
      refine bind_congr fun found ↦ ?_
      cases found with
      | none => rfl
      | some term =>
        dsimp only
        rw [Steps.eval_bind, eval_chained, map_bind, bind_map_left]
        rfl

end Pipelines

/-! ### Statements -/

/-- The delimiter that closes an end action. -/
def endControl (setting : Setting) (s : State) : Steps (Statement × State) := do
  let (_, after) ← expect setting s [.rightDelim] .closing
  return (.ending .finished, after)

/-- The delimiter that closes an else action, unless a control structure is continued. -/
def elseControl (setting : Setting) (s : State) : Steps (Statement × State) := do
  if [ItemKind.keyword .ifWord, .keyword .withWord].contains s.skipSpaces.peek.kind then
    return (.ending (.otherwise s.skipSpaces.peek.position), s.skipSpaces)
  else
    let (item, after) ← expect setting s [.rightDelim] .otherwise
    return (.ending (.otherwise item.position), after)

/-- The delimiter that closes a break or continue action. -/
def loopControl (setting : Setting) (clause : Clause) (node : Node) (s : State) :
    Steps (Node × State) := do
  let (item, after) ← nextItem setting s clause
  if item.kind ≠ .rightDelim then after.unexpected setting item clause
  else if after.loopDepth = 0 then after.fail setting (.outsideLoop clause)
  else return (node, after)

/-- The invocation of a template. -/
def templateControl (setting : Setting) (s : State) : Steps (Node × State) := do
  let ((name, position), afterName) ← templateName setting .template s
  let (item, afterItem) ← nextItem setting afterName .template
  if item.kind = .rightDelim then return (.template position name none, afterItem)
  else
    let (argument, after) ← call (.pipeline .template .rightDelim) afterName
    return (.template position name (some argument), after)

/-- A pipeline that is an action of its own. -/
def pipelineAction (s : State) : Steps (Node × State) := do
  let (inner, after) ← call (.pipeline .command .rightDelim) s
  return (.action s.skipSpaces.peek.position inner, after)

def body (setting : Setting) (s : State) : Steps ((Body × Ending) × State) := do
  checkDepth setting s
  let ((nodes, ending), inside) ← call .statements s.enter
  let (_, after) ← call .leave inside
  return ((⟨s.skipSpaces.peek.position, nodes⟩, ending), after)

def statements (setting : Setting) (s : State) : Steps ((List Node × Ending) × State) := do
  if s.skipSpaces.peek.kind = .eof then s.skipSpaces.fail setting .unexpectedEnd
  else
    let (first, afterFirst) ← call .statement s
    match first with
    | .ending ending => return (([], ending), afterFirst)
    | .node node =>
      let ((nodes, ending), after) ← call .statements afterFirst
      return ((node :: nodes, ending), after)

def statement (setting : Setting) (s : State) : Steps (Statement × State) := do
  let (item, afterItem) ← nextItem setting s .input
  match item.kind with
  | .text => return (.node (.text item.position item.value), afterItem)
  | .comment => return (.node (.comment item.position item.value), afterItem)
  | .leftDelim =>
    let (found, after) ← call .action (afterItem.enterAction item.position.line)
    return (found, after.leaveAction)
  | _ => afterItem.unexpected setting item .input

/-- The node that some steps read, as a statement. -/
def asStatement (steps : Steps (Node × State)) : Steps (Statement × State) := do
  let (node, after) ← steps
  return (.node node, after)

def action (setting : Setting) (s : State) : Steps (Statement × State) := do
  let (item, afterItem) ← nextItem setting s .command
  match item.kind with
  | .keyword .blockWord => asStatement (call .blockControl afterItem)
  | .keyword .breakWord =>
    asStatement (loopControl setting .breakLoop (.breakLoop item.position) afterItem)
  | .keyword .continueWord =>
    asStatement (loopControl setting .continueLoop (.continueLoop item.position) afterItem)
  | .keyword .elseWord => elseControl setting afterItem
  | .keyword .endWord => endControl setting afterItem
  | .keyword .ifWord => asStatement (call (.control .conditional) afterItem)
  | .keyword .rangeWord => asStatement (call (.control .loop) afterItem)
  | .keyword .withWord => asStatement (call (.control .context) afterItem)
  | .keyword .templateWord => asStatement (templateControl setting afterItem)
  | _ => asStatement (pipelineAction s)

def branchBody (kind : BranchKind) (s : State) : Steps ((Body × Ending) × State) := do
  let (found, inside) ← call .body (s.enterBranch kind)
  let (_, after) ← call (.leaveBranch kind) inside
  return (found, after)

def nestedBody (setting : Setting) (clause : Clause) (s : State) : Steps (Body × State) := do
  let ((inner, ending), after) ← call .body s.enterTemplate
  match ending with
  | .otherwise _ => (after.leaveTemplate s).fail setting (.elseIn clause)
  | .finished => return (inner, after.leaveTemplate s)

def control (setting : Setting) (kind : BranchKind) (s : State) : Steps (Node × State) := do
  let (head, afterHead) ← call (.pipeline (clauseOf kind) .rightDelim) s
  let ((first, ending), afterFirst) ← call (.branchBody kind) afterHead
  match ending with
  | .finished =>
    return (.branch kind head.position head first none,
      afterFirst.keepVariables s.visible.length)
  | .otherwise position =>
    if (continuing? kind).any (fun word ↦ afterFirst.peek.kind = .keyword word) then
      let (inner, after) ← call (.control kind) afterFirst.advance
      return (.branch kind head.position head first (some ⟨position, [inner]⟩),
        after.keepVariables s.visible.length)
    else
      let ((second, last), after) ← call .body afterFirst
      match last with
      | .otherwise _ => after.fail setting .repeatedElse
      | .finished =>
        return (.branch kind head.position head first (some second),
          after.keepVariables s.visible.length)

def blockControl (setting : Setting) (s : State) : Steps (Node × State) := do
  let ((name, position), afterName) ← templateName setting .block s
  let (argument, afterHead) ← call (.pipeline .block .rightDelim) afterName
  let (inner, after) ← call (.nestedBody .block) afterHead
  let trees ← define setting after ⟨name, setting.template, inner⟩
  return (.template position name (some argument), { after with trees := trees })

/-! ### Sources -/

def definition (setting : Setting) (s : State) : Steps (Unit × State) := do
  let ((name, _), afterName) ← templateName setting .definition s
  let (_, afterHead) ← expect setting afterName [.rightDelim] .definition
  let (inner, after) ← call (.nestedBody .definition) afterHead
  let trees ← define setting after ⟨name, setting.template, inner⟩
  return ((), { after with trees := trees })

/-- The opening of a definition, if one starts here. -/
def definitionStart? (s : State) : Steps (Option State) := do
  if s.peek.kind = .leftDelim then
    let (word, after) ← call .item s.advance
    match word with
    | none => return none
    | some word => return if word.kind = .keyword .defineWord then some after else none
  else return none

def root (setting : Setting) (s : State) : Steps (List Node × State) := do
  if s.peek.kind = .eof then return ([], s)
  else
    match ← definitionStart? s with
    | some afterWord =>
      let (_, after) ← call .definition afterWord
      call .root after
    | none =>
      let (first, afterFirst) ← call .statement s
      match first with
      | .ending .finished => afterFirst.fail setting .strayEnd
      | .ending (.otherwise _) => afterFirst.fail setting .strayElse
      | .node node =>
        let (nodes, after) ← call .root afterFirst
        return (node :: nodes, after)

def source (setting : Setting) (s : State) : Steps (TreeSet × State) := do
  let (nodes, after) ← call .root s
  let trees ← define setting after ⟨setting.template, setting.template, ⟨s.peek.position, nodes⟩⟩
  return (trees, after)

section Statements

variable (setting : Setting) (s : State)

theorem eval_endControl :
    (endControl setting s).eval setting = Reading.found <$> Parse.endControl setting s := by
  rw [endControl, Parse.endControl, Steps.eval_bind, eval_expect, map_bind, bind_map_left]
  rfl

theorem eval_elseControl :
    (elseControl setting s).eval setting = Maybe.found <$> Parse.elseControl setting s := by
  rw [elseControl, Parse.elseControl, Steps.eval_ite, apply_ite (Functor.map _), Steps.eval_bind,
    eval_expect, map_bind, bind_map_left]
  rfl

theorem eval_loopControl (clause : Clause) (node : Node) :
    (loopControl setting clause node s).eval setting =
      Reading.found <$> Parse.loopControl setting clause node s := by
  rw [loopControl, Parse.loopControl, Steps.eval_bind, eval_nextItem, map_bind, bind_map_left]
  refine bind_congr fun reading ↦ ?_
  obtain ⟨item, after, h⟩ := reading
  dsimp only [Reading.found]
  simp only [Steps.eval_ite, apply_ite (Functor.map _), map_unexpected]
  rfl

theorem eval_templateControl :
    (templateControl setting s).eval setting =
      Reading.found <$> Parse.templateControl setting s := by
  rw [templateControl, Parse.templateControl, Steps.eval_bind, eval_templateName, map_bind,
    bind_map_left]
  refine bind_congr fun reading ↦ ?_
  obtain ⟨⟨name, position⟩, afterName, h1⟩ := reading
  dsimp only [Reading.found]
  rw [Steps.eval_bind, eval_nextItem, map_bind, bind_map_left]
  refine bind_congr fun reading ↦ ?_
  obtain ⟨item, afterItem, h2⟩ := reading
  dsimp only [Reading.found]
  simp only [Steps.eval_ite, apply_ite (Functor.map _), Steps.eval_bind, Steps.eval_call, Call.run,
    map_bind, bind_map_left]
  rfl

theorem eval_pipelineAction :
    (pipelineAction s).eval setting = Reading.found <$> Parse.pipelineAction setting s := by
  rw [pipelineAction, Parse.pipelineAction, Steps.eval_bind, Steps.eval_call, Call.run, map_bind,
    bind_map_left]
  rfl

theorem eval_body :
    (body setting s).eval setting = Reading.found <$> Parse.body setting s := by
  rw [body, Parse.body]
  simp only [Steps.eval_bind, Steps.eval_liftM, Steps.eval_call, Call.run, map_bind, bind_map_left]
  rfl

theorem eval_statements :
    (statements setting s).eval setting = Reading.found <$> Parse.statements setting s := by
  rw [statements, Parse.statements, Steps.eval_ite, apply_ite (Functor.map _), Steps.eval_bind,
    Steps.eval_call, Call.run, map_bind, bind_map_left]
  refine ite_congr rfl (fun _ ↦ rfl) fun _ ↦ bind_congr fun reading ↦ ?_
  obtain ⟨first, afterFirst, h⟩ := reading
  cases first with
  | ending ending => rfl
  | node node =>
    dsimp only [Reading.found]
    rw [Steps.eval_bind, Steps.eval_call, Call.run, map_bind, bind_map_left]
    rfl

theorem eval_statement :
    (statement setting s).eval setting = Reading.found <$> Parse.statement setting s := by
  rw [statement, Parse.statement, Steps.eval_bind, eval_nextItem, map_bind, bind_map_left]
  refine bind_congr fun reading ↦ ?_
  obtain ⟨item, afterItem, h⟩ := reading
  dsimp only [Reading.found]
  cases item.kind with
  | text => rfl
  | comment => rfl
  | leftDelim =>
    dsimp only
    rw [Steps.eval_bind, Steps.eval_call, Call.run, map_bind, bind_map_left]
    rfl
  | _ => exact (map_unexpected ..).symm

theorem eval_asStatement (steps : Steps (Node × State)) :
    (asStatement steps).eval setting =
      (fun found ↦ (Statement.node found.1, found.2)) <$> steps.eval setting := by
  rw [asStatement, Steps.eval_bind, map_eq_pure_bind]
  rfl

theorem eval_action :
    (action setting s).eval setting = Reading.found <$> Parse.action setting s := by
  rw [action, Parse.action, Steps.eval_bind, eval_nextItem, map_bind, bind_map_left]
  refine bind_congr fun reading ↦ ?_
  obtain ⟨item, afterItem, h⟩ := reading
  dsimp only [Reading.found]
  cases item.kind with
  | keyword word =>
    cases word with
    | elseWord =>
      dsimp only
      rw [eval_elseControl, map_bind, map_eq_pure_bind]
      rfl
    | endWord =>
      dsimp only
      rw [eval_endControl, map_bind, map_eq_pure_bind]
      rfl
    | blockWord | ifWord | rangeWord | withWord =>
      dsimp only
      rw [eval_asStatement, Steps.eval_call, Call.run, map_bind, Functor.map_map, map_eq_pure_bind]
      rfl
    | breakWord | continueWord =>
      dsimp only
      rw [eval_asStatement, eval_loopControl, map_bind, Functor.map_map, map_eq_pure_bind]
      rfl
    | templateWord =>
      dsimp only
      rw [eval_asStatement, eval_templateControl, map_bind, Functor.map_map, map_eq_pure_bind]
      rfl
    | _ =>
      dsimp only
      rw [eval_asStatement, eval_pipelineAction, map_bind, Functor.map_map, map_eq_pure_bind]
      rfl
  | _ =>
    dsimp only
    rw [eval_asStatement, eval_pipelineAction, map_bind, Functor.map_map, map_eq_pure_bind]
    rfl

theorem eval_branchBody (kind : BranchKind) :
    (branchBody kind s).eval setting = Reading.found <$> Parse.branchBody setting kind s := by
  rw [branchBody, Parse.branchBody]
  simp only [Steps.eval_bind, Steps.eval_call, Call.run, map_bind, bind_map_left]
  rfl

theorem eval_nestedBody (clause : Clause) :
    (nestedBody setting clause s).eval setting =
      Reading.found <$> Parse.nestedBody setting clause s := by
  rw [nestedBody, Parse.nestedBody, Steps.eval_bind, Steps.eval_call, Call.run, map_bind,
    bind_map_left]
  refine bind_congr fun reading ↦ ?_
  obtain ⟨⟨inner, ending⟩, after, h⟩ := reading
  cases ending <;> rfl

theorem eval_control (kind : BranchKind) :
    (control setting kind s).eval setting = Reading.found <$> Parse.control setting kind s := by
  rw [control, Parse.control, Steps.eval_bind, Steps.eval_call, Call.run, map_bind, bind_map_left]
  refine bind_congr fun reading ↦ ?_
  obtain ⟨head, afterHead, h1⟩ := reading
  dsimp only [Reading.found]
  rw [Steps.eval_bind, Steps.eval_call, Call.run, map_bind, bind_map_left]
  refine bind_congr fun reading ↦ ?_
  obtain ⟨⟨first, ending⟩, afterFirst, h2⟩ := reading
  cases ending with
  | finished => rfl
  | otherwise position =>
    dsimp only [Reading.found]
    rw [Steps.eval_ite, apply_ite (Functor.map _)]
    refine ite_congr rfl (fun _ ↦ ?_) fun _ ↦ ?_
    · rw [Steps.eval_bind, Steps.eval_call, Call.run, map_bind, bind_map_left]
      rfl
    · rw [Steps.eval_bind, Steps.eval_call, Call.run, map_bind, bind_map_left]
      refine bind_congr fun reading ↦ ?_
      obtain ⟨⟨second, last⟩, after, h3⟩ := reading
      cases last <;> rfl

theorem eval_blockControl :
    (blockControl setting s).eval setting = Reading.found <$> Parse.blockControl setting s := by
  rw [blockControl, Parse.blockControl]
  simp only [Steps.eval_bind, Steps.eval_call, Call.run, eval_templateName, map_bind,
    bind_map_left]
  rfl

end Statements

section Sources

variable (setting : Setting) (s : State)

theorem eval_definition :
    (definition setting s).eval setting = Reading.found <$> Parse.definition setting s := by
  rw [definition, Parse.definition]
  simp only [Steps.eval_bind, Steps.eval_call, Call.run, eval_templateName, eval_expect, map_bind,
    bind_map_left]
  rfl

theorem eval_definitionStart? :
    (definitionStart? s).eval setting = .ok ((Parse.definitionStart? s).map Reading.state) := by
  rw [definitionStart?, Parse.definitionStart?, Steps.eval_ite, apply_ite (Option.map _),
    apply_ite Except.ok, Steps.eval_bind, Steps.eval_call, Call.run, State.nextFound]
  refine ite_congr rfl (fun _ ↦ ?_) fun _ ↦ rfl
  cases s.advance.next with
  | none => rfl
  | some reading =>
    obtain ⟨word, after, h⟩ := reading
    dsimp only
    rw [apply_ite (Option.map _)]
    rfl

theorem eval_root : (root setting s).eval setting = Parse.root setting s := by
  rw [root, Parse.root, Steps.eval_ite, Steps.eval_bind, eval_definitionStart?]
  refine ite_congr rfl (fun _ ↦ rfl) fun _ ↦ ?_
  cases Parse.definitionStart? s with
  | some reading =>
    change Steps.eval setting (call .definition reading.state >>= _) = _
    rw [Steps.eval_bind, Steps.eval_call, Call.run, bind_map_left]
    refine bind_congr fun found ↦ ?_
    dsimp only
    rw [Steps.eval_call, Call.run]
  | none =>
    change Steps.eval setting (call .statement s >>= _) = _
    rw [Steps.eval_bind, Steps.eval_call, Call.run, bind_map_left]
    refine bind_congr fun reading ↦ ?_
    obtain ⟨first, afterFirst, h⟩ := reading
    cases first with
    | ending ending => cases ending <;> rfl
    | node node =>
      dsimp only [Reading.found]
      rw [Steps.eval_bind, Steps.eval_call, Call.run]
      rfl

theorem eval_source : (source setting s).eval setting = Call.source.run setting s := by
  rw [source, Call.run, Steps.eval_bind, Steps.eval_call, Call.run]
  refine bind_congr fun reading ↦ ?_
  obtain ⟨nodes, after⟩ := reading
  dsimp only
  rw [Steps.eval_bind]
  rfl

end Sources

end Script

/-! ### All scripts -/

/-- The steps of a function in a state. -/
def Call.script {α : Type} (setting : Setting) (c : Call α) (s : State) : Steps (α × State) :=
  match c with
  | item => Script.item s
  | fields => Script.fields s
  | declarations clause more => Script.declarations setting clause more s
  | operand => Script.operand setting s
  | operands => Script.operands setting s
  | command => Script.command setting s
  | commands clause closer => Script.commands setting clause closer s
  | pipeline clause closer => Script.pipeline setting clause closer s
  | action => Script.action setting s
  | statement => Script.statement setting s
  | statements => Script.statements setting s
  | body => Script.body setting s
  | branchBody kind => Script.branchBody kind s
  | nestedBody clause => Script.nestedBody setting clause s
  | control kind => Script.control setting kind s
  | blockControl => Script.blockControl setting s
  | definition => Script.definition setting s
  | root => Script.root setting s
  | source => Script.source setting s
  | leave => .ends (leave.run setting s)
  | leaveBranch kind => .ends ((leaveBranch kind).run setting s)

/-- A function gives what its steps give. -/
theorem Call.run_eq {α : Type} (setting : Setting) (c : Call α) (s : State) :
    c.run setting s = (c.script setting s).eval setting := by
  cases c with
  | leave | leaveBranch kind => rfl
  | item => exact (Script.eval_item setting s).symm
  | fields => exact (Script.eval_fields setting s).symm
  | declarations clause more => exact (Script.eval_declarations setting s clause more).symm
  | operand => exact (Script.eval_operand setting s).symm
  | operands => exact (Script.eval_operands setting s).symm
  | command => exact (Script.eval_command setting s).symm
  | commands clause closer => exact (Script.eval_commands setting s clause closer).symm
  | pipeline clause closer => exact (Script.eval_pipeline setting s clause closer).symm
  | action => exact (Script.eval_action setting s).symm
  | statement => exact (Script.eval_statement setting s).symm
  | statements => exact (Script.eval_statements setting s).symm
  | body => exact (Script.eval_body setting s).symm
  | branchBody kind => exact (Script.eval_branchBody setting s kind).symm
  | nestedBody clause => exact (Script.eval_nestedBody setting s clause).symm
  | control kind => exact (Script.eval_control setting s kind).symm
  | blockControl => exact (Script.eval_blockControl setting s).symm
  | definition => exact (Script.eval_definition setting s).symm
  | root => exact (Script.eval_root setting s).symm
  | source => exact (Script.eval_source setting s).symm

end Stencil.Syntax.Parse
