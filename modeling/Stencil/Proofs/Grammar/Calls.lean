import Stencil.Proofs.Grammar.Steps

/-!
# The calls that a parse makes

The functions of the parser call one another, and most of them call themselves again: a loop over
spaces, fields, operands, commands, variables or statements is told as a function that goes on with
what is left. `Call` names these functions, and `Call.run` is what a function gives.

`Steps` are the calls that a function makes and what it does with their results, without the calls
being made. With every call made they come to what `Steps.eval` says.
-/

set_option autoImplicit false
set_option relaxedAutoImplicit false

namespace Stencil.Syntax.Parse

/-- A function that reads items, with its arguments beside the state. The type is that of what it
reads. -/
inductive Call : Type → Type
  /-- The next item after spaces, if one is left. -/
  | item : Call (Option Item)
  /-- The fields that follow one another. -/
  | fields : Call (List String)
  | declarations (clause : Clause) (more : Nat) : Call Declarations
  | operand : Call (Option Node)
  | operands : Call (List Node)
  | command : Call Command
  | commands (clause : Clause) (closer : ItemKind) : Call (List Command)
  | pipeline (clause : Clause) (closer : ItemKind) : Call Pipeline
  | action : Call Statement
  | statement : Call Statement
  | statements : Call (List Node × Ending)
  | body : Call (Body × Ending)
  | branchBody (kind : BranchKind) : Call (Body × Ending)
  | nestedBody (clause : Clause) : Call Body
  | control (kind : BranchKind) : Call Node
  | blockControl : Call Node
  | definition : Call Unit
  | root : Call (List Node)
  /-- A whole source, with its trees. -/
  | source : Call TreeSet
  /-- To be one level less deep again. -/
  | leave : Call Unit
  /-- To be behind the body of a control structure. -/
  | leaveBranch (kind : BranchKind) : Call Unit

/-! ### What the functions give -/

section Found

variable {α : Type} {s : State}

/-- What was read, and the state after it. -/
abbrev Reading.found (reading : Reading α s) : α × State := (reading.value, reading.state)

/-- What was read, if anything, and the state after it. -/
abbrev Maybe.found (reading : Maybe α s) : α × State := (reading.value, reading.state)

/-- The operands that were read, and the state after them. -/
abbrev Operands.found (reading : Operands s) : List Node × State := (reading.nodes, reading.state)

/-- The next item after spaces, if one is left, and the state after it. -/
def State.nextFound (s : State) : Option Item × State :=
  match s.next with
  | some reading => (some reading.value, reading.state)
  | none => (none, s.skipSpaces)

/-- What was read, or nothing, and the state after it. -/
def foundOrNone : Option (Reading α s) → Option α × State
  | some reading => (some reading.value, reading.state)
  | none => (none, s)

end Found

namespace Call

/-- What a call gives in a state: what is read and the state after it, or a fault. -/
def run {α : Type} (setting : Setting) (c : Call α) (s : State) : Except ParseError (α × State) :=
  match c with
  | item => .ok s.nextFound
  | fields => .ok s.fields.found
  | declarations clause more => Maybe.found <$> Parse.declarations setting clause more s
  | operand => foundOrNone <$> Parse.operand setting s
  | operands => Operands.found <$> Parse.operands setting s
  | command => Reading.found <$> Parse.command setting s
  | commands clause closer => Reading.found <$> Parse.commands setting clause closer s
  | pipeline clause closer => Reading.found <$> Parse.pipeline setting clause closer s
  | action => Reading.found <$> Parse.action setting s
  | statement => Reading.found <$> Parse.statement setting s
  | statements => Reading.found <$> Parse.statements setting s
  | body => Reading.found <$> Parse.body setting s
  | branchBody kind => Reading.found <$> Parse.branchBody setting kind s
  | nestedBody clause => Reading.found <$> Parse.nestedBody setting clause s
  | control kind => Reading.found <$> Parse.control setting kind s
  | blockControl => Reading.found <$> Parse.blockControl setting s
  | definition => Reading.found <$> Parse.definition setting s
  | root => Parse.root setting s
  | source => do
    let (nodes, after) ← Parse.root setting s
    let trees ← define setting after
      ⟨setting.template, setting.template, ⟨s.peek.position, nodes⟩⟩
    return (trees, after)
  | leave => .ok ((), s.leave)
  | leaveBranch kind => .ok ((), s.leaveBranch kind)

end Call

/-- A parse of a source is a call on its items. -/
theorem parse_eq_run (name : String) (delimiters : Delimiters) (isFunction : String → Bool)
    (source : String) :
    parse name delimiters isFunction source =
      Prod.fst <$> Call.source.run ⟨name, isFunction⟩ (.initial (lex delimiters source)) := by
  simp only [parse, Call.run, map_bind, map_pure, bind_pure]

/-! ### Steps -/

/-- What a function does: the calls it makes, one after another, up to its result. -/
inductive Steps (α : Type) : Type 1
  | ends (result : Except ParseError α)
  | calls {β : Type} (c : Call β) (s : State) (next : β × State → Steps α)

namespace Steps

variable {α β : Type}

/-- Steps and those after them. -/
def bind (first : Steps α) (second : α → Steps β) : Steps β :=
  match first with
  | ends (.ok value) => second value
  | ends (.error fault) => ends (.error fault)
  | calls c s next => calls c s fun found ↦ (next found).bind second

instance : Monad Steps where
  pure value := ends (.ok value)
  bind := bind

instance : MonadLift (Except ParseError) Steps where
  monadLift := ends

/-- A single call. -/
def call (c : Call α) (s : State) : Steps (α × State) :=
  calls c s fun found ↦ ends (.ok found)

/-- What steps come to once their calls are made. -/
def eval (setting : Setting) : Steps α → Except ParseError α
  | ends result => result
  | calls c s next => c.run setting s >>= fun found ↦ (next found).eval setting

section Eval

variable (setting : Setting)

@[simp]
theorem eval_pure (value : α) : (pure value : Steps α).eval setting = pure value := rfl

@[simp]
theorem eval_liftM (result : Except ParseError α) :
    (liftM result : Steps α).eval setting = result := rfl

@[simp]
theorem eval_ite (condition : Prop) [Decidable condition] (first second : Steps α) :
    (if condition then first else second).eval setting =
      if condition then first.eval setting else second.eval setting :=
  apply_ite (Steps.eval setting) condition first second

@[simp]
theorem eval_call (c : Call α) (s : State) : (call c s).eval setting = c.run setting s := by
  change c.run setting s >>= Except.ok = c.run setting s
  cases c.run setting s <;> rfl

@[simp]
theorem eval_bind (first : Steps α) (second : α → Steps β) :
    (first >>= second).eval setting =
      first.eval setting >>= fun value ↦ (second value).eval setting := by
  change (first.bind second).eval setting = _
  induction first with
  | ends result => cases result <;> rfl
  | calls c s next ih => simp only [bind, eval, ih, bind_assoc]

end Eval

end Steps

end Stencil.Syntax.Parse
