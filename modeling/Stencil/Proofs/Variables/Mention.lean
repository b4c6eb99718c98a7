import Stencil.Function.Table
import Stencil.Proofs.Grammar.Context

/-!
# Where variables are mentioned

A variable is looked for twice. The parser looks for its name among those written before it, and an
execution looks for its value among the variables it has. A `Sight` is what the two find at a place
of a tree: the names that the parser sees there, and the variables that every execution has that
gets there.

The two differ in four ways, all of them told by `Pipeline.sightAfter`, `Command.sightAfter` and
`Node.mentions`. The parser sees a variable from where its name is written, an execution has it once
the value is computed. To the parser an assignment is a declaration. The parser sees in the else
part what the body declares. And a variable that is declared in an argument is there afterwards only
if the argument was evaluated, which the parser does not ask.

The mentions of a tree (`Body.mentions`) are the places at which a variable is read or assigned,
each with its sight.
-/

set_option autoImplicit false
set_option relaxedAutoImplicit false

namespace Stencil

/-- The truth at which a function needs no further operand, where a name stands for such a function.
-/
def FunctionTable.stopsAt? (table : FunctionTable) (name : String) : Option Bool :=
  match table.resolve? name with
  | some (.builtin builtin) => builtin.stopsAt
  | _ => none

namespace Syntax

/-! ### Sights -/

/-- What is seen at a place of a tree. -/
structure Sight where
  /-- The names that the parser sees. -/
  visible : List String
  /-- The variables that an execution has. -/
  bound : List String

namespace Sight

/-- What is seen at the start of a template. -/
def start : Sight := ⟨["$"], ["$"]⟩

/-- The sight once the names of a declaration are written. -/
def write (sight : Sight) (targets : List Variable) : Sight :=
  { sight with visible := Parse.declareAll sight.visible targets }

/-- The sight once the variables of a declaration have their value. One that is assigned had to be
there. -/
def bind (sight : Sight) (isAssign : Bool) (targets : List Variable) : Sight :=
  if isAssign then sight else { sight with bound := Parse.declareAll sight.bound targets }

end Sight

/-- The operands after the first that every evaluation of a command evaluates. -/
inductive Evaluated
  | none
  | first
  | all

section Sights

variable (functions : FunctionTable)

/-- The operands that are evaluated where a node is the first of a command. Only a function takes
any, and one that may decide early takes no more than it needs. -/
def Node.evaluates : Node → Evaluated
  | .identifier _ name => if (functions.stopsAt? name).isSome then .first else .all
  | _ => .none

mutual

/-- What is seen behind a node. -/
def Node.sightAfter (sight : Sight) : Node → Sight
  | .action _ inner => inner.sightAfter sight
  | .pipeline inner => inner.sightAfter sight
  | .chain _ base _ => base.sightAfter sight
  | .template _ _ argument =>
    match argument with
    | none => sight
    | some inner => inner.sightAfter sight
  | _ => sight

/-- What is seen behind a pipeline. -/
def Pipeline.sightAfter (sight : Sight) : Pipeline → Sight
  | ⟨_, isAssign, targets, commands⟩ =>
    (Command.sightAfterAll (sight.write targets) commands).bind isAssign targets

/-- What is seen behind commands. -/
def Command.sightAfterAll (sight : Sight) : List Command → Sight
  | [] => sight
  | command :: rest => Command.sightAfterAll (command.sightAfter sight) rest

/-- What is seen behind a command: the names of all operands, and the variables of those that every
evaluation evaluates. -/
def Command.sightAfter (sight : Sight) : Command → Sight
  | ⟨_, []⟩ => sight
  | ⟨_, first :: rest⟩ =>
    let visible := (Node.sightAfterAll (first.sightAfter sight) rest).visible
    match first.evaluates functions with
    | .none => ⟨visible, (first.sightAfter sight).bound⟩
    | .first => ⟨visible, (Node.sightAfterFirst (first.sightAfter sight) rest).bound⟩
    | .all => Node.sightAfterAll (first.sightAfter sight) rest

/-- What is seen behind the first of some nodes. -/
def Node.sightAfterFirst (sight : Sight) : List Node → Sight
  | [] => sight
  | node :: _ => node.sightAfter sight

/-- What is seen behind nodes in a row. -/
def Node.sightAfterAll (sight : Sight) : List Node → Sight
  | [] => sight
  | node :: rest => Node.sightAfterAll (node.sightAfter sight) rest

end

/-- What is seen at the end of a body. -/
def Body.sightAfter (sight : Sight) (body : Body) : Sight :=
  Node.sightAfterAll functions sight body.nodes

end Sights

/-! ### Mentions -/

/-- A place at which a variable is read or assigned. -/
structure Mention where
  reference : Variable
  sight : Sight

/-- The variables that an assignment gives a value to are mentioned. -/
def assigned (isAssign : Bool) (targets : List Variable) (sight : Sight) : List Mention :=
  if isAssign then targets.map fun target ↦ ⟨target, sight⟩ else []

section Mentions

variable (functions : FunctionTable)

mutual

/-- The mentions in a node. -/
def Node.mentions (sight : Sight) : Node → List Mention
  | .var reference => [⟨reference, sight⟩]
  | .action _ inner => inner.mentions sight
  | .pipeline inner => inner.mentions sight
  | .chain _ base _ => base.mentions sight
  | .template _ _ argument =>
    match argument with
    | none => []
    | some inner => inner.mentions sight
  | .branch _ _ head body otherwise =>
    let inside := head.sightAfter functions sight
    head.mentions sight ++ body.mentions inside ++
      match otherwise with
      | none => []
      -- An execution that gets here has not been in the body.
      | some other => other.mentions ⟨(body.sightAfter functions inside).visible, inside.bound⟩
  | _ => []

/-- The mentions in a pipeline: those in its commands, and the variables that it assigns. -/
def Pipeline.mentions (sight : Sight) : Pipeline → List Mention
  | ⟨_, isAssign, targets, commands⟩ =>
    Command.allMentions (sight.write targets) commands ++
      assigned isAssign targets (Command.sightAfterAll functions (sight.write targets) commands)

/-- The mentions in commands. -/
def Command.allMentions (sight : Sight) : List Command → List Mention
  | [] => []
  | command :: rest =>
    command.mentions sight ++ Command.allMentions (command.sightAfter functions sight) rest

/-- The mentions in a command. -/
def Command.mentions (sight : Sight) : Command → List Mention
  | ⟨_, operands⟩ => Node.allMentions sight operands

/-- The mentions in nodes in a row. -/
def Node.allMentions (sight : Sight) : List Node → List Mention
  | [] => []
  | node :: rest => node.mentions sight ++ Node.allMentions (node.sightAfter functions sight) rest

/-- The mentions in a body. -/
def Body.mentions (sight : Sight) : Body → List Mention
  | ⟨_, nodes⟩ => Node.allMentions sight nodes

end

end Mentions

end Syntax

end Stencil
