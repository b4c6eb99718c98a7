import Stencil.Function.Collection
import Stencil.Function.Formatting
import Stencil.Text.Escape

/-!
# The functions of every template

Eighteen functions are known without being provided. Two of them, `and` and `or`, give the first of
their arguments that decides the matter, and the last one if none does; a template stops evaluating
their operands there (`Builtin.stopsAt`). The others take, print, compare or escape values. Each has
a name (`Builtin.name`) and a meaning on evaluated arguments (`Builtin.call`).
-/

set_option autoImplicit false
set_option relaxedAutoImplicit false

namespace Stencil

/-- The functions of every template. -/
inductive Builtin
  | and
  | or
  | not
  | len
  | index
  | print
  | printf
  | println
  | eq
  | ne
  | lt
  | le
  | gt
  | ge
  | html
  | js
  | urlquery
  | slice
deriving DecidableEq, Repr

namespace Builtin

/-- All of them, in the order in which they are listed. -/
def all : List Builtin :=
  [.and, .or, .not, .len, .index, .print, .printf, .println, .eq, .ne, .lt, .le, .gt, .ge, .html,
    .js, .urlquery, .slice]

/-- The name by which a template calls a function. -/
def name : Builtin → String
  | and => "and"
  | or => "or"
  | not => "not"
  | len => "len"
  | index => "index"
  | print => "print"
  | printf => "printf"
  | println => "println"
  | eq => "eq"
  | ne => "ne"
  | lt => "lt"
  | le => "le"
  | gt => "gt"
  | ge => "ge"
  | html => "html"
  | js => "js"
  | urlquery => "urlquery"
  | slice => "slice"

/-- The function of a name. -/
def ofName? (name : String) : Option Builtin := all.find? (·.name = name)

/-- The truth at which a function needs no further operand. -/
def stopsAt : Builtin → Option Bool
  | and => some false
  | or => some true
  | _ => none

/-- How many arguments a function takes, where that is fixed. -/
def arity? : Builtin → Option Arity
  | and | or | index | slice | printf => some (.atLeast 1)
  | not | len => some (.exactly 1)
  | ne | lt | le | gt | ge => some (.exactly 2)
  | print | println | eq | html | js | urlquery => none

/-! ### Deciding -/

/-- The first value whose truth is `stop`, or the last one. -/
def firstDeciding (stop : Bool) : Value → List Value → Value
  | value, [] => value
  | value, next :: rest => if value.isTrue = stop then value else firstDeciding stop next rest

/-! ### Printing -/

/-- Whether a value is a text. -/
def isText : Value → Bool
  | .string _ => true
  | _ => false

/-- Values printed one after the other, with a blank between two neither of which is a text. -/
def joined : List Value → String
  | [] => ""
  | [value] => value.format
  | value :: next :: rest =>
    value.format ++ (if isText value || isText next then "" else " ") ++ joined (next :: rest)

/-- What an escaper escapes: a text alone as it is, and other arguments as they print. -/
def escapeInput (arguments : List Value) : List Char := (joined arguments).toList

/-- The result of an escaper. -/
def escaped (escape : List Char → List Char) (arguments : List Value) : Value :=
  .string (String.ofList (escape (escapeInput arguments)))

/-! ### Comparing -/

/-- Whether a value equals one of the others. -/
def equalsSome (value : Value) : List Value → Except CallFault Bool
  | [] => .ok false
  | other :: rest =>
    match value.equal other with
    | .error fault => .error (.comparison fault)
    | .ok true => .ok true
    | .ok false => equalsSome value rest

/-- Whether the order of two values is one of those accepted. -/
def ordered (accept : Ordering → Bool) (first second : Value) : Except CallFault Value :=
  match first.compare second with
  | .error fault => .error (.comparison fault)
  | .ok order => .ok (.bool (accept order))

/-! ### Calls -/

/-- The meaning of a function on arguments whose number is right. -/
def apply : Builtin → Function
  | and, first :: rest => .ok (firstDeciding false first rest)
  | or, first :: rest => .ok (firstDeciding true first rest)
  | not, value :: _ => .ok (.bool (!value.isTrue))
  | len, value :: _ => value.length.map fun n => .int n
  | index, value :: keys => keys.foldlM Value.item value
  | slice, value :: keys =>
    if 2 < keys.length then .error (.tooManyIndexes keys.length) else value.slice keys
  | print, arguments => .ok (.string (joined arguments))
  | println, arguments => .ok (.string (" ".intercalate (arguments.map Value.format) ++ "\n"))
  | printf, format :: arguments =>
    match format with
    | .string text => .ok (.string (Formatting.fill text arguments))
    | _ => .error (.formatType format.typeName)
  | eq, value :: other :: rest => (equalsSome value (other :: rest)).map .bool
  | eq, _ => .error .nothingToCompare
  | ne, first :: second :: _ => (equalsSome first [second]).map fun same => .bool !same
  | lt, first :: second :: _ => ordered Ordering.isLT first second
  | le, first :: second :: _ => ordered Ordering.isLE first second
  | gt, first :: second :: _ => ordered Ordering.isGT first second
  | ge, first :: second :: _ => ordered Ordering.isGE first second
  | html, arguments => .ok (escaped Escape.html arguments)
  | js, arguments => .ok (escaped Escape.script arguments)
  | urlquery, arguments => .ok (escaped Escape.query arguments)
  | function, arguments => .error (.arity function.name (.atLeast 1) arguments.length)

/-- The value of a call. -/
def call (function : Builtin) : Function := fun arguments =>
  match function.arity? with
  | none => function.apply arguments
  | some wanted =>
    if wanted.allows arguments.length then function.apply arguments
    else .error (.arity function.name wanted arguments.length)

end Builtin

end Stencil
