import Stencil.Function.Builtin

/-!
# Tables of functions

A template may call the functions of every template and those of a table, which come first
(`FunctionTable.resolve?`). A table keeps its functions in the order in which their names were first
given; a later function of a name takes the place of the earlier one.
-/

set_option autoImplicit false
set_option relaxedAutoImplicit false

namespace Stencil

/-- Functions by name, in the order in which their names were first given. -/
structure FunctionTable where
  entries : List (String × Function) := []

/-- What a name stands for. -/
inductive Resolved
  | provided (function : Function)
  | builtin (function : Builtin)

namespace FunctionTable

/-- The entries with a function in place of the one of its name, or at the end. -/
def put (name : String) (function : Function) :
    List (String × Function) → List (String × Function)
  | [] => [(name, function)]
  | entry :: rest =>
    if entry.1 = name then (name, function) :: rest else entry :: put name function rest

/-- The table with a function under a name. -/
def insert (table : FunctionTable) (name : String) (function : Function) : FunctionTable :=
  ⟨put name function table.entries⟩

/-- The table of functions given in order. -/
def ofList (entries : List (String × Function)) : FunctionTable :=
  entries.foldl (fun table entry => table.insert entry.1 entry.2) {}

/-- The function that the table itself holds under a name. -/
def find? (table : FunctionTable) (name : String) : Option Function :=
  (table.entries.find? (·.1 = name)).map Prod.snd

/-- What a name stands for in a template. -/
def resolve? (table : FunctionTable) (name : String) : Option Resolved :=
  match table.find? name with
  | some function => some (.provided function)
  | none => (Builtin.ofName? name).map .builtin

/-- Whether a template may call a name. -/
def has (table : FunctionTable) (name : String) : Bool := (table.resolve? name).isSome

/-- The names of the table's own functions. -/
def names (table : FunctionTable) : List String := table.entries.map Prod.fst

/-- The number of the table's own functions. -/
def size (table : FunctionTable) : Nat := table.entries.length

/-- How messages show a table: its names between braces. -/
def describe (table : FunctionTable) : String :=
  "\x7b" ++ ", ".intercalate (table.names.map Diagnostic.quote) ++ "\x7d"

end FunctionTable

end Stencil
