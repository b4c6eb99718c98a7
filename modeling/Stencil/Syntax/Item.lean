import Stencil.Syntax.Position
import Stencil.Text.Diagnostic

/-!
# Items

A source is read as a list of items. Outside actions an item is a stretch of text or a comment;
inside an action it is a delimiter, a run of blanks, a mark, a literal or a name. Some names are
keywords (`Keyword.ofWord?`). The last item is the end of the source or an error, whose value is a
message.

Messages name an item by its value, shortened and quoted, by its keyword between angle brackets, or
by the word for the end of the source (`Item.describe`).
-/

set_option autoImplicit false
set_option relaxedAutoImplicit false

namespace Stencil.Syntax

/-- The words with a meaning of their own, and the lone dot. -/
inductive Keyword
  | dot
  | blockWord
  | breakWord
  | continueWord
  | defineWord
  | elseWord
  | endWord
  | ifWord
  | nilWord
  | rangeWord
  | templateWord
  | withWord
deriving DecidableEq, Repr, Inhabited

namespace Keyword

/-- The keyword that a word is, if it is one. -/
def ofWord? (word : String) : Option Keyword :=
  match word with
  | "block" => some blockWord
  | "break" => some breakWord
  | "continue" => some continueWord
  | "define" => some defineWord
  | "else" => some elseWord
  | "end" => some endWord
  | "if" => some ifWord
  | "nil" => some nilWord
  | "range" => some rangeWord
  | "template" => some templateWord
  | "with" => some withWord
  | _ => none

end Keyword

/-- What an item is. -/
inductive ItemKind
  /-- A source that cannot be read further; the value is the message. -/
  | error
  /-- The end of the source. -/
  | eof
  /-- A stretch of text outside actions. -/
  | text
  /-- A comment with its markers. -/
  | comment
  | leftDelim
  | rightDelim
  /-- A run of blanks inside an action. -/
  | space
  | leftParen
  | rightParen
  /-- The bar between two commands. -/
  | pipe
  /-- The equals sign of an assignment. -/
  | assign
  /-- The colon and equals sign of a declaration. -/
  | declare
  /-- Any other mark, such as a comma. -/
  | char
  | bool
  | charConstant
  | number
  /-- A string between double quotes. -/
  | string
  /-- A string between back quotes. -/
  | rawString
  /-- The name of a function. -/
  | identifier
  /-- A dot and the name of a field. -/
  | field
  /-- A dollar sign and the name of a variable, which may be empty. -/
  | variable
  | keyword (word : Keyword)
deriving DecidableEq, Repr, Inhabited

/-- Whether an item of this kind is a keyword. -/
def ItemKind.isKeyword : ItemKind → Bool
  | keyword _ => true
  | _ => false

/-- A piece of a source: what it is, where it starts and its text. -/
structure Item where
  kind : ItemKind
  position : Position
  value : String
deriving DecidableEq, Repr, Inhabited

/-- The longest value that a message shows in full. -/
def Item.shownLength : Nat := 10

/-- How messages name an item. -/
def Item.describe (item : Item) : String :=
  match item.kind with
  | .eof => "EOF"
  | .error => item.value
  | .keyword _ => "<" ++ item.value ++ ">"
  | _ =>
    if item.value.length > Item.shownLength then
      Diagnostic.quote (String.ofList (item.value.toList.take Item.shownLength)) ++ "..."
    else
      Diagnostic.quote item.value

end Stencil.Syntax
