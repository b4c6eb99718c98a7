import Stencil.Syntax.Lexing
import Stencil.Syntax.Parse.Statement

/-!
# Parsing a source

`parse` reads a whole source: statements, and between them definitions of further templates. It
gives the set of the trees found, in the order in which their names appear, with that of the source
itself added last under the template's own name; or the first fault.
-/

set_option autoImplicit false
set_option relaxedAutoImplicit false

namespace Stencil.Syntax

namespace Parse

/-- Reads a definition after its keyword: the template's name and its body. -/
def definition (setting : Setting) (s : State) : Except ParseError (Reading Unit s) := do
  let ⟨(name, _), afterName, h1⟩ ← templateName setting .definition s
  let ⟨_, afterHead, h2⟩ ← expect setting afterName [.rightDelim] .definition
  have head := h1.trans h2
  let ⟨root, after, h3⟩ ← nestedBody setting .definition afterHead
  have all := head.trans h3
  let trees ← define setting after ⟨name, setting.template, root⟩
  return ⟨(), { after with trees := trees }, all⟩

/-- The state after the opening of a definition, if one starts here. -/
def definitionStart? (s : State) : Option (Reading Unit s) :=
  if s.peek.kind = .leftDelim then
    match s.advance.next with
    | none => none
    | some ⟨word, after, h⟩ =>
      if word.kind = .keyword .defineWord then some ⟨(), after, h.ofAdvance⟩ else none
  else none

/-- Reads the statements and definitions of a source up to its end. -/
def root (setting : Setting) (s : State) : Except ParseError (List Node × State) := do
  if s.peek.kind = .eof then return ([], s)
  else
    match definitionStart? s with
    | some ⟨_, afterWord, _⟩ =>
      let ⟨_, after, _⟩ ← definition setting afterWord
      root setting after
    | none =>
      let ⟨first, afterFirst, _⟩ ← statement setting s
      match first with
      | .ending .finished => afterFirst.fail setting .strayEnd
      | .ending (.otherwise _) => afterFirst.fail setting .strayElse
      | .node node =>
        let (nodes, after) ← root setting afterFirst
        return (node :: nodes, after)
termination_by s.rest.length
decreasing_by
  · omega
  · omega

end Parse

/-- The trees of a source, of which that of the template itself is the last to be added. -/
def parse (name : String) (delimiters : Delimiters) (isFunction : String → Bool)
    (source : String) : Except ParseError TreeSet := do
  let setting : Parse.Setting := ⟨name, isFunction⟩
  let start := Parse.State.initial (lex delimiters source)
  let (nodes, after) ← Parse.root setting start
  Parse.define setting after ⟨name, name, ⟨start.peek.position, nodes⟩⟩

end Stencil.Syntax
