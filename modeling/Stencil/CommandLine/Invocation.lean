import Stencil.CommandLine.Arguments
import Stencil.Exec.State

/-!
# What is asked on the command line

There are three commands: to print the outline of a template, to render a template on data, and to
check templates. All know a switch for the directory in which templates are looked up by name, which
may also stand before the command; after it, it counts more. In the place of a command the word for
help, alone or before the word for a command, asks how the program is used.
`Invocation.ofArguments?` reads a whole command line, or refuses it.
-/

set_option autoImplicit false
set_option relaxedAutoImplicit false

namespace Stencil.CommandLine

/-- A request. A template is a path or a name. -/
inductive Request
  | version
  | usage
  /-- The outline of a template, wrapped in an object or not, on one line or not. -/
  | outline (template : String) (isWrapped isCompact : Bool)
  /-- The output of a template on the data in a file, by default an empty object. -/
  | render (template : String) (data : Option String) (missingKey : MissingKey)
  | check (templates : List String)
deriving DecidableEq, Repr

/-- A request and the directories of templates given with it. -/
structure Invocation where
  /-- The directory given before the command. -/
  general : Option String := none
  /-- The directory given after the command. -/
  own : Option String := none
  request : Request
deriving DecidableEq, Repr

/-- Paths are not empty. -/
def admitsPath (value : String) : Bool := value ≠ ""

/-- The words for what a missing key gives. -/
def missingKey? (value : String) : Option MissingKey :=
  [MissingKey.default, MissingKey.error].find? (·.word = value)

/-- The switch for the directory of templates. -/
def directorySwitch : Switch := { name := "template-dir", admits := some admitsPath }

/-- The switch that asks how the program is used. -/
def usageSwitch : Switch := { name := "help", letter := some 'h', isFinal := true }

/-- The switches before the command. -/
def generalSwitches : List Switch :=
  [directorySwitch, usageSwitch, { name := "version", letter := some 'V', isFinal := true }]

/-- The commands. -/
inductive Command
  | parse
  | render
  | check
deriving DecidableEq, Repr

namespace Command

/-- The word for a command. -/
def word : Command → String
  | parse => "parse"
  | render => "render"
  | check => "check"

/-- The command of a word. -/
def ofWord? (text : String) : Option Command := [parse, render, check].find? (·.word = text)

/-- The switches of a command. -/
def switches : Command → List Switch
  | parse => [directorySwitch, usageSwitch, { name := "envelope" }, { name := "compact" }]
  | render =>
    [directorySwitch, usageSwitch,
      { name := "data", letter := some 'd', admits := some admitsPath },
      { name := "missing-key", admits := some fun value => (missingKey? value).isSome }]
  | check => [directorySwitch, usageSwitch]

/-- The request that the arguments of a command make. -/
def request? (command : Command) (given : Given) : Option Request :=
  if given.has usageSwitch.name then some .usage
  else
    match command, given.words with
    | parse, [template] => some (.outline template (given.has "envelope") (given.has "compact"))
    | render, [template] =>
      some (.render template (given.setting? "data")
        (((given.setting? "missing-key").bind missingKey?).getD .default))
    | check, template :: more => some (.check (template :: more))
    | _, _ => none

end Command

/-- The word in the place of a command that asks how the program is used. -/
def helpWord : String := "help"

/-- Whether these words name something whose use can be explained. -/
def isTopic : List String → Bool
  | [] => true
  | [word] => word = helpWord || (Command.ofWord? word).isSome
  | _ => false

namespace Invocation

/-- What a command line asks, unless it is malformed. -/
def ofArguments? (arguments : List String) : Option Invocation := do
  let (general, unread) ← scan generalSwitches true arguments
  let given ← Given.ofArguments? general
  if given.has "version" then return { request := .version }
  if given.has usageSwitch.name then return { request := .usage }
  match given.words, unread with
  | [], name :: rest =>
    if name = helpWord then
      if isTopic rest then return { request := .usage } else none
    else
      let command ← Command.ofWord? name
      let (own, _) ← scan command.switches false rest
      let inner ← Given.ofArguments? own
      let request ← command.request? inner
      return ⟨given.setting? directorySwitch.name, inner.setting? directorySwitch.name, request⟩
  | _, _ => none

/-- The directory given, of which one after the command counts more. -/
def directory? (invocation : Invocation) : Option String :=
  invocation.own <|> invocation.general

/-- Whether the directory set for all command lines is looked at: before the command and after it,
it stands in for one that is not given there. -/
def readsStore (invocation : Invocation) : Bool :=
  match invocation.request with
  | .version => false
  | .usage => false
  | _ => invocation.general.isNone || invocation.own.isNone

end Invocation

end Stencil.CommandLine
