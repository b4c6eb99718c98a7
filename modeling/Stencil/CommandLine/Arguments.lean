/-!
# The arguments of a command

The arguments of a command are words and switches. A switch is written with two dashes and its name
or with one dash and its letter. Some take a value, which is the next argument or is attached: after
an equals sign, or directly after the letter. Two dashes alone make everything after them words.

`scan` reads arguments in order and refuses a switch that the command does not know, a value that is
missing or not admitted, and a value for a switch that takes none. `Given.ofArguments?` refuses a
switch given twice.
-/

set_option autoImplicit false
set_option relaxedAutoImplicit false

namespace Stencil.CommandLine

/-- A switch that a command knows. -/
structure Switch where
  name : String
  letter : Option Char := none
  /-- The values admitted, if the switch takes one. -/
  admits : Option (String → Bool) := none
  /-- Whether nothing that follows is read. -/
  isFinal : Bool := false

/-- An argument that has been read. -/
inductive Argument
  | word (text : String)
  | mark (name : String)
  | setting (name value : String)
deriving DecidableEq, Repr

/-- Whether an argument is a switch. A dash alone is a word. -/
def isSwitch (text : String) : Bool := text.startsWith "-" && text ≠ "-"

/-- The switch that an argument names, and the value attached to it. -/
def findSwitch (switches : List Switch) (text : List Char) : Option (Switch × Option String) :=
  match text with
  | '-' :: '-' :: long =>
    let name := String.ofList (long.takeWhile (· ≠ '='))
    let attached :=
      match long.dropWhile (· ≠ '=') with
      | [] => none
      | _ :: value => some (String.ofList value)
    (switches.find? (·.name = name)).map (·, attached)
  | '-' :: letter :: rest =>
    let attached :=
      match rest with
      | [] => none
      | '=' :: value => some (String.ofList value)
      | value => some (String.ofList value)
    (switches.find? (·.letter = some letter)).map fun switch =>
      (switch, if switch.isFinal then none else attached)
  | _ => none

/-- What was read with one more argument before it. -/
def prepend (first : Argument) (found : List Argument × List String) :
    List Argument × List String :=
  (first :: found.1, found.2)

/-- Reads arguments with the switches known, as far as the first word if it is to end the reading.
Gives what was read and what was not. -/
def scan (switches : List Switch) (stopsAtWord : Bool) :
    List String → Option (List Argument × List String)
  | [] => some ([], [])
  | text :: rest =>
    if text = "--" then some (rest.map .word, [])
    else if isSwitch text then
      match findSwitch switches text.toList with
      | none => none
      | some (switch, attached) =>
        match switch.admits, attached with
        | none, some _ => none
        | none, none =>
          if switch.isFinal then some ([.mark switch.name], [])
          else (scan switches stopsAtWord rest).map (prepend (.mark switch.name))
        | some admits, some value =>
          if admits value then
            (scan switches stopsAtWord rest).map (prepend (.setting switch.name value))
          else none
        | some admits, none =>
          match rest with
          | [] => none
          | value :: more =>
            if admits value && !isSwitch value then
              (scan switches stopsAtWord more).map (prepend (.setting switch.name value))
            else none
    else if stopsAtWord then some ([], text :: rest)
    else (scan switches stopsAtWord rest).map (prepend (.word text))

/-- What the arguments of a command say. -/
structure Given where
  words : List String := []
  marks : List String := []
  settings : List (String × String) := []

namespace Given

/-- The value given to a switch. -/
def setting? (given : Given) (name : String) : Option String :=
  (given.settings.find? (·.1 = name)).map Prod.snd

/-- Whether a switch without a value is given. -/
def has (given : Given) (name : String) : Bool := given.marks.contains name

/-- With one more argument, unless it repeats a switch. -/
def add (given : Given) : Argument → Option Given
  | .word text => some { given with words := given.words ++ [text] }
  | .mark name =>
    if given.has name then none else some { given with marks := name :: given.marks }
  | .setting name value =>
    if (given.setting? name).isSome then none
    else some { given with settings := (name, value) :: given.settings }

/-- What some arguments say, unless a switch is repeated. -/
def ofArguments? (arguments : List Argument) : Option Given := arguments.foldlM add {}

end Given

end Stencil.CommandLine
