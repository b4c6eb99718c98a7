import Stencil.Bracketed
import Stencil.CommandLine.Files
import Stencil.CommandLine.Invocation
import Stencil.Data.Json.Read
import Stencil.Data.Json.Write

/-!
# Running a command

A command reads files and writes to two channels, and its exit status says whether it succeeded
(`Report`). A template is the file at the path that is given or, if there is none, the file of that
name in the directory of templates (`load`). What goes wrong is reported on the second channel;
output written before an error stays. A command line that is malformed has an exit status of its
own, and so has a panic.
-/

set_option autoImplicit false
set_option relaxedAutoImplicit false

namespace Stencil.CommandLine

/-- What a command leaves behind. -/
structure Report where
  status : Nat
  output : String := ""
  errors : String := ""
deriving DecidableEq, Repr

/-- Why a command fails on a template. -/
inductive Failure
  | unreadable (path reason : String)
  | badData (path : String) (error : Json.ReadError)
  | outline (error : OutlineError Empty)
  | syntaxError (error : Syntax.ParseError)
  | exec (error : ExecError)

/-- The message of a failure. -/
def Failure.message : Failure → String
  | unreadable path reason => "Failed to read " ++ path ++ ": " ++ reason
  | badData path error => "Invalid JSON in " ++ path ++ ": " ++ error.describe
  | outline error => error.describe nofun
  | syntaxError error => error.describe
  | exec error => error.describe

/-- The report of a failure, after some output. -/
def Failure.report (failure : Failure) (output : String) : Report :=
  ⟨1, output, "error: " ++ failure.message ++ "\n"⟩

/-- The exit status of a panic. -/
def panicStatus : Nat := 101

/-- The report of an execution that failed, after some output. -/
def execReport (error : ExecError) (output : String) : Report :=
  if error.isPanic then ⟨panicStatus, output, error.describe ++ "\n"⟩
  else (Failure.exec error).report output

/-! ### Templates -/

/-- The text of a template and its name. -/
structure Source where
  name : String
  text : String
deriving DecidableEq, Repr

/-- The path at which a template is looked up by name. -/
def namedPath (directory template : String) : String := join directory (template ++ ".tpl")

/-- Reads a file. -/
def readFile (files : Files) (path : String) : Except Failure String :=
  (files.text path).mapError (.unreadable path)

/-- The template at a path or, if no file is there, of a name. -/
def load (files : Files) (directory template : String) : Except Failure Source :=
  if files.isFile template then (readFile files template).map fun text => ⟨stem template, text⟩
  else (readFile files (namedPath directory template)).map fun text => ⟨template, text⟩

/-- The outline of a template. -/
def outlineOf (files : Files) (directory template : String) : Except Failure Outline.Tree := do
  let source ← load files directory template
  (({} : Bracketed).outline source.name source.text).mapError .outline

/-! ### Commands -/

/-- An outline as it is printed, with the members of every object in the order of their keys. -/
def printed (tree : Outline.Tree) (isWrapped isCompact : Bool) : String :=
  let value := tree.toValue.sorted
  let shown := if isWrapped then .object [("data", value)] else value
  (if isCompact then Json.compact shown else Json.pretty 0 shown) ++ "\n"

/-- Prints the outline of a template. -/
def runOutline (files : Files) (directory template : String) (isWrapped isCompact : Bool) :
    Report :=
  match outlineOf files directory template with
  | .ok tree => ⟨0, printed tree isWrapped isCompact, ""⟩
  | .error failure => failure.report ""

/-- The data in a file, by default an empty object. -/
def readData (files : Files) : Option String → Except Failure Value
  | none => .ok (.object [])
  | some path => do
    let text ← readFile files path
    (Json.read (some Json.nestingLimit) text).mapError (.badData path)

/-- The template to render and its data. -/
def prepare (files : Files) (directory template : String) (data : Option String) :
    Except Failure (Template × Value) := do
  let source ← load files directory template
  let value ← readData files data
  let compiled ← (({} : Bracketed).compile source.name source.text).mapError .syntaxError
  return (compiled, value)

/-- Renders a template. -/
def runRender (files : Files) (directory template : String) (data : Option String)
    (missingKey : MissingKey) : Report :=
  match prepare files directory template data with
  | .error failure => failure.report ""
  | .ok (compiled, value) =>
    let outcome := { compiled with missingKey := missingKey }.execute value none none
    match outcome.error with
    | none => ⟨0, outcome.output, ""⟩
    | some error => execReport error outcome.output

/-- The line about a template that was checked: on the first channel if it is fine, else on the
second. -/
def checkLine (files : Files) (directory template : String) : Except String String :=
  match outlineOf files directory template with
  | .ok _ => .ok ("✓ " ++ template ++ "\n")
  | .error failure => .error (template ++ ": error: " ++ failure.message ++ "\n")

/-- The lines on the first channel. -/
def passed (lines : List (Except String String)) : List String :=
  lines.filterMap Except.toOption

/-- The lines on the second channel. -/
def failed (lines : List (Except String String)) : List String :=
  lines.filterMap fun line =>
    match line with
    | .ok _ => none
    | .error text => some text

/-- Checks templates, all of them even if some fail. -/
def runCheck (files : Files) (directory : String) (templates : List String) : Report :=
  let lines := templates.map (checkLine files directory)
  let output := String.join (passed lines)
  match failed lines with
  | [] => ⟨0, output, ""⟩
  | errors =>
    ⟨1, output, String.join errors ++ "\nerror: " ++ toString errors.length ++ " of " ++
      toString templates.length ++ " template(s) failed\n"⟩

/-! ### Command lines -/

/-- The line that names the version. -/
def versionLine : String := "linetmpl-cli 0.1.0\n"

/-- How the program is used. -/
def usageText : String :=
  "Usage: linetmpl [--template-dir DIR] parse TEMPLATE [--envelope] [--compact]\n" ++
  "       linetmpl [--template-dir DIR] render TEMPLATE [--data FILE] " ++
  "[--missing-key default|error]\n" ++
  "       linetmpl [--template-dir DIR] check TEMPLATE...\n"

/-- The report about a malformed command line. -/
def malformed : Report := ⟨2, "", ""⟩

/-- The directory of templates if none is given. -/
def defaultDirectory : String := "templates"

/-- The paths that a request may read. -/
def Request.paths (directory : String) : Request → List String
  | version => []
  | usage => []
  | outline template _ _ => [template, namedPath directory template]
  | render template data _ => [template, namedPath directory template] ++ data.toList
  | check templates => templates.flatMap fun template =>
      [template, namedPath directory template]

/-- Carries out a request. -/
def Request.run (files : Files) (directory : String) : Request → Report
  | version => ⟨0, versionLine, ""⟩
  | usage => ⟨0, usageText, ""⟩
  | outline template isWrapped isCompact =>
    runOutline files directory template isWrapped isCompact
  | render template data missingKey => runRender files directory template data missingKey
  | check templates => runCheck files directory templates

/-- What a command line asks and the directory of templates that it uses, where `store` is the one
set for all command lines. That one must not be empty where it is looked at. -/
def request? (store : Option String) (arguments : List String) : Option (String × Request) := do
  let invocation ← Invocation.ofArguments? arguments
  if store = some "" && invocation.readsStore then none
  else return (invocation.directory?.getD (store.getD defaultDirectory), invocation.request)

/-- Runs a command line. -/
def run (files : Files) (store : Option String) (arguments : List String) : Report :=
  match request? store arguments with
  | none => malformed
  | some (directory, request) => request.run files directory

end Stencil.CommandLine
