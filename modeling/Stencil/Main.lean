import Stencil.CommandLine.Run

/-!
# The program

Reads the files that the command line may ask for, runs it on them and prints its report.
-/

set_option autoImplicit false
set_option relaxedAutoImplicit false

namespace Stencil

open CommandLine

/-- What stands at a path on disk. -/
def readEntry (path : String) : IO Entry := do
  try
    let bytes ← IO.FS.readBinFile path
    match String.fromUTF8? bytes with
    | some text => return .file text
    | none => return .unreadable "stream did not contain valid UTF-8"
  catch
    | .noFileOrDirectory .. => return .none .missing
    | .inappropriateType _ code detail =>
      if code = 20 then return .none .notDirectory
      else if code = 21 then return .none .isDirectory
      else return .unreadable detail
    | error => return .unreadable (toString error)

/-- The files at some paths, as they are now. -/
def readFiles (paths : List String) : IO Files := do
  let entries ← paths.mapM fun path => return (path, ← readEntry path)
  return fun path => ((entries.find? (·.1 = path)).map Prod.snd).getD (.none .missing)

end Stencil

/-- Runs the program on its arguments. -/
def main (arguments : List String) : IO UInt32 := do
  let store ← IO.getEnv "LINETMPL_TEMPLATE_DIR"
  let paths :=
    match Stencil.CommandLine.request? store arguments with
    | none => []
    | some (directory, request) => request.paths directory
  let report := Stencil.CommandLine.run (← Stencil.readFiles paths) store arguments
  IO.print report.output
  IO.eprint report.errors
  return UInt32.ofNat report.status
