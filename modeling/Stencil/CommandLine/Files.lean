/-!
# Files

What the program reads is given as a map from paths to what stands there (`Files`). `Files.ofList`
is a directory with some files in it, whose paths are followed part by part: an empty part or a dot
stays in a directory, two dots leave it, and a name enters it. Nothing is known beyond that
directory.

`join` puts a name into a directory, and `stem` is the name of a file without its last extension.
-/

set_option autoImplicit false
set_option relaxedAutoImplicit false

namespace Stencil.CommandLine

/-- Why there is no file at a path. -/
inductive PathFault
  | missing
  /-- A part of the path that would have to be a directory is a file. -/
  | notDirectory
  | isDirectory
deriving DecidableEq, Repr

/-- The wording of a fault. -/
def PathFault.message : PathFault → String
  | missing => "No such file or directory (os error 2)"
  | notDirectory => "Not a directory (os error 20)"
  | isDirectory => "Is a directory (os error 21)"

/-- What stands at a path. -/
inductive Entry
  | file (text : String)
  /-- A file that cannot be read, with the reason. -/
  | unreadable (reason : String)
  | none (fault : PathFault)
deriving DecidableEq, Repr

/-- What stands at every path. -/
abbrev Files := String → Entry

/-- Whether a file stands at a path. -/
def Files.isFile (files : Files) (path : String) : Bool :=
  match files path with
  | .none _ => false
  | _ => true

/-- The text of the file at a path, or why it cannot be read. -/
def Files.text (files : Files) (path : String) : Except String String :=
  match files path with
  | .file text => .ok text
  | .unreadable reason => .error reason
  | .none fault => .error fault.message

/-! ### Paths -/

/-- The parts of a path, those between its slashes. -/
def parts (path : String) : List String :=
  path.toList.splitOn '/' |>.map String.ofList

/-- Whether a part of a path names something. -/
def isName (part : String) : Bool := part ≠ "" && part ≠ "."

/-- A path in a directory. A path from the root stands for itself. -/
def join (directory path : String) : String :=
  if path.startsWith "/" then path
  else if directory = "" || directory.endsWith "/" then directory ++ path
  else directory ++ "/" ++ path

/-- A name without what follows its last dot, unless that dot is its first character. -/
def withoutExtension (name : String) : String :=
  let reversed := name.toList.reverse
  match reversed.dropWhile (· ≠ '.') with
  | _ :: c :: rest => String.ofList (c :: rest).reverse
  | _ => name

/-- The name of the file at a path, without its extension. -/
def stem (path : String) : String :=
  withoutExtension (((parts path).filter isName).getLast?.getD path)

/-! ### Directories -/

/-- A directory: its files, each by the names on its path. -/
abbrev Directory := List (List String × String)

namespace Directory

/-- The text of a file. -/
def file? (directory : Directory) (place : List String) : Option String :=
  (directory.find? (·.1 = place)).map Prod.snd

/-- Whether a place is the directory itself or holds a file. -/
def isDirectory (directory : Directory) (place : List String) : Bool :=
  place.isEmpty || directory.any fun entry => place.isPrefixOf entry.1 && place ≠ entry.1

/-- What stands where a path leads from a place. -/
def follow (directory : Directory) (place : List String) : List String → Entry
  | [] =>
    match directory.file? place with
    | some text => .file text
    | none => .none (if directory.isDirectory place then .isDirectory else .missing)
  | part :: rest =>
    if directory.isDirectory place then
      if !isName part then follow directory place rest
      else if part = ".." then
        if place.isEmpty then .none .missing else follow directory place.dropLast rest
      else follow directory (place ++ [part]) rest
    else .none (if (directory.file? place).isSome then .notDirectory else .missing)

end Directory

/-- The files of a directory, each given by its path and its text. -/
def Files.ofList (entries : List (String × String)) : Files := fun path =>
  if path = "" || path.startsWith "/" then .none .missing
  else
    Directory.follow (entries.map fun (path, text) => ((parts path).filter isName, text)) []
      (parts path)

end Stencil.CommandLine
