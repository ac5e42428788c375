/-! # Files

What reading a path gives, in a tree of files held in memory. A path is walked name by name from the root or
from the working directory; an empty name and `.` stay where they are, and `..` goes up. Every name needs a
directory to be looked up in, so a path that goes on after a file leads nowhere.
-/

namespace ScriptEngine

/-- Why a file cannot be read as text. -/
inductive ReadFault where
  | missing
  | notDirectory
  | isDirectory
  | nameTooLong
  | notText
  /-- A reason that only the system knows. -/
  | other (reason : String)
deriving DecidableEq, Repr

/-- The reason in the words of the system. -/
def ReadFault.message : ReadFault → String
  | missing => "No such file or directory (os error 2)"
  | notDirectory => "Not a directory (os error 20)"
  | isDirectory => "Is a directory (os error 21)"
  | nameTooLong => "File name too long (os error 36)"
  | notText => "stream did not contain valid UTF-8"
  | other reason => reason

/-- A place in a tree: the names that lead to it from the root. -/
abbrev Location := List String

/-- Files by location, and the working directory. The directories are those of the files and those on the
way to the working directory. -/
structure FileTree where
  files : List (Location × ByteArray)
  workingDirectory : Location

namespace FileTree

/-- The longest name in bytes. -/
def maxNameLength : Nat := 255

/-- The longest path in bytes. -/
def maxPathLength : Nat := 4095

/-- The names of a path, empty ones included. -/
def names (path : String) : List String := path.splitOn "/"

variable (t : FileTree)

def file? (l : Location) : Option ByteArray := (t.files.find? fun f => f.1 == l).map (·.2)

def isDirectory (l : Location) : Bool :=
  l.isPrefixOf t.workingDirectory || t.files.any fun f => l.isPrefixOf f.1 && l != f.1

/-- Follows names from a location that is a file or a directory. -/
def walk (l : Location) : List String → Except ReadFault Location
  | [] => .ok l
  | name :: rest =>
    if (t.file? l).isSome then .error .notDirectory
    else if name = "" || name = "." then walk l rest
    else if name = ".." then walk l.dropLast rest
    else if name.utf8ByteSize > maxNameLength then .error .nameTooLong
    else
      let l := l ++ [name]
      if (t.file? l).isSome || t.isDirectory l then walk l rest else .error .missing

/-- The content of the file at a path. -/
def read (path : String) : Except ReadFault ByteArray := do
  if path.isEmpty then throw .missing
  if path.utf8ByteSize > maxPathLength then throw .nameTooLong
  let l ← t.walk (if path.startsWith "/" then [] else t.workingDirectory) (names path)
  match t.file? l with
  | some content => pure content
  | none => throw .isDirectory

end FileTree

end ScriptEngine
