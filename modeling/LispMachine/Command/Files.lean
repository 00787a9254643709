/-!
# Files in memory

A directory as a list of paths and texts, so that a command can be run without touching a disk.  Paths
are relative to that directory.
-/
namespace LispMachine

inductive FileError where
  | notFound
  | notADirectory
  | isADirectory
  deriving DecidableEq, Repr

def FileError.message : FileError → String
  | .notFound => "No such file or directory (os error 2)"
  | .notADirectory => "Not a directory (os error 20)"
  | .isADirectory => "Is a directory (os error 21)"

abbrev Files := List (String × String)

namespace Files

/-- The steps of a path; a dot leads nowhere. -/
def steps (path : String) : List String := (path.splitOn "/").filter fun p => p != "." && p != ""

def read (files : Files) (path : String) : Except FileError String :=
  let wanted := steps path
  if path.startsWith "/" then .error .notFound
  else
    match files.find? fun f => steps f.1 == wanted with
    | some (_, text) => if path.endsWith "/" then .error .notADirectory else .ok text
    | none =>
      if wanted.isEmpty || files.any fun f => wanted.isPrefixOf (steps f.1) then .error .isADirectory
      else if files.any fun f => (steps f.1).isPrefixOf wanted then .error .notADirectory
      else .error .notFound

end Files

end LispMachine
