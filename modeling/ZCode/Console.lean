/-
  What a player's session needs from outside: lines of input, a place for output, files and a log.
-/
import ZCode.Log

namespace ZCode

/-- What keeps a file from being read or written. -/
inductive Obstacle where
  | missing
  | notDirectory
  | isDirectory
  | nameTooLong
  | invalidName
  | other (reason : String)
  deriving DecidableEq, Repr, Inhabited

def Obstacle.message : Obstacle → String
  | .missing => "no such file or directory"
  | .notDirectory => "not a directory"
  | .isDirectory => "is a directory"
  | .nameTooLong => "file name too long"
  | .invalidName => "invalid argument"
  | .other reason => reason

/-- A file that could not be read or written. -/
structure FileFailure where
  path : String
  obstacle : Obstacle
  deriving DecidableEq, Repr, Inhabited

/-- A directory can be opened, only not read. -/
def FileFailure.message (f : FileFailure) : String :=
  let action := if f.obstacle = .isDirectory then "read" else "open"
  s!"{action} {f.path}: {f.obstacle.message}"

/-- The outside of a session. -/
structure Console (m : Type → Type) where
  /-- The next line of input with its line end, if there is one left.  The last line may lack the
  line end. -/
  readLine : m (Option (List Char))
  write : List UInt8 → m Unit
  log : LogEntry → m Unit
  readFile : String → m (Except FileFailure (List UInt8))
  writeFile : String → List UInt8 → m (Except FileFailure Unit)

end ZCode
