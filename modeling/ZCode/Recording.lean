/-
  A session without a terminal: all input is known beforehand, output and log are collected, and the
  files are those of one directory.
-/
import ZCode.Play

namespace ZCode

/-- The outside of a session as a value. -/
structure Recording where
  /-- The input that is left. -/
  input : List Char
  /-- The files of the directory. -/
  files : List (String × List UInt8)
  /-- The bytes written, in the order of writing. -/
  output : Array UInt8 := #[]
  log : Array LogEntry := #[]
  deriving Inhabited

namespace Recording

/-! ## Input -/

/-- The characters of `input` up to the first line end, behind those in `seen` (the last one first),
and the rest. -/
def splitLine (seen : List Char) : List Char → List Char × List Char
  | [] => (seen.reverse, [])
  | c :: input => if c = '\n' then ((c :: seen).reverse, input) else splitLine (c :: seen) input

/-- The next line. -/
def readLine (r : Recording) : Option (List Char) × Recording :=
  if r.input.isEmpty then (none, r)
  else
    let (line, input) := splitLine [] r.input
    (some line, { r with input })

/-! ## Files -/

def hasFile (r : Recording) (name : String) : Bool := r.files.any (·.1 = name)

/-- The file of the directory that a path leads to.  There are no other directories than this one and
those above it. -/
def locate (r : Recording) (path : String) : Except Obstacle String :=
  let chars := path.toList
  let parts := chars.splitOn '/'
  let dots : List (List Char) := [[], ['.']]
  let absolute := chars.head? = some '/'
  if chars.isEmpty then .error .missing
  else if chars.contains (Char.ofNat 0) then .error .invalidName
  else match parts.filter fun part => !dots.contains part with
    | [] => .error .isDirectory
    | [name] =>
      if name = ['.', '.'] then .error .isDirectory
      else if 255 < (Utf8.encode name).length then .error .nameTooLong
      else if absolute then .error .missing
      else if dots.contains (parts.getLastD []) then
        if r.hasFile (String.ofList name) then .error .notDirectory else .error .missing
      else .ok (String.ofList name)
    | name :: _ =>
      if !absolute && r.hasFile (String.ofList name) then .error .notDirectory else .error .missing

def readFile (r : Recording) (path : String) : Except FileFailure (List UInt8) :=
  match r.locate path with
  | .error obstacle => .error { path, obstacle }
  | .ok name =>
    match r.files.lookup name with
    | some bytes => .ok bytes
    | none => .error { path, obstacle := .missing }

/-- Writes a file in place of the one with the same name. -/
def writeFile (r : Recording) (path : String) (bytes : List UInt8) :
    Except FileFailure Unit × Recording :=
  match r.locate path with
  | .error obstacle => (.error { path, obstacle }, r)
  | .ok name => (.ok (), { r with files := (name, bytes) :: r.files.filter (·.1 ≠ name) })

/-- A recording as a console. -/
def console : Console (StateM Recording) where
  readLine := fun r => r.readLine
  write bytes := modify fun r => { r with output := r.output ++ bytes.toArray }
  log entry := modify fun r => { r with log := r.log.push entry }
  readFile path := do return (← get).readFile path
  writeFile path bytes := fun r => r.writeFile path bytes

/-- Plays a whole game, for at most `fuel` steps. -/
def play (args : List String) (entropy : Int64) (fuel : Nat) : StateM Recording (Option ExitCode) := do
  match Options.parse args with
  | .error refusal => return some refusal.exitCode
  | .ok o =>
    match ← Play.start console o false entropy with
    | .error code => return some code
    | .ok p => p.run console fuel

end Recording

end ZCode
