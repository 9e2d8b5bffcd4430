/-
  The program: plays a story on the terminal.
-/
import ZCode.Play
import ZCode.Text.Quoted

namespace ZCode

/-! ## The console of the process -/

/-- The bytes up to the next line end, behind those in `seen`. -/
partial def readLineBytes (input : IO.FS.Stream) (seen : ByteArray) : IO ByteArray := do
  let next ← input.read 1
  let seen := seen ++ next
  if next.isEmpty || next.toList = [10] then return seen else readLineBytes input seen

def obstacleOf : IO.Error → Obstacle
  | .noFileOrDirectory .. => .missing
  | .inappropriateType .. => .isDirectory
  | e => .other (toString e)

/-- Carries out an action on a file. -/
def onFile {α : Type} (path : String) (act : IO α) : IO (Except FileFailure α) := do
  try return .ok (← act)
  catch e => return .error { path, obstacle := obstacleOf e }

def processConsole : Console IO where
  readLine := do
    let line ← readLineBytes (← IO.getStdin) ByteArray.empty
    return if line.isEmpty then none else some (Utf8.decode line.toList)
  write bytes := do
    let output ← IO.getStdout
    output.write ⟨bytes.toArray⟩
    output.flush
  log entry := IO.eprintln s!"level={entry.level.label} msg={quoteText entry.message.toList}"
  readFile path := onFile path do return (← IO.FS.readBinFile path).toList
  writeFile path bytes := onFile path (IO.FS.writeBinFile path ⟨bytes.toArray⟩)

/-! ## Playing -/

/-- Plays to the end. -/
partial def playOn (p : Play) : IO ExitCode := do
  match ← p.step processConsole with
  | .error code => return code
  | .ok p => playOn p

def usage : String := "usage: zcode [-debug] [-seed n] [-width n] story.z3"

def runProgram (args : List String) : IO ExitCode := do
  match Options.parse args with
  | .error refusal =>
    IO.eprintln usage
    return refusal.exitCode
  | .ok o =>
    let interactive ← (← IO.getStdout).isTty
    let entropy := Int64.ofNat (← IO.monoNanosNow)
    match ← Play.start processConsole o interactive entropy with
    | .error code => return code
    | .ok p => playOn p

end ZCode

def main (args : List String) : IO UInt32 := ZCode.runProgram args
