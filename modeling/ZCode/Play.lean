/-
  Playing a story on a console.

  * `Play.start` loads the story that the command line names.
  * `Play.step` does one step of the machine and whatever that asks for: a line of input, or a file
    name for a save or restore.  Both take their lines from the same input.
-/
import ZCode.CommandLine
import ZCode.Console
import ZCode.Machine.Step
import ZCode.Terminal

namespace ZCode

/-- A game being played. -/
structure Play where
  machine : Machine
  terminal : Terminal
  deriving Inhabited

/-- What the program says to its caller when it ends. -/
abbrev ExitCode := UInt32

def Refusal.exitCode : Refusal → ExitCode
  | .help => 0
  | .usage => 2

namespace Play

/-- White space, which is taken off a file name. -/
def isSpace (c : Char) : Bool :=
  let n := c.toNat
  9 ≤ n && n ≤ 13 || n == 0x20 || n == 0x85 || n == 0xA0 || n == 0x1680 || 0x2000 ≤ n && n ≤ 0x200A ||
    n == 0x2028 || n == 0x2029 || n == 0x202F || n == 0x205F || n == 0x3000

/-- A text without the white space around it. -/
def trimSpace (text : List Char) : List Char :=
  ((text.dropWhile isSpace).reverse.dropWhile isSpace).reverse

/-- Whether an entry is logged.  Without `debug`, only warnings and worse are. -/
def isLogged (debug : Bool) (e : LogEntry) : Bool :=
  debug || e.level = .warning || e.level = .fatal

section
variable {m : Type → Type} [Monad m] (c : Console m)

/-! ## Output -/

/-- Sends a message to the terminal. -/
def emit (p : Play) (call : OutputCall) : m Play := do
  let (terminal, bytes) := p.terminal.receive call
  if !bytes.isEmpty then c.write bytes
  return { p with terminal }

/-- Sends messages to the terminal. -/
def emitAll (p : Play) : List OutputCall → m Play
  | [] => return p
  | call :: calls => do emitAll (← p.emit c call) calls

/-- Logs entries. -/
def logAll (debug : Bool) : List LogEntry → m Unit
  | [] => return ()
  | e :: entries => do
    if isLogged debug e then c.log e
    logAll debug entries

/-- Shows and logs what the machine has produced. -/
def drain (p : Play) : m Play := do
  let calls := p.machine.output.toList
  let entries := p.machine.log.toList
  let p := { p with machine := { p.machine with output := #[], log := #[] } }
  logAll c p.machine.tracing entries
  p.emitAll c calls

/-! ## Saving to files -/

/-- Asks for a file name. -/
def askFileName (p : Play) : m (Play × Except StoreFailure String) := do
  let p ← p.emitAll c [.print "Enter a file name: ", .flush]
  match ← c.readLine with
  | none => return (p, .error (.host "EOF"))
  | some line =>
    match trimSpace line with
    | [] => return (p, .error (.host "no file name given"))
    | name => return (p, .ok (String.ofList name))

/-- Saves to a file that the player names. -/
def saveToFile (p : Play) (data : String) : m (Play × Except StoreFailure Unit) := do
  let (p, name) ← p.askFileName c
  match name with
  | .error e => return (p, .error e)
  | .ok name =>
    match ← c.writeFile name (Utf8.encode data.toList) with
    | .ok () => return (p, .ok ())
    | .error e => return (p, .error (.host e.message))

/-- Reads a file that the player names. -/
def restoreFromFile (p : Play) : m (Play × Except StoreFailure (List Char)) := do
  let (p, name) ← p.askFileName c
  match name with
  | .error e => return (p, .error e)
  | .ok name =>
    match ← c.readFile name with
    | .ok bytes => return (p, .ok (Utf8.decode bytes))
    | .error e => return (p, .error (.host e.message))

/-! ## Steps -/

/-- Ends with an error. -/
def fail (p : Play) (reason : String) : m ExitCode := do
  let _ ← p.emit c .flush
  c.log (.fatal reason)
  return 1

/-- Tells the story what the terminal can do. -/
def advertise (p : Play) : Except Fault Play :=
  match Memory.advertise p.terminal.statusLine p.machine.memory with
  | .ok _ memory => .ok { p with machine := { p.machine with memory } }
  | .error fault _ => .error fault

/-- The outcome of an action on the machine. -/
def onMachine {α : Type} (p : Play) (act : EStateM Stop Machine α) : Except Stop α × Play :=
  match act p.machine with
  | .ok a machine => (.ok a, { p with machine })
  | .error stop machine => (.error stop, { p with machine })

/-- A step of the machine, with the save or restore it may ask for. -/
def advance (p : Play) : m (Except Stop Unit × Play) := do
  let (outcome, p) := p.onMachine Machine.advance
  let p ← p.drain c
  match outcome with
  | .error stop => return (.error stop, p)
  | .ok none => return (.ok (), p)
  | .ok (some (.save i)) =>
    let (p, answer) ← p.saveToFile c p.machine.snapshot.render
    let (outcome, p) := p.onMachine (Machine.answerSave i answer)
    return (outcome, ← p.drain c)
  | .ok (some (.restore i)) =>
    let (p, answer) ← p.restoreFromFile c
    let (outcome, p) := p.onMachine (Machine.answerRestore i answer)
    return (outcome, ← p.drain c)

/-- Hands the next line of input to the story, or ends if there is none. -/
def feedLine (p : Play) : m (Except ExitCode Play) := do
  let p ← p.emit c .flush
  match ← c.readLine with
  | none =>
    let _ ← p.emitAll c [.newLine, .flush]
    return .error 0
  | some line =>
    let text := String.ofList (Machine.trimLineEnd line)
    return .ok { p with machine := { p.machine with input := p.machine.input.push text } }

/-- Goes on after a restart. -/
def afterRestart (p : Play) : m (Except ExitCode Play) := do
  match p.advertise with
  | .error fault =>
    c.log (.fatal fault.message)
    return .error 1
  | .ok p =>
    logAll c p.machine.tracing [.restarted]
    return .ok p

/-- Plays on by one step.  The game ends with an exit code when the story quits, when there is a
fault, or when the story waits for a line and there is none. -/
def step (p : Play) : m (Except ExitCode Play) := do
  let (outcome, p) ← p.advance c
  match outcome with
  | .ok () => if p.machine.phase = .running then return .ok p else p.feedLine c
  | .error .quit =>
    let _ ← p.emit c .flush
    return .error 0
  | .error .restart => p.afterRestart c
  | .error stop => return .error (← p.fail c stop.message)

/-- Plays to the end, or for at most `fuel` steps. -/
def run (p : Play) : Nat → m (Option ExitCode)
  | 0 => return none
  | fuel + 1 => do
    match ← p.step c with
    | .error code => return some code
    | .ok p => run p fuel

/-! ## Starting -/

/-- The machine for an image, if it can be loaded. -/
def load (o : Options) (entropy : Int64) (image : Memory) : m (Except Fault Machine) := do
  if let .ok h := Header.read image then
    logAll c o.debug [.header h.staticBase h.highBase h.initialPc]
  match Story.load image with
  | .error fault => return .error fault
  | .ok story =>
    logAll c o.debug [.loaded]
    let random := Random.ofEntropy entropy
    let random := if o.seed = 0 then random else random.enterPredictableMode (Int64.ofInt o.seed)
    return .ok { Machine.start story random with tracing := o.debug }

/-- Loads the story and gets ready to play it.  `interactive` says whether a status line can be
drawn. -/
def start (o : Options) (interactive : Bool) (entropy : Int64) : m (Except ExitCode Play) := do
  let fatal (reason : String) : m (Except ExitCode Play) := do
    c.log (.fatal reason)
    return .error 1
  match ← c.readFile o.story with
  | .error e => fatal e.message
  | .ok bytes =>
    match ← load c o entropy ⟨bytes.toArray⟩ with
    | .error fault => fatal fault.message
    | .ok machine =>
      let terminal : Terminal :=
        { width := if o.width = 0 then 80 else o.width, statusLine := interactive }
      match advertise { machine, terminal } with
      | .error fault => fatal fault.message
      | .ok p => return .ok p

end

end Play

end ZCode
