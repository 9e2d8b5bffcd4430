/-
  The machine that runs a story: its state, and the actions on it.

  * `Machine` is the whole state.  What it prints and logs is collected in it, in order.
  * `Run` is an action that may fault.  It says which state was reached also when it faults.
-/
import ZCode.Frame
import ZCode.Instruction.Decode
import ZCode.LineInput
import ZCode.Log
import ZCode.Output
import ZCode.Random
import ZCode.Story

namespace ZCode

/-- A read that waits for its line. -/
structure PendingRead where
  textBuffer : Address
  parseBuffer : Address
  /-- Where the story goes on. -/
  next : Address
  deriving DecidableEq, Repr, Inhabited

/-- What the machine is about. -/
inductive State where
  | running
  | waiting
  | terminated
  deriving DecidableEq, Repr, Inhabited

/-- What the machine is about, with the read that it waits for. -/
inductive Phase where
  | running
  | waiting (read : PendingRead)
  | terminated
  deriving DecidableEq, Repr, Inhabited

/-- The phase in words. -/
def Phase.label : Phase → String
  | .running => "RUNNING"
  | .waiting _ => "WAITING_FOR_LINE"
  | .terminated => "TERMINATED"

/-- A table in memory that receives output: a word for its length, then the text. -/
structure TableStream where
  table : Address
  length : UInt16 := 0
  deriving DecidableEq, Repr, Inhabited

/-- The output streams a story has selected. -/
structure Streams where
  screenOff : Bool := false
  /-- The selected tables, the innermost first.  While there is one, nothing reaches the screen. -/
  tables : List TableStream := []
  deriving DecidableEq, Repr, Inhabited

/-- The greatest number of tables that may be selected at once. -/
def Streams.maxTables : Nat := 16

/-- The state of a running story. -/
structure Machine where
  story : Story
  memory : Memory
  calls : CallStack := {}
  pc : Address
  state : State := .running
  /-- The read that waits for its line, if one does. -/
  pendingRead : Option PendingRead := none
  /-- The instruction decoded last. -/
  last : Option Instruction := none
  streams : Streams := {}
  random : Random
  input : LineInput := {}
  /-- Everything sent to the screen so far. -/
  output : Array OutputCall := #[]
  log : Array LogEntry := #[]
  /-- Whether every instruction is logged. -/
  tracing : Bool := false
  deriving Inhabited

/-- An action of the machine that may fault, and the state it reached in either case. -/
abbrev Run := EStateM Fault Machine

namespace Machine

variable [Stray]

/-- The phase of the machine.  While it waits there must be a read that it waits for. -/
def phase (z : Machine) : Phase :=
  match z.state with
  | .running => .running
  | .waiting => .waiting (z.pendingRead.getD ⟨Stray.address, Stray.address, Stray.address⟩)
  | .terminated => .terminated

/-- A machine at the start of a story. -/
def start (story : Story) (random : Random) : Machine :=
  { story, memory := story.freshMemory, pc := story.header.initialPc, random }

/-- The machine with frames, program counter, phase and streams as at the start. -/
def reset (z : Machine) : Machine :=
  { z with calls := {}, pc := z.story.header.initialPc, state := .running, pendingRead := none,
           last := none, streams := {} }

/-- The written form of the last instruction, empty if there is none. -/
def lastInstruction (z : Machine) : String :=
  match z.last with
  | some i => i.render
  | none => ""

/-! ## Parts of the state -/

/-- Reads without changing anything. -/
def look {α : Type} (f : Machine → Except Fault α) : Run α := fun z =>
  match f z with
  | .ok a => .ok a z
  | .error fault => .error fault z

/-- Changes memory. -/
def edit {α : Type} (e : Story → Edit α) : Run α := fun z =>
  let change := e z.story
  let memory := z.memory
  let z := { z with memory := default }
  match change memory with
  | .ok a memory => .ok a { z with memory }
  | .error fault memory => .error fault { z with memory }

/-- Changes the current frame. -/
def onFrame {α : Type} (f : Frame → Except Fault (α × Frame)) : Run α := fun z =>
  match f z.calls.current with
  | .ok (a, current) => .ok a { z with calls := { z.calls with current } }
  | .error fault => .error fault z

/-- Changes the current frame, without a result. -/
def setFrame (f : Frame → Except Fault Frame) : Run Unit := onFrame fun frame => do
  return ((), ← f frame)

/-- Sends a message to the screen. -/
def send (call : OutputCall) : Run Unit := modify fun z => { z with output := z.output.push call }

def addLog (entry : LogEntry) : Run Unit := modify fun z => { z with log := z.log.push entry }

/-- The program's view of memory. -/
def writeByte (a : Address) (v : UInt8) : Run Unit := edit (·.protection.writeByte a v)

def writeWord (a : Address) (w : UInt16) : Run Unit := edit (·.protection.writeWord a w)

def readByte (a : Address) : Run UInt8 := look fun z => z.story.protection.readByte z.memory a

def readWord (a : Address) : Run UInt16 := look fun z => z.story.protection.readWord z.memory a

end Machine

end ZCode
