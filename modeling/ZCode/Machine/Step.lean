/-
  One step of the machine.

  * `Machine.advance` decodes and carries out one instruction, or tries to finish a waiting read.  A
    save or restore ends in a request to the store instead.
  * `Machine.answerSave` and `Machine.answerRestore` finish such a step once the store has answered.
  * A step ends early with a `Stop`: the story has quit or restarted, or there was a fault.
-/
import ZCode.Machine.Execute
import ZCode.Machine.Read
import ZCode.Machine.Restore
import ZCode.Snapshot.Parse

namespace ZCode

/-- Why an instruction does not lead on to the next. -/
inductive Halt where
  | quit
  | restart
  | fault (cause : Fault)
  deriving DecidableEq, Repr

/-- Why a step does not lead on to the next.  A fault comes with the address of the step and the
written form of the instruction decoded last. -/
inductive Stop where
  | quit
  | restart
  | fault (pc : Address) (instruction : String) (cause : Fault)
  deriving DecidableEq, Repr

/-- The stop in words. -/
def Stop.message : Stop → String
  | .quit => "Z-machine quit"
  | .restart => "Z-machine restart"
  | .fault pc instruction cause =>
    if instruction.isEmpty then s!"at {pc.hex}: {cause.message}"
    else s!"at {pc.hex} [{instruction}]: {cause.message}"

/-- What a step asks of the store.  The instruction's branch tells the story the outcome. -/
inductive StoreRequest where
  | save (instruction : Instruction)
  | restore (instruction : Instruction)
  deriving DecidableEq, Repr

namespace Machine

variable [Stray]

/-! ## Calls and returns -/

def setPc (a : Address) : Run Unit := modify fun z => { z with pc := a }

/-- The locals of a routine with `n` of them, whose values stand from `a` on, the first ones replaced
by the arguments. -/
def initialLocals (m : Memory) (a : Address) (n : Nat) (args : List UInt16) :
    Except Fault (List UInt16) := do
  let defaults ← (List.range n).mapM fun i => m.word (a + UInt32.ofNat (2 * i))
  return defaults.mapIdx fun i v => args.getD i v

/-- Enters a routine.  A call of address 0 does nothing and gives 0. -/
def enter (c : Call) : Run Unit := do
  if c.routine = 0 then
    setPc c.returnTo
    setVariable c.storeTo 0
  else
    let n ← look fun z => z.memory.byte c.routine
    if Frame.maxLocals < n.toNat then throw (.machine (.tooManyLocals c.routine n))
    let locals ← look fun z => initialLocals z.memory (c.routine + 1) n.toNat c.args
    let calls ← look fun z =>
      z.calls.push { locals, returnTo := c.returnTo, store := some c.storeTo }
    modify fun z => { z with calls, pc := c.routine + 1 + UInt32.ofNat (2 * n.toNat) }

/-- Leaves the current routine with a value. -/
def leave (value : UInt16) : Run Unit := do
  let (frame, calls) ← look fun z => z.calls.pop
  modify fun z => { z with calls, pc := frame.returnTo }
  match frame.store with
  | some v => setVariable v value
  | none => return ()

/-- Goes where an instruction leads. -/
def follow : Flow → Run Unit
  | .next a => setPc a
  | .jump base offset => setPc (jumpTarget base offset)
  | .ret value => leave value

/-! ## Actions -/

/-- Shows the status line, waits for a line, and takes one that is already there. -/
def beginRead (r : PendingRead) : Run Unit := do
  showStatus
  send .flush
  modify fun z =>
    { z with state := .waiting, pendingRead := some r, input := { z.input with waiting := true } }
  resumeRead r

/-- An action that may fault, as part of a step. -/
def orHalt {α : Type} (act : Run α) : EStateM Halt Machine α := act.adaptExcept .fault

/-- Does what is to happen after an instruction, up to a request to the store. -/
def apply : Action → EStateM Halt Machine (Option StoreRequest)
  | .flow flow => do orHalt (follow flow); return none
  | .call c => do orHalt (enter c); return none
  | .read r => do orHalt (beginRead r); return none
  | .save i => return some (.save i)
  | .restore i => return some (.restore i)
  | .quit => do
    modify fun z => { z with state := .terminated }
    orHalt (send .flush)
    throw .quit
  | .restart => do
    modify fun z => { z with memory := z.story.restartedMemory z.memory }
    modify reset
    orHalt (send .flush)
    throw .restart

/-! ## Steps -/

/-- An action of the step at `pc`: a fault is given its place. -/
def located {α : Type} (pc : Address) (act : EStateM Halt Machine α) : EStateM Stop Machine α :=
  fun z =>
    match act z with
    | .ok a z => .ok a z
    | .error .quit z => .error .quit z
    | .error .restart z => .error .restart z
    | .error (.fault cause) z => .error (.fault pc z.lastInstruction cause) z

/-- Decodes the instruction at `pc` and remembers it. -/
def fetch (pc : Address) : Run Instruction := do
  let i ← look fun z => Instruction.decode z.story.script z.memory pc
  modify fun z => { z with last := some i }
  if (← get).tracing then addLog (.trace pc i.render)
  return i

/-- Carries out one instruction, or tries to finish a waiting read. -/
def advance : EStateM Stop Machine (Option StoreRequest) := do
  let pc := (← get).pc
  match (← get).phase with
  | .terminated => throw .quit
  | .waiting r => located pc do
    orHalt (resumeRead r)
    return none
  | .running => located pc do
    let i ← orHalt (fetch pc)
    let action ← orHalt (execute i)
    apply action

/-- Finishes a save whose request the store has answered. -/
def answerSave (i : Instruction) (answer : Except StoreFailure Unit) : EStateM Stop Machine Unit :=
  located i.address do
    match answer with
    | .ok () => orHalt (follow (i.branchOn true))
    | .error cause =>
      orHalt (addLog (if cause = .noStore then .noSaveStore else .saveFailed cause))
      orHalt (follow (i.branchOn false))

/-- The snapshot of what a store gave. -/
def loadAnswer (answer : Except StoreFailure (List Char)) : Except StoreFailure Snapshot := do
  (Snapshot.parse (← answer)).mapError .rejected

/-- Restores what a store gave. -/
def restoreAnswer (answer : Except StoreFailure (List Char)) : Machine → Except StoreFailure Machine :=
  fun z => do
    let d ← loadAnswer answer
    match restore d z with
    | .ok () z => return z
    | .error fault _ => throw (.rejected fault)

/-- Goes on behind the save instruction at which a restored snapshot was taken, as if it had just
succeeded. -/
def resumeAtSave : Run Unit := do
  let i ← look fun z => (Instruction.decode z.story.script z.memory z.pc).mapError .restoredSave
  if i.branch.isNone then
    throw (.machine (.notASave (← get).pc i.op.info.name))
  modify fun z => { z with last := some i }
  follow (i.branchOn true)

/-- Finishes a restore whose request the store has answered.  If that brought no snapshot of this
story, the restore instruction's own branch says so. -/
def answerRestore (i : Instruction) (answer : Except StoreFailure (List Char)) :
    EStateM Stop Machine Unit :=
  located i.address do
    match restoreAnswer answer (← get) with
    | .ok z =>
      set z
      orHalt resumeAtSave
    | .error cause =>
      orHalt (addLog (.restoreFailed cause))
      orHalt (follow (i.branchOn false))

end Machine

end ZCode
