/-
  Carrying out instructions.

  `Machine.execute` reads the operands, does what the opcode does to variables, memory and streams,
  and says what is to happen next.  It changes neither frames nor the program counter: that is left
  to the step.
-/
import ZCode.Machine.Print
import ZCode.Machine.Variable

namespace ZCode

/-- A call of a routine, given by its byte address. -/
structure Call where
  routine : Address
  /-- The variable for the result. -/
  storeTo : UInt8
  returnTo : Address
  args : List UInt16
  deriving DecidableEq, Repr, Inhabited

/-- What is to happen after an instruction. -/
inductive Action where
  | flow (flow : Flow)
  | call (call : Call)
  | quit
  | restart
  | read (read : PendingRead)
  | save (instruction : Instruction)
  | restore (instruction : Instruction)
  deriving DecidableEq, Repr, Inhabited

namespace Machine

variable [Stray]

/-- On to the next instruction. -/
def goOn (i : Instruction) : Run Action := return .flow (.next i.next)

/-- Stores the result of an instruction and goes on. -/
def storeResult (i : Instruction) (v : UInt16) : Run Action := do
  setVariable i.storeTo v
  goOn i

def branch (i : Instruction) (condition : Bool) : Run Action := return .flow (i.branchOn condition)

/-- Stores an object and branches if there is one. -/
def storeObject (i : Instruction) (o : UInt16) : Run Action := do
  setVariable i.storeTo o
  branch i (o != 0)

/-- The operands behind the first. -/
def laterOperands (args : List Int) : List Int :=
  if args.isEmpty then Stray.numbers else args.drop 1

/-- The quotient of two numbers, rounded toward 0. -/
def quotient (a b : Int) : Int := if b = 0 then Stray.number else a.tdiv b

/-- What the quotient leaves over. -/
def remainder (a b : Int) : Int := if b = 0 then Stray.number else a.tmod b

/-- Draws a random number. -/
def draw (n : Int64) : Run Int64 := do
  let (v, random) := (← get).random.draw n
  modify fun z => { z with random }
  return v

/-- Reads from the object table. -/
def onObjects {α : Type} (f : ObjectTable → Memory → Except Fault α) : Run α :=
  look fun z => f z.story.objects z.memory

/-- Changes the object table. -/
def editObjects (e : ObjectTable → Protection → Edit Unit) : Run Unit :=
  edit fun story => e story.objects story.protection

/-- Selects a stream, or deselects it if its number is negative.  Stream 1 is the screen, 2 the
transcript, 3 a table in memory, and 4 a record of the input, which is not kept. -/
def outputStream (number : Int) (table : Option Int) : Run Unit := do
  if number = 0 then return ()
  else if number = 1 ∨ number = -1 then
    modify fun z => { z with streams := { z.streams with screenOff := number < 0 } }
  else if number = 2 ∨ number = -2 then edit fun _ => Memory.setTranscripting (0 < number)
  else if number = 3 then
    match table with
    | none => throw (.instruction .streamNeedsTable)
    | some table => selectTable (UInt32.ofInt table)
  else if number = -3 then deselectTable
  else if number = 4 ∨ number = -4 then addLog (.notRecorded number)
  else throw (.instruction (.unknownStream number))

/-- What an opcode does with the values of its operands, of which `a`, `b` and `c` are the first
three. -/
def performOn (i : Instruction) (args : List Int) (a b c : Int) : Run Action := do
  let wa := UInt16.ofInt a
  let wb := UInt16.ofInt b
  let wc := UInt16.ofInt c
  let va := UInt8.ofInt a
  match i.op with
  -- Comparisons
  | .je => branch i ((laterOperands args).contains a)
  | .jl => branch i (a < b)
  | .jg => branch i (b < a)
  | .jz => branch i (a = 0)
  | .testBits => branch i (wa &&& wb = wb)
  | .decChk =>
    let v ← addToVariable va (-1)
    branch i (signed v < b)
  | .incChk =>
    let v ← addToVariable va 1
    branch i (b < signed v)
  -- Arithmetic and logic
  | .bitOr => storeResult i (wa ||| wb)
  | .bitAnd => storeResult i (wa &&& wb)
  | .bitNot => storeResult i (~~~wa)
  | .add => storeResult i (UInt16.ofInt (a + b))
  | .sub => storeResult i (UInt16.ofInt (a - b))
  | .mul =>
    if a * b < -32768 ∨ 32767 < a * b then
      throw (.instruction (.multiplicationOverflow a b))
    storeResult i (UInt16.ofInt (a * b))
  | .div =>
    if b = 0 then throw (.instruction .divisionByZero)
    storeResult i (UInt16.ofInt (quotient a b))
  | .mod =>
    if b = 0 then throw (.instruction .remainderByZero)
    storeResult i (UInt16.ofInt (remainder a b))
  | .random => do storeResult i (UInt16.ofInt (← draw (Int64.ofInt a)).toInt)
  -- Variables and the stack
  | .store => do setInPlace va wb; goOn i
  | .load => do storeResult i (← readInPlace va)
  | .inc => do let _ ← addToVariable va 1; goOn i
  | .dec => do let _ ← addToVariable va (-1); goOn i
  | .push => do setFrame (·.push wa); goOn i
  | .pop => do let _ ← onFrame Frame.pop; goOn i
  | .pull =>
    let v ← onFrame Frame.pop
    setInPlace va v
    goOn i
  -- Memory
  | .loadw => do storeResult i (← readWord (UInt16.ofInt (a + b * 2)).toUInt32)
  | .loadb => do storeResult i (← readByte (UInt16.ofInt (a + b)).toUInt32).toUInt16
  | .storew => do writeWord (UInt16.ofInt (a + b * 2)).toUInt32 wc; goOn i
  | .storeb => do writeByte (UInt16.ofInt (a + b)).toUInt32 (UInt8.ofInt c); goOn i
  -- Objects
  | .jin => do branch i ((← onObjects (·.parent · wa)) = wb)
  | .testAttr => do branch i (← onObjects (·.testAttribute · wa wb))
  | .setAttr => do editObjects (·.setAttribute · wa wb true); goOn i
  | .clearAttr => do editObjects (·.setAttribute · wa wb false); goOn i
  | .insertObj => do editObjects (·.insert · wa wb); goOn i
  | .removeObj => do editObjects (·.remove · wa); goOn i
  | .getSibling => do storeObject i (← onObjects (·.sibling · wa))
  | .getChild => do storeObject i (← onObjects (·.child · wa))
  | .getParent => do storeResult i (← onObjects (·.parent · wa))
  | .getProp => do storeResult i (← onObjects (·.property · wa wb))
  | .getPropAddr => do storeResult i (← onObjects (·.propertyAddress · wa wb)).toUInt16
  | .getNextProp => do storeResult i (← onObjects (·.nextProperty · wa wb))
  | .getPropLen =>
    storeResult i (← look fun z => ObjectTable.propertyLength z.memory (UInt32.ofInt a))
  | .putProp => do editObjects (·.setProperty · wa wb wc); goOn i
  -- Printing
  | .printText => do print i.text; goOn i
  | .printReturn => do print i.text; newLine; return .flow (.ret 1)
  | .newLine => do newLine; goOn i
  | .printAddr | .printPaddr => do printAt (UInt32.ofInt a); goOn i
  | .printObj => do print (← look fun z => z.story.objectName z.memory wa); goOn i
  | .printChar => do print (← look fun _ => Zscii.text wa); goOn i
  | .printNum => do print (toString a).toList; goOn i
  | .showStatus => do showStatus; goOn i
  | .outputStream => do outputStream a args[1]?; goOn i
  -- Control
  | .jump => return .flow (.jump i.next a)
  | .call => return .call ⟨UInt32.ofInt a, i.storeTo, i.next, (laterOperands args).map UInt16.ofInt⟩
  | .ret => return .flow (.ret wa)
  | .rtrue => return .flow (.ret 1)
  | .rfalse => return .flow (.ret 0)
  | .retPopped => return .flow (.ret (← onFrame Frame.pop))
  | .nop => goOn i
  | .verify => do branch i (← look fun z => .ok (z.story.checksum == z.story.header.checksum))
  | .quit => return .quit
  | .restart => return .restart
  | .save => return .save i
  | .restore => return .restore i
  | .sread => return .read ⟨UInt32.ofInt a, UInt32.ofInt b, i.next⟩
  -- Screens and sounds
  | .splitWindow | .setWindow | .inputStream | .soundEffect => do
    addLog (.ignored i.op.info.name args)
    goOn i

/-- What an opcode does with the values of its operands. -/
def perform (i : Instruction) (args : List Int) : Run Action :=
  performOn i args (args.getD 0 Stray.number) (args.getD 1 Stray.number) (args.getD 2 Stray.number)

/-- Carries out an instruction, up to what is to happen next. -/
def execute (i : Instruction) : Run Action := do
  let args ← operandValues i.op 0 i.operands
  perform i args

end Machine

end ZCode
