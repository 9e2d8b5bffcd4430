/-
  Variables: 0 is the evaluation stack, 1 to 15 are locals, and the rest are globals.
-/
import ZCode.Machine

namespace ZCode.Machine

variable [Stray]

/-- The global of a variable number from 16 on. -/
def globalOf (v : UInt8) : UInt8 := v - 0x10

/-- The value of a variable.  Variable 0 is popped. -/
def readVariable (v : UInt8) : Run UInt16 :=
  if v = 0 then onFrame Frame.pop
  else if v < 0x10 then look (·.calls.current.getLocal v)
  else look fun z => z.story.readGlobal z.memory (globalOf v)

/-- Stores into a variable.  Variable 0 is pushed. -/
def setVariable (v : UInt8) (value : UInt16) : Run Unit :=
  if v = 0 then setFrame (·.push value)
  else if v < 0x10 then setFrame (·.setLocal v value)
  else edit (·.writeGlobal (globalOf v) value)

/-- The value of a variable that an operand names; of variable 0 the top of the stack, which
stays. -/
def readInPlace (v : UInt8) : Run UInt16 :=
  if v = 0 then look (·.calls.current.peek) else readVariable v

/-- Stores into a variable that an operand names; into variable 0 by replacing the top of the
stack. -/
def setInPlace (v : UInt8) (value : UInt16) : Run Unit :=
  if v = 0 then setFrame (·.setTop value) else setVariable v value

/-- Adds to a variable in place, modulo 65536, and gives its new value. -/
def addToVariable (v : UInt8) (delta : Int) : Run UInt16 := do
  let value := UInt16.ofInt ((← readInPlace v).toNat + delta)
  setInPlace v value
  return value

/-- A word as an opcode means it.  The number of a variable must be below 256. -/
def meaning (hint : Hint) (raw : UInt16) : Run Int := do
  match hint with
  | .signed => return signed raw
  | .packed => return 2 * raw.toNat
  | .reference =>
    if 0xFF < raw then throw (.machine (.variableRange raw))
    return raw.toNat
  | .plain | .address => return raw.toNat

/-- The value of an operand as its opcode means it.  Operands that are variables are read first, and
the number of a variable must be below 256. -/
def operandValue (o : Operand) (hint : Hint) : Run Int := do
  if o.kind = .omitted then return 0
  let raw ←
    if o.kind = .var then
      if 0xFF < o.value then throw (.machine (.variableRange o.value))
      readVariable o.value.toUInt8
    else pure o.value
  meaning hint raw

/-- The values of the operands from number `n` on, from left to right. -/
def operandValues (op : Op) : Nat → List Operand → Run (List Int)
  | _, [] => return []
  | n, o :: operands => do
    let value ← operandValue o (op.hint n)
    return value :: (← operandValues op (n + 1) operands)

end ZCode.Machine
