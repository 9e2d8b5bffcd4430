/-
  Decoding instructions.

  The first byte gives the form, the family and the number.  The operands come next, then the text,
  the variable for the result and the branch, as far as the opcode has them.
-/
import ZCode.Instruction
import ZCode.Script

namespace ZCode

/-- Reading on from an address that moves along. -/
abbrev Reader := StateT Address (Except Fault)

namespace Reader

variable [Stray]

/-- The next byte. -/
def byte (m : Memory) : Reader UInt8 := fun a => do
  let b ← m.byte a
  return (b, a + 1)

/-- The next word. -/
def word (m : Memory) : Reader UInt16 := do
  let high ← byte m
  let low ← byte m
  return wordOf high low

/-- The next operand: a word if large, and a byte otherwise. -/
def operand (m : Memory) (kind : OperandKind) : Reader Operand := do
  if kind = .large then return ⟨kind, ← word m⟩ else return ⟨kind, (← byte m).toUInt16⟩

/-- The operand kind of two bits. -/
def kindOf (bits : UInt8) : OperandKind :=
  if bits &&& 3 = 0 then .large
  else if bits &&& 3 = 1 then .small
  else if bits &&& 3 = 2 then .var
  else .omitted

/-- The operand kinds of a byte, two bits each from the top, up to the first omitted one. -/
def kindsOf (types : UInt8) : List OperandKind :=
  [types >>> 6, types >>> 4, types >>> 2, types].map kindOf |>.takeWhile (· ≠ .omitted)

/-- The next operands, of the given kinds. -/
def operands (m : Memory) : List OperandKind → Reader (List Operand)
  | [] => return []
  | kind :: kinds => do
    let o ← operand m kind
    return o :: (← operands m kinds)

/-- The next branch: one byte with an offset below 64, or two with a signed one of 14 bits. -/
def branch (m : Memory) : Reader Branch := do
  let b ← byte m
  let onTrue := b &&& 0x80 != 0
  if b &&& 0x40 != 0 then return ⟨onTrue, (b &&& 0x3F).toNat⟩
  let low ← byte m
  let offset := (b &&& 0x3F).toNat * 256 + low.toNat
  return ⟨onTrue, if offset < 0x2000 then offset else (offset : Int) - 0x4000⟩

/-- The next text. -/
def text (s : Script) (m : Memory) : Reader (List Char) := fun a => s.decode m a

/-- A part that is there only if `present` says so. -/
def part {α : Type} (present : Bool) (read : Reader α) (absent : α) : Reader α :=
  if present then read else pure absent

end Reader

namespace Instruction

variable [Stray]

/-- The beginning of an instruction, up to its operands. -/
structure Head where
  form : Form
  family : OpFamily
  number : Nat
  operands : List Operand
  deriving DecidableEq, Repr, Inhabited

/-- The form, family and operands that go with the first byte. -/
def readHead (m : Memory) (opcode : UInt8) : Reader Head := do
  if 0xC0 ≤ opcode then
    let types ← Reader.byte m
    let operands ← Reader.operands m (Reader.kindsOf types)
    return { form := .variadic, family := if opcode &&& 0x20 = 0 then .two else .many,
             number := (opcode &&& 0x1F).toNat, operands }
  else if 0x80 ≤ opcode then
    let number := (opcode &&& 0x0F).toNat
    let kind := Reader.kindOf (opcode >>> 4)
    if kind = .omitted then return { form := .short, family := .zero, number, operands := [] }
    else return { form := .short, family := .one, number, operands := [← Reader.operand m kind] }
  else
    let kind (bit : UInt8) : OperandKind := if opcode &&& bit = 0 then .small else .var
    let operands ← Reader.operands m [kind 0x40, kind 0x20]
    return { form := .long, family := .two, number := (opcode &&& 0x1F).toNat, operands }

/-- The first byte of instructions that later versions have. -/
def extendedOpcode : UInt8 := 0xBE

/-- The opcode of a head that starts with the byte `opcode`.  The version must have it, and there must
be enough operands for it. -/
def opOf (s : Script) (opcode : UInt8) (head : Head) : Except Fault Op :=
  let unknown : Fault := .instruction (.unknownOpcode head.family head.number opcode s.version)
  match Op.ofNumber? head.family head.number with
  | none => .error unknown
  | some op =>
    if s.version < op.info.minVersion then .error unknown
    else if head.operands.length < op.info.minOperands then
      .error (.instruction
        (.missingOperands op.info.name op.info.minOperands head.operands.length))
    else .ok op

/-- Reads what comes behind the operands. -/
def readTail (s : Script) (m : Memory) (address : Address) (head : Head) (op : Op) :
    Reader Instruction := do
  let text ← Reader.part op.info.hasText (Reader.text s m) []
  let storeTo ← Reader.part op.info.stores (Reader.byte m) 0
  let branch ← Reader.part op.info.branches (some <$> Reader.branch m) none
  return { address, form := head.form, family := head.family, number := head.number, op,
           operands := head.operands, storeTo, branch, text, next := ← get }

/-- Reads an instruction. -/
def read (s : Script) (m : Memory) : Reader Instruction := do
  let address ← get
  let opcode ← Reader.byte m
  if opcode = extendedOpcode then throw (.instruction (.extendedForm opcode s.version))
  else
    let head ← readHead m opcode
    let op ← opOf s opcode head
    readTail s m address head op

/-- The instruction at an address. -/
def decode (s : Script) (m : Memory) (a : Address) : Except Fault Instruction :=
  (read s m).run' a

end Instruction

end ZCode
