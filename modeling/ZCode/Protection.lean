/-
  Memory as the running program sees it.

  High memory cannot be read, static memory cannot be written, and of the header only a few flag
  bits can be changed.
-/
import ZCode.Header

namespace ZCode

/-- The two boundaries of the protected view. -/
structure Protection where
  staticBase : Address
  /-- 0 if all of memory can be read. -/
  highBase : Address
  deriving DecidableEq, Repr, Inhabited

namespace Protection

variable [Stray]

/-- Whether the last of `n` bytes at `a` lies below high memory.  Addresses wrap around. -/
def checkRead (p : Protection) (a : Address) (n : Address) : Except Fault Unit :=
  if p.highBase ≠ 0 ∧ p.highBase ≤ a + n - 1 then .error (.access a (.highMemory p.highBase))
  else .ok ()

def readByte (p : Protection) (m : Memory) (a : Address) : Except Fault UInt8 := do
  p.checkRead a 1
  m.byte a

def readWord (p : Protection) (m : Memory) (a : Address) : Except Fault UInt16 := do
  p.checkRead a 2
  m.word a

/-- Whether `a` lies in dynamic memory. -/
def isDynamic (p : Protection) (a : Address) : Bool := a < p.staticBase

/-- Whether the program may change the header byte at `a` from `old` to `new`.  The high byte of the
second flag word has no bits to change, but a word written there may leave it alone. -/
def headerAllows (a : Address) (old new : UInt8) : Bool :=
  let changed := old ^^^ new
  if a = 0x01 then changed &&& ~~~Memory.flags1Mask == 0
  else if a = 0x10 then changed == 0
  else if a = 0x11 then changed &&& ~~~Memory.flags2Mask == 0
  else false

/-- Whether the program may write `v` at `a`. -/
def checkWrite (p : Protection) (m : Memory) (a : Address) (v : UInt8) : Except Fault Unit := do
  if !p.isDynamic a then throw (.access a (.staticMemory p.staticBase))
  if a.toNat < Header.size then
    if !headerAllows a (← m.byte a) v then throw (.access a .headerField)

def writeByte (p : Protection) (a : Address) (v : UInt8) : Edit Unit := do
  Edit.read (p.checkWrite · a v)
  Memory.setByte a v

/-- Writes a word, or nothing if one of its bytes must not be written. -/
def writeWord (p : Protection) (a : Address) (w : UInt16) : Edit Unit := do
  Edit.read (p.checkWrite · a (highByte w))
  Edit.read (p.checkWrite · (a + 1) (lowByte w))
  Memory.setWord a w

end Protection

end ZCode
