/-
  The header: the first 64 bytes of a story.

  The addresses and numbers in it are read once, when the story is loaded.  The two flag fields are
  read from memory whenever they are asked for, since the program and its host change some of their
  bits.
-/
import ZCode.Memory

namespace ZCode

/-- The fixed fields of a header. -/
structure Header where
  version : UInt8
  release : UInt16
  /-- Six characters, usually a date. -/
  serial : List UInt8
  /-- Where memory stops being readable for the program; 0 if it never does. -/
  highBase : Address
  initialPc : Address
  dictionary : Address
  objects : Address
  globals : Address
  /-- Where memory stops being writable for the program. -/
  staticBase : Address
  abbreviations : Address
  /-- In bytes, 0 if the story does not say. -/
  fileLength : Address
  checksum : UInt16
  revision : UInt16
  deriving DecidableEq, Repr, Inhabited

namespace Header

/-- The size of a header. -/
def size : Nat := 0x40

variable [Stray]

/-- Reads the header.  The image must hold one, of a version from 1 to 3, and its static base must
lie behind the header and in the image. -/
def read (m : Memory) : Except Fault Header := do
  if m.size < size then throw (.story (.tooShort m.size size))
  let version := m.get 0x00
  if version < 1 ∨ 3 < version then throw (.story (.unsupportedVersion version))
  let staticBase := (m.getWord 0x0E).toUInt32
  if staticBase.toNat < size ∨ m.size < staticBase.toNat then
    throw (.story (.staticBase staticBase))
  return {
    version
    release := m.getWord 0x02
    serial := (List.range 6).map fun i => m.get (0x12 + i)
    highBase := (m.getWord 0x04).toUInt32
    initialPc := (m.getWord 0x06).toUInt32
    dictionary := (m.getWord 0x08).toUInt32
    objects := (m.getWord 0x0A).toUInt32
    globals := (m.getWord 0x0C).toUInt32
    staticBase
    abbreviations := (m.getWord 0x18).toUInt32
    fileLength := (m.getWord 0x1A).toUInt32 * 2
    checksum := m.getWord 0x1C
    revision := m.getWord 0x32 }

end Header

namespace Memory

variable [Stray]

/-! ## Flags -/

/-- Where the first flag byte stands. -/
def flags1At : Nat := 0x01

/-- Where the low byte of the second flag word stands. -/
def flags2At : Nat := 0x11

def flags1 (m : Memory) : UInt8 := m.get flags1At

def flags2 (m : Memory) : UInt16 := m.getWord 0x10

/-- The bits of the first flag byte that the program may change: status line, screen split and
variable pitch. -/
def flags1Mask : UInt8 := 0x70

/-- The bits of the second flag word that the program may change: transcript and fixed pitch. -/
def flags2Mask : UInt8 := 0x03

/-- Whether the status line shows a time. -/
def isTimeGame (m : Memory) : Bool := bitOf m.flags1 1

/-- Whether a transcript is asked for. -/
def isTranscripting (m : Memory) : Bool := bitOf (lowByte m.flags2) 0

def setTranscripting (on : Bool) : Edit Unit := setFlag 0x11 0 on

/-- Tells the story whether a status line is shown; the bit says that it is not. -/
def setStatusLineAvailable (on : Bool) : Edit Unit := setFlag 0x01 4 (!on)

def setScreenSplitAvailable (on : Bool) : Edit Unit := setFlag 0x01 5 on

def setVariablePitchDefault (on : Bool) : Edit Unit := setFlag 0x01 6 on

/-- Tells the story what a plain screen can do: a status line if `statusLine`, no split and no
variable pitch. -/
def advertise (statusLine : Bool) : Edit Unit := do
  setStatusLineAvailable statusLine
  setScreenSplitAvailable false
  setVariablePitchDefault false

/-- Clears the header's bits and bytes that belong to the interpreter. -/
def clearInterpreterFields (m : Memory) : Memory :=
  let m := m.put flags1At (m.flags1 &&& ~~~flags1Mask)
  let m := m.put flags2At (m.get flags2At &&& ~~~0x05)
  (m.put 0x1E 0).put 0x1F 0

/-- The transcript and fixed pitch bits, which belong to the session and not to the story. -/
def sessionBits (m : Memory) : UInt8 := m.get flags2At &&& flags2Mask

/-- The memory with the session's bits replaced. -/
def withSessionBits (m : Memory) (bits : UInt8) : Memory :=
  m.put flags2At (m.get flags2At &&& ~~~flags2Mask ||| bits)

end Memory

end ZCode
