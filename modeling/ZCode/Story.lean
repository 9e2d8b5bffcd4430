/-
  A loaded story: its image and what is read from it once.

  The image never changes.  Memory starts as `Story.freshMemory` and is handed along by those who run
  the story.
-/
import ZCode.Dictionary
import ZCode.ObjectTable.Property

namespace ZCode

variable [Stray]

/-- The sum of the bytes behind the header, modulo 65536, up to the length the header gives or to the
end of the image, which has fewer than `2 ^ 32` bytes. -/
def Memory.checksum (m : Memory) (fileLength : Address) : UInt16 :=
  let stop := if Header.size < fileLength.toNat ∧ fileLength.toNat < m.size then fileLength.toNat
    else m.size
  let bytes := (List.range' Header.size (stop - Header.size)).map m.get
  bytes.foldl (fun sum b => sum + b.toUInt16) 0

/-- A story. -/
structure Story where
  /-- Memory as it stands in the story file. -/
  image : Memory
  header : Header
  /-- The checksum computed from the image. -/
  checksum : UInt16
  objects : ObjectTable
  dictionary : Dictionary
  deriving Inhabited

namespace Story

/-- Loads a story image.  A stored checksum of 0 stands for none. -/
def load (image : Memory) : Except Fault Story := do
  let header ← Header.read image
  let checksum := image.checksum header.fileLength
  if header.checksum ≠ 0 ∧ header.checksum ≠ checksum then
    throw (.story (.badChecksum header.checksum checksum))
  let dictionary ← (Dictionary.read image header.dictionary).mapError .dictionary
  return { image, header, checksum, objects := ObjectTable.locate image header.objects, dictionary }

def version (s : Story) : UInt8 := s.header.version

/-- The program's view of memory. -/
def protection (s : Story) : Protection := ⟨s.header.staticBase, s.header.highBase⟩

/-- How the story writes its text. -/
def script (s : Story) : Script := ⟨s.header.version, some s.header.abbreviations⟩

/-- Memory as the story starts with it. -/
def freshMemory (s : Story) : Memory := s.image.clearInterpreterFields

/-- Memory after a restart, which keeps the transcript and fixed pitch bits. -/
def restartedMemory (s : Story) (m : Memory) : Memory := s.freshMemory.withSessionBits m.sessionBits

/-! ## Globals and names -/

/-- The address of a global variable, counted from 0. -/
def globalAddress (s : Story) (x : UInt8) : Address := s.header.globals + x.toUInt32 * 2

def readGlobal (s : Story) (m : Memory) (x : UInt8) : Except Fault UInt16 :=
  m.word (s.globalAddress x)

/-- Writes a global variable.  One in static memory cannot be written. -/
def writeGlobal (s : Story) (x : UInt8) (v : UInt16) : Edit Unit :=
  s.protection.writeWord (s.globalAddress x) v

/-- The text at `a` and the address behind it. -/
def textAt (s : Story) (m : Memory) (a : Address) : Except Fault (List Char × Address) :=
  s.script.decode m a

/-- The short name of an object. -/
def objectName (s : Story) (m : Memory) (o : UInt16) : Except Fault (List Char) := do
  let (a, named) ← s.objects.nameAddress m o
  if named then return (← s.textAt m a).1 else return []

end Story

end ZCode
