/-
  Taking snapshots of a machine and restoring them.
-/
import ZCode.Machine
import ZCode.Snapshot

namespace ZCode

namespace Snapshot

/-- The version of the written form. -/
def formatVersion : Int := 1

/-- A checksum as snapshots write it. -/
def checksumText (sum : UInt16) : String := hexLower sum.toNat 4

/-- Whether the frames from number `i` on fit the machine. -/
def checkFrames : Nat → List SavedFrame → Except Fault Unit
  | _, [] => .ok ()
  | i, f :: frames => do
    let locals := (f.locals.getD []).length
    let stack := (f.stack.getD []).length
    if Frame.maxLocals < locals ∨ Frame.maxStack < stack then
      throw (.snapshot (.frameSize i locals stack))
    if let some v := f.storeTo then
      if v < 0 ∨ 0xFF < v then throw (.snapshot (.storeTarget i v))
    checkFrames (i + 1) frames

/-- Whether a snapshot fits a story whose memory has `size` bytes. -/
def check (d : Snapshot) (story : Story) (size : Nat) : Except Fault Unit := do
  if d.version ≠ formatVersion then
    throw (.snapshot (.formatVersion d.version formatVersion))
  if d.checksum ≠ checksumText story.checksum then
    throw (.snapshot (.badChecksum d.checksum (checksumText story.checksum)))
  let found := (d.memory.getD default).size
  if found ≠ size then throw (.snapshot (.memorySize found size))
  let frames := d.frames.getD []
  if frames.isEmpty ∨ CallStack.maxDepth < frames.length then
    throw (.snapshot (.frameCount frames.length))
  checkFrames 0 frames
  if size ≤ d.pc.toNat then throw (.snapshot (.pcOutside d.pc))

end Snapshot

namespace Machine

variable [Stray]

/-- A snapshot of memory, the frames and the program counter. -/
def snapshot (z : Machine) : Snapshot :=
  { version := Snapshot.formatVersion, checksum := Snapshot.checksumText z.story.checksum,
    memory := some z.memory, frames := some (z.calls.frames.map SavedFrame.ofFrame), pc := z.pc }

/-- Replaces memory, the frames and the program counter, if the snapshot fits.  The transcript and
fixed pitch bits belong to the session and stay. -/
def restore (d : Snapshot) : Run Unit := do
  look fun z => d.check z.story z.memory.size
  modify fun z =>
    { z with
      memory := (d.memory.getD default).withSessionBits z.memory.sessionBits
      calls := .ofFrames ((d.frames.getD []).map SavedFrame.toFrame)
      pc := d.pc
      state := .running
      pendingRead := none }

end Machine

end ZCode
