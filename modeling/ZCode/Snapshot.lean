/-
  Snapshots of a machine and their written form.

  * `Snapshot` is what a save keeps.  Any value of the type may be handed to a restore, which looks
    at it first, so its fields are as wide as the written form.
  * `Snapshot.render` writes it as JSON.
-/
import ZCode.Base64
import ZCode.Frame
import ZCode.Json
import ZCode.Memory

namespace ZCode

/-- A frame in a snapshot.  Empty lists may be missing. -/
structure SavedFrame where
  locals : Option (List UInt16) := none
  /-- The evaluation stack, its top last. -/
  stack : Option (List UInt16) := none
  storeTo : Option Int := none
  returnTo : Address := 0
  deriving DecidableEq, Repr, Inhabited

/-- A snapshot: memory, the frames from the outermost on, and the address of the save instruction. -/
structure Snapshot where
  version : Int := 0
  checksum : String := ""
  memory : Option Memory := none
  frames : Option (List SavedFrame) := none
  pc : Address := 0
  deriving DecidableEq, Inhabited

/-- A list as a snapshot keeps it: nothing if it is empty. -/
def Snapshot.nonempty (values : List UInt16) : Option (List UInt16) :=
  if values.isEmpty then none else some values

namespace SavedFrame

/-- A frame as a snapshot keeps it. -/
def ofFrame (f : Frame) : SavedFrame :=
  { locals := Snapshot.nonempty f.locals, stack := Snapshot.nonempty f.stack.reverse,
    storeTo := f.store.map fun v => (v.toNat : Int), returnTo := f.returnTo }

/-- The frame of a saved one. -/
def toFrame (f : SavedFrame) : Frame :=
  { locals := f.locals.getD [], stack := (f.stack.getD []).reverse,
    store := f.storeTo.map UInt8.ofInt, returnTo := f.returnTo }

end SavedFrame

/-! ## Written form -/

namespace Snapshot

def intJson (n : Int) : Json := .number (toString n).toList

def natJson (n : Nat) : Json := .number (toString n).toList

/-- A value, or null if there is none. -/
def orNull {α : Type} (toJson : α → Json) : Option α → Json
  | some value => toJson value
  | none => .null

/-- A list, or null if there is none. -/
def listJson {α : Type} (toJson : α → Json) : Option (List α) → Json :=
  orNull fun values => .array (values.map toJson)

def frameJson (f : SavedFrame) : Json := .object [
  ("locals".toList, listJson (natJson ·.toNat) f.locals),
  ("stack".toList, listJson (natJson ·.toNat) f.stack),
  ("store_to".toList, orNull intJson f.storeTo),
  ("return_to".toList, natJson f.returnTo.toNat)]

/-- The snapshot as JSON, memory in base 64. -/
def toJson (d : Snapshot) : Json := .object [
  ("version".toList, intJson d.version),
  ("checksum".toList, .text d.checksum.toList),
  ("memory".toList, orNull (fun m => .text (Base64.encode m.bytes.toList)) d.memory),
  ("routines".toList, listJson frameJson d.frames),
  ("pc".toList, natJson d.pc.toNat)]

/-- The written form of a snapshot. -/
def render (d : Snapshot) : String := String.ofList d.toJson.render

end Snapshot

end ZCode
