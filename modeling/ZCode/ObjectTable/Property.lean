/-
  Properties of objects.

  An object's properties stand in a table of their own: the length of its short name in words, the
  name, and entries sorted by number from high to low.  An entry is a byte with the number in its low
  five bits and the length less one in its high three, and that many bytes of data; a zero byte ends
  the list.
-/
import ZCode.ObjectTable

namespace ZCode.ObjectTable

variable [Stray]

/-- The data of a property. -/
structure PropertyData where
  address : Address
  size : UInt16
  deriving DecidableEq, Repr, Inhabited

/-- The number in the first byte of a property's entry. -/
def propertyNumber (head : UInt8) : UInt16 := (head &&& 0x1F).toUInt16

/-- The size of the data behind the first byte of a property's entry. -/
def propertySize (head : UInt8) : UInt16 := (head >>> 5).toUInt16 + 1

/-- The address of an object's property table. -/
def propertyTable (t : ObjectTable) (m : Memory) (o : UInt16) : Except Fault Address := do
  let e ← t.entry o
  return (m.getWord (e + 7).toNat).toUInt32

/-- The address of an object's short name, and whether it has one. -/
def nameAddress (t : ObjectTable) (m : Memory) (o : UInt16) : Except Fault (Address × Bool) := do
  let table ← t.propertyTable m o
  let n ← m.byte table
  return (table + 1, n != 0)

/-- The address of an object's first property entry. -/
def firstProperty (t : ObjectTable) (m : Memory) (o : UInt16) : Except Fault Address := do
  let table ← t.propertyTable m o
  let n ← m.byte table
  return table + n.toUInt32 * 2 + 1

/-- Searches the entries from `n` on for a property.  Behind a smaller number it cannot stand.  An entry has
9 bytes at most, so that `n` stays an address in a memory of up to `2 ^ 32 - 9` bytes. -/
def findProperty (m : Memory) (property : UInt16) (n : Nat) : Except Fault (Option PropertyData) :=
  if n < m.size then
    let head := m.get n
    if head = 0 ∨ propertyNumber head < property then .ok none
    else if propertyNumber head = property then
      .ok (some ⟨UInt32.ofNat (n + 1), propertySize head⟩)
    else findProperty m property (n + 1 + (propertySize head).toNat)
  else .error (.access (UInt32.ofNat n) (.beyondEnd m.size))
  termination_by m.size - n

/-- The data of an object's property, if it has it. -/
def propertyData (t : ObjectTable) (m : Memory) (o property : UInt16) :
    Except Fault (Option PropertyData) := do
  if property < 1 ∨ maxProperty < property then throw (.instruction (.invalidProperty property))
  findProperty m property (← t.firstProperty m o).toNat

/-- The address of a property's data, 0 if the object does not have it. -/
def propertyAddress (t : ObjectTable) (m : Memory) (o property : UInt16) :
    Except Fault Address := do
  match ← t.propertyData m o property with
  | some data => return data.address
  | none => return 0

/-- The size of the data at `a`, 0 at address 0. -/
def propertyLength (m : Memory) (a : Address) : Except Fault UInt16 := do
  if a = 0 then return 0
  return propertySize (← m.byte (a - 1))

/-- The number of the property behind `property`, of the first one for 0, and 0 at the end. -/
def nextProperty (t : ObjectTable) (m : Memory) (o property : UInt16) : Except Fault UInt16 := do
  if property = 0 then
    return propertyNumber (← m.byte (← t.firstProperty m o))
  match ← t.propertyData m o property with
  | some data => return propertyNumber (← m.byte (data.address + data.size.toUInt32))
  | none => throw (.instruction (.noSuchProperty o property))

/-- The value that objects without a property have for it. -/
def defaultProperty (t : ObjectTable) (m : Memory) (property : UInt16) : Except Fault UInt16 := do
  if property < 1 ∨ maxProperty < property then throw (.instruction (.invalidProperty property))
  m.word (t.address + (property - 1).toUInt32 * 2)

/-- The value of a property of one or two bytes. -/
def property (t : ObjectTable) (m : Memory) (o property : UInt16) : Except Fault UInt16 := do
  match ← t.propertyData m o property with
  | none => t.defaultProperty m property
  | some data =>
    if data.size = 1 then return (← m.byte data.address).toUInt16
    else if data.size = 2 then m.word data.address
    else throw (.instruction (.longPropertyRead data.size property o))

/-- Writes a property of one or two bytes. -/
def setProperty (t : ObjectTable) (p : Protection) (o property value : UInt16) : Edit Unit := do
  match ← Edit.read (t.propertyData · o property) with
  | none => throw (.instruction (.noSuchProperty o property))
  | some data =>
    if data.size = 1 then p.writeByte data.address (lowByte value)
    else if data.size = 2 then p.writeWord data.address value
    else throw (.instruction (.longPropertyWrite data.size property o))

end ZCode.ObjectTable
