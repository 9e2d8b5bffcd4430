/-
  The object table: attributes, and the tree that hangs on the parent, sibling and child links.

  Objects are numbered from 1; 0 is no object.  Reading goes straight to memory.  Every change goes
  through the protected view, so that a table that reaches into static memory cannot be changed
  there.
-/
import ZCode.Protection

namespace ZCode

/-- An object table: where it stands and how many objects it holds. -/
structure ObjectTable where
  address : Address
  count : UInt16
  deriving DecidableEq, Repr, Inhabited

namespace ObjectTable

variable [Stray]

/-- The greatest number of an attribute. -/
def maxAttribute : UInt16 := 31

/-- The greatest number of a property. -/
def maxProperty : UInt16 := 31

/-- The greatest number of an object. -/
def maxObject : Nat := 255

/-- The size of an object's entry. -/
def entrySize : Nat := 9

/-- The size of the table of default properties in front of the entries. -/
def defaultsSize : Nat := 62

/-- How many objects the table at `a` holds.  The table does not say: the property table of the
first object is taken to follow the last entry, and every entry must lie in memory, which is to have fewer
than `2 ^ 32` bytes. -/
def countObjects (m : Memory) (a : Address) : Nat :=
  let first := a.toNat + defaultsSize
  if m.size < first + entrySize then 0
  else
    let properties := (m.getWord (first + 7)).toNat
    let declared := if first < properties then (properties - first) / entrySize else maxObject
    min (min declared maxObject) ((m.size - first) / entrySize)

/-- The object table at `a`. -/
def locate (m : Memory) (a : Address) : ObjectTable := ⟨a, UInt16.ofNat (countObjects m a)⟩

/-- The table in words. -/
def describe (t : ObjectTable) : String := s!"objects at {t.address.hex} ({t.count.toNat})"

/-- The address of an object's entry: four bytes of attributes, parent, sibling, child, and the
address of its properties. -/
def entry (t : ObjectTable) (o : UInt16) : Except Fault Address :=
  if o = 0 ∨ t.count < o then .error (.instruction (.invalidObject o t.count))
  else .ok (t.address + UInt32.ofNat defaultsSize + (o - 1).toUInt32 * UInt32.ofNat entrySize)

/-! ## Links -/

/-- The places of the links in an entry. -/
inductive Link where
  | parent
  | sibling
  | child
  deriving DecidableEq, Repr, Inhabited

def Link.offset : Link → Address
  | .parent => 4
  | .sibling => 5
  | .child => 6

/-- A link of an object.  No object has no links. -/
def link (t : ObjectTable) (m : Memory) (l : Link) (o : UInt16) : Except Fault UInt16 := do
  if o = 0 then return 0
  let e ← t.entry o
  return (m.get (e + l.offset).toNat).toUInt16

def parent (t : ObjectTable) (m : Memory) (o : UInt16) : Except Fault UInt16 := t.link m .parent o

def sibling (t : ObjectTable) (m : Memory) (o : UInt16) : Except Fault UInt16 := t.link m .sibling o

def child (t : ObjectTable) (m : Memory) (o : UInt16) : Except Fault UInt16 := t.link m .child o

/-- Writes a link of an object. -/
def setLink (t : ObjectTable) (p : Protection) (l : Link) (o : UInt16) (v : UInt16) : Edit Unit := do
  let e ← Edit.read fun _ => t.entry o
  p.writeByte (e + l.offset) v.toUInt8

/-! ## Attributes -/

/-- Whether an object has an attribute.  Attribute 0 is the top bit of the first byte.  No object has
no attributes. -/
def testAttribute (t : ObjectTable) (m : Memory) (o n : UInt16) : Except Fault Bool := do
  if maxAttribute < n then throw (.instruction (.attributeRange n))
  if o = 0 then return false
  let e ← t.entry o
  return m.getLong e.toNat &&& (1 <<< (31 - n.toUInt32)) != 0

/-- Gives or takes an attribute.  For no object nothing happens. -/
def setAttribute (t : ObjectTable) (p : Protection) (o n : UInt16) (on : Bool) : Edit Unit := do
  if maxAttribute < n then throw (.instruction (.attributeRange n))
  if o = 0 then return ()
  let e ← Edit.read fun _ => t.entry o
  let a := e + (n >>> 3).toUInt32
  let b ← Edit.read fun m => return m.get a.toNat
  p.writeByte a (withBit b (7 - n.toNat % 8) on)

/-! ## Moving objects -/

/-- The object among `parent`'s children whose sibling is `o`, searched from `before` on through at
most `steps` of them. -/
def findBefore (t : ObjectTable) (m : Memory) (o parent : UInt16) : Nat → UInt16 →
    Except Fault UInt16
  | 0, _ => .error (.instruction (.notAmongChildren o parent))
  | steps + 1, before =>
    if before = 0 then .error (.instruction (.notAmongChildren o parent))
    else do
      let next ← t.sibling m before
      if next = o then return before else t.findBefore m o parent steps next

/-- Takes an object out of its parent.  The order of the other children stays.  Nothing happens to no
object, and to an object without a parent. -/
def remove (t : ObjectTable) (p : Protection) (o : UInt16) : Edit Unit := do
  if o = 0 then return ()
  let parent ← Edit.read (t.parent · o)
  if parent = 0 then return ()
  let first ← Edit.read (t.child · parent)
  let sibling ← Edit.read (t.sibling · o)
  if first = o then t.setLink p .child parent sibling
  else
    let before ← Edit.read (t.findBefore · o parent (t.count.toNat + 1) first)
    t.setLink p .sibling before sibling
  t.setLink p .parent o 0
  t.setLink p .sibling o 0

/-- Makes an object the first child of `parent`, or takes it out if that is no object. -/
def insert (t : ObjectTable) (p : Protection) (o parent : UInt16) : Edit Unit := do
  if o = 0 then return ()
  if parent = 0 then t.remove p o
  else
    if o = parent then throw (.instruction (.insertIntoItself o))
    t.remove p o
    let first ← Edit.read (t.child · parent)
    t.setLink p .sibling o first
    t.setLink p .child parent o
    t.setLink p .parent o parent

end ObjectTable

end ZCode
