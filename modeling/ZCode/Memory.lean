/-
  Story memory: a fixed number of bytes, read and written with bounds checks.

  * `Memory.get`, `Memory.put` stray past the end; `byte`, `word`, `setByte`, `setWord` and the rest
    check that every byte they touch exists.
  * Addresses have 32 bits, and so memory is taken to have fewer than `2 ^ 32` bytes.
  * `Edit` is a change of memory that may fault.  It says which memory was reached also when it
    faults, since what was written before the fault stays written.
-/
import ZCode.Stray
import ZCode.Word

namespace ZCode

/-- The bytes of a story in memory. -/
structure Memory where
  bytes : Array UInt8
  deriving DecidableEq, Inhabited

/-- A change of memory that may fault, and the memory it reached in either case. -/
abbrev Edit := EStateM Fault Memory

/-- Reads without changing anything. -/
def Edit.read {α : Type} (f : Memory → Except Fault α) : Edit α := fun m =>
  match f m with
  | .ok a => .ok a m
  | .error fault => .error fault m

namespace Memory

/-- The number of bytes, below `2 ^ 32`. -/
def size (m : Memory) : Nat := m.bytes.size

section
variable [Stray]

/-- The byte at `n`. -/
def get (m : Memory) (n : Nat) : UInt8 := m.bytes.getD n (Stray.byte n)

/-- The word at `n`. -/
def getWord (m : Memory) (n : Nat) : UInt16 := wordOf (m.get n) (m.get (n + 1))

/-- The four bytes at `n` as one number, high byte first. -/
def getLong (m : Memory) (n : Nat) : UInt32 :=
  (m.getWord n).toUInt32 <<< 16 ||| (m.getWord (n + 2)).toUInt32

/-- The memory with `v` at `n`. -/
def put (m : Memory) (n : Nat) (v : UInt8) : Memory :=
  ⟨if n < m.size then m.bytes.setIfInBounds n v else Stray.bytes m.bytes⟩

def putWord (m : Memory) (n : Nat) (w : UInt16) : Memory :=
  (m.put n (highByte w)).put (n + 1) (lowByte w)

end

/-- Past the end nothing changes. -/
theorem put_eq (m : Memory) (n : Nat) (v : UInt8) : m.put n v = ⟨m.bytes.setIfInBounds n v⟩ := by
  unfold put
  split
  · rfl
  · rw [Array.setIfInBounds_eq_of_size_le (Nat.not_lt.1 ‹_›)]
    rfl

@[simp] theorem size_put (m : Memory) (n : Nat) (v : UInt8) : (m.put n v).size = m.size := by
  simp [size, put_eq]

@[simp] theorem get_put_self {m : Memory} {n : Nat} (h : n < m.size) (v : UInt8) :
    (m.put n v).get n = v := by
  have h' : n < m.bytes.size := h
  simp [get, put_eq, Array.getD, h']

@[simp] theorem get_put_of_ne {n k : Nat} (h : n ≠ k) (m : Memory) (v : UInt8) :
    (m.put n v).get k = m.get k := by
  simp [get, put_eq, Array.getD_eq_getD_getElem?, Array.getElem?_setIfInBounds_ne h]

/-! ## Checked access -/

variable [Stray]

/-- Whether the `n` bytes from `a` on exist. -/
def check (m : Memory) (a : Address) (n : Nat) : Except Fault Unit :=
  if a.toNat + n ≤ m.size then .ok () else .error (.access a (.beyondEnd m.size))

def byte (m : Memory) (a : Address) : Except Fault UInt8 := do
  m.check a 1
  return m.get a.toNat

def word (m : Memory) (a : Address) : Except Fault UInt16 := do
  m.check a 2
  return m.getWord a.toNat

/-- Writes a byte. -/
def setByte (a : Address) (v : UInt8) : Edit Unit := do
  Edit.read (·.check a 1)
  modify (·.put a.toNat v)

/-- Writes a word. -/
def setWord (a : Address) (w : UInt16) : Edit Unit := do
  Edit.read (·.check a 2)
  modify (·.putWord a.toNat w)

/-- Whether bit `i` of the byte at `a` is set. -/
def flag (m : Memory) (a : Address) (i : Nat) : Except Fault Bool := do
  if i > 7 then throw (.access a (.bitRange i))
  return bitOf (← m.byte a) i

/-- Sets or clears bit `i` of the byte at `a`. -/
def setFlag (a : Address) (i : Nat) (on : Bool) : Edit Unit := do
  if i > 7 then throw (.access a (.bitRange i))
  let b ← Edit.read (·.byte a)
  modify (·.put a.toNat (withBit b i on))

/-- The byte address of a packed address. -/
def unpacked (packed : Address) : Address := packed * 2

/-- The byte address of the packed address `w`, if it lies in memory. -/
def unpack (m : Memory) (w : UInt16) : Except Fault Address := do
  m.check (unpacked w.toUInt32) 1
  return unpacked w.toUInt32

/-- The byte address of the packed address stored at `a`. -/
def packedWord (m : Memory) (a : Address) : Except Fault Address := do m.unpack (← m.word a)

end Memory

end ZCode
