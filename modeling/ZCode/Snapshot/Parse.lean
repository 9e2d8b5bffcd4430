/-
  Reading the written form of snapshots.

  Every part is read over what is already there: null leaves a number or a text as it is and takes a
  list away, fields with unknown names are passed over, and a field that occurs again is read over
  the earlier one.  Names are compared without regard to case.
-/
import ZCode.Json.Parse
import ZCode.Snapshot

namespace ZCode.Snapshot

/-! ## Numbers, texts and lists -/

/-- The value of a sequence of decimal digits behind `n`. -/
def digitsValue? (n : Nat) : List Char → Option Nat
  | [] => some n
  | c :: rest => if c.isDigit then digitsValue? (n * 10 + (c.toNat - 48)) rest else none

/-- The value of an unsigned decimal number. -/
def natValue? (literal : List Char) : Option Nat :=
  if literal.isEmpty then none else digitsValue? 0 literal

/-- The value of a decimal number. -/
def intValue? : List Char → Option Int
  | '-' :: digits => (natValue? digits).map fun (n : Nat) => -(n : Int)
  | digits => (natValue? digits).map fun (n : Nat) => (n : Int)

/-- Reads a signed number of 64 bits over `old`. -/
def readInt (old : Int) : Json → Option Int
  | .null => some old
  | .number literal => do
    let n ← intValue? literal
    if -0x8000000000000000 ≤ n ∧ n < 0x8000000000000000 then some n else none
  | _ => none

/-- Reads an unsigned number below `bound` over `old`. -/
def readNat (bound old : Nat) : Json → Option Nat
  | .null => some old
  | .number literal => do
    let n ← natValue? literal
    if n < bound then some n else none
  | _ => none

def readWord (old : UInt16) (v : Json) : Option UInt16 :=
  (readNat 0x10000 old.toNat v).map UInt16.ofNat

def readByte (old : UInt8) (v : Json) : Option UInt8 := (readNat 0x100 old.toNat v).map UInt8.ofNat

def readAddress (old : Address) (v : Json) : Option Address :=
  (readNat 0x100000000 old.toNat v).map UInt32.ofNat

/-- Reads a number that may be missing. -/
def readInt? : Json → Option (Option Int)
  | .null => some none
  | v => do return some (← readInt 0 v)

def readText (old : String) : Json → Option String
  | .null => some old
  | .text chars => some (String.ofList chars)
  | _ => none

/-- Reads items, each over the old one at its place or else over `fresh`, behind those in `done`, the
last one first. -/
def readItems {α : Type} (read : α → Json → Option α) (fresh : α) (done : List α) :
    List α → List Json → Option (List α)
  | _, [] => some done.reverse
  | old, v :: items => do
    let item ← read (old.headD fresh) v
    readItems read fresh (item :: done) old.tail items

/-- Reads a list over `old`. -/
def readList {α : Type} (read : α → Json → Option α) (fresh : α) (old : Option (List α)) :
    Json → Option (Option (List α))
  | .null => some none
  | .array items => do return some (← readItems read fresh [] (old.getD []) items)
  | _ => none

/-- Reads memory over `old`: base 64 or a list of bytes. -/
def readMemory (old : Option Memory) : Json → Option (Option Memory)
  | .text chars => do return some ⟨(← Base64.decode chars).toArray⟩
  | v => do
    let bytes ← readList readByte 0 (old.map fun m => m.bytes.toList) v
    return bytes.map fun bytes => ⟨bytes.toArray⟩

/-! ## Objects -/

/-- A letter in the case in which names are compared.  Besides the capitals, the long s and the kelvin
sign have a plain letter as their other case. -/
def foldCase (c : Char) : Char :=
  if c = Char.ofNat 0x17F then 's' else if c = Char.ofNat 0x212A then 'k' else c.toLower

/-- Reads the fields of an object over `old`. -/
def readObject {α : Type} (readField : α → String → Json → Option α) (old : α) : Json → Option α
  | .null => some old
  | .object fields =>
    fields.foldlM (fun value (key, v) => readField value (String.ofList (key.map foldCase)) v) old
  | _ => none

def readFrameField (f : SavedFrame) (name : String) (v : Json) : Option SavedFrame :=
  match name with
  | "locals" => do return { f with locals := ← readList readWord 0 f.locals v }
  | "stack" => do return { f with stack := ← readList readWord 0 f.stack v }
  | "store_to" => do return { f with storeTo := ← readInt? v }
  | "return_to" => do return { f with returnTo := ← readAddress f.returnTo v }
  | _ => some f

def readFrame (old : SavedFrame) (v : Json) : Option SavedFrame := readObject readFrameField old v

def readSnapshotField (d : Snapshot) (name : String) (v : Json) : Option Snapshot :=
  match name with
  | "version" => do return { d with version := ← readInt d.version v }
  | "checksum" => do return { d with checksum := ← readText d.checksum v }
  | "memory" => do return { d with memory := ← readMemory d.memory v }
  | "routines" => do return { d with frames := ← readList readFrame {} d.frames v }
  | "pc" => do return { d with pc := ← readAddress d.pc v }
  | _ => some d

/-- The snapshot of a JSON value. -/
def ofJson? (v : Json) : Option Snapshot := readObject readSnapshotField {} v

/-- The snapshot of a written form. -/
def parse (chars : List Char) : Except Fault Snapshot :=
  match (Json.parse? chars).bind ofJson? with
  | some d => .ok d
  | none => .error (.snapshot .malformed)

end ZCode.Snapshot
