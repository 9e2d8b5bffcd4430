/-
  The dictionary: the words a story knows, and how a typed line is cut into words.

  * `Dictionary.read` reads the table, with the encoded form of every entry.
  * `Dictionary.split` cuts a line, given in bytes, into tokens.
  * `Dictionary.lookup` finds the entry of a word.
-/
import ZCode.Script
import ZCode.Text.Utf8

namespace ZCode

/-- A dictionary table. -/
structure Dictionary where
  /-- Characters that are words of their own. -/
  separators : List UInt8
  entryLength : UInt8
  /-- Where the first entry stands. -/
  entries : Address
  /-- The encoded words of the entries, in order. -/
  keys : Array UInt32
  deriving DecidableEq, Repr, Inhabited

/-- A word of a line and where it starts. -/
structure Token where
  word : List UInt8
  start : Nat
  deriving DecidableEq, Repr, Inhabited

namespace Dictionary

variable [Stray]

/-- How many bytes an encoded word takes. -/
def wordBytes : Nat := 4

/-! ## Reading the table -/

/-- The keys of `n` entries from `entry` on, behind those in `keys`. -/
def readKeys (m : Memory) (length : Address) : Nat → Address → Array UInt32 →
    Except Fault (Array UInt32)
  | 0, _, keys => .ok keys
  | n + 1, entry, keys =>
    if m.size < entry.toNat + wordBytes then .error (.story .dictionaryPastEnd)
    else readKeys m length n (entry + length) (keys.push (m.getLong entry.toNat))

/-- Reads the table at `a`: the separators, the length of an entry, and the entries. -/
def read (m : Memory) (a : Address) : Except Fault Dictionary := do
  let separatorCount ← m.byte a
  let separators ← (List.range separatorCount.toNat).mapM fun i => m.byte (a + 1 + UInt32.ofNat i)
  let p := a + 1 + separatorCount.toUInt32
  let entryLength ← m.byte p
  if entryLength.toNat < wordBytes then throw (.story .shortDictionaryEntries)
  let count ← m.word (p + 1)
  let keys ← readKeys m entryLength.toUInt32 count.toNat (p + 3) #[]
  return { separators, entryLength, entries := p + 3, keys }

def size (d : Dictionary) : Nat := d.keys.size

/-! ## Tokens -/

/-- The token of the bytes `run` (the last one first) that end before `position`, if there are any. -/
def wordBefore (run : List UInt8) (position : Nat) : List Token :=
  if run.isEmpty then [] else [⟨run.reverse, position - run.length⟩]

/-- The tokens of `line`, which starts at `position`, behind the unfinished word `run`. -/
def splitFrom (separators : List UInt8) (position : Nat) (run : List UInt8) :
    List UInt8 → List Token
  | [] => wordBefore run position
  | b :: line =>
    if b = 32 then wordBefore run position ++ splitFrom separators (position + 1) [] line
    else if b ∈ separators then
      wordBefore run position ++
        ⟨Utf8.encode [Char.ofNat b.toNat], position⟩ :: splitFrom separators (position + 1) [] line
    else splitFrom separators (position + 1) (b :: run) line

/-- The words of a line.  Separators are words of their own, spaces only end words.  The word of a
separator is its character's text. -/
def split (d : Dictionary) (line : List UInt8) : List Token := splitFrom d.separators 0 [] line

/-! ## Looking words up -/

/-- The position between `low` and `high` at which halving the interval ends: at each middle it goes
on behind a smaller key and before any other. -/
def bisect (keys : Array UInt32) (key : UInt32) (low high : Nat) : Nat :=
  if low < high then
    let middle := (low + high) / 2
    if keys.getD middle 0 < key then bisect keys key (middle + 1) high
    else bisect keys key low middle
  else low
  termination_by high - low

/-- A search in a table of keys: it gives a place, and whether the key stands there. -/
abbrev Search := Array UInt32 → UInt32 → Nat × Bool

/-- The search by halving. -/
def halve : Search := fun keys key =>
  let i := bisect keys key 0 keys.size
  (i, keys[i]? == some key)

/-- The number of an entry with this key: the one that the search finds, and else the first. -/
def findBy? (search : Search) (d : Dictionary) (key : UInt32) : Option Nat :=
  match search d.keys key with
  | (i, true) => some i
  | (_, false) => d.keys.findIdx? (· == key)

/-- The address of entry number `i`. -/
def entryAddress (d : Dictionary) (i : Nat) : Address :=
  d.entries + UInt32.ofNat i * d.entryLength.toUInt32

/-- The address of the entry of a word, if there is one. -/
def lookupBy (search : Search) (d : Dictionary) (s : Script) (word : List UInt8) :
    Except Fault (Option Address) := do
  let encoded ← s.encode (Utf8.decode word)
  return (d.findBy? search encoded.key).map d.entryAddress

def lookup (d : Dictionary) (s : Script) (word : List UInt8) : Except Fault (Option Address) :=
  d.lookupBy halve s word

end Dictionary

end ZCode
