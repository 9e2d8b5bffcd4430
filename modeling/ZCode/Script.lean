/-
  Story text: Z-characters, three to a word, of which the last word of a text has its top bit set.

  * `Memory.textWords` reads the words of a text; `Script.decode` is the text at an address and the
    address behind it.
  * `Reading.feed` takes one Z-character; `Script.decodeZChars` a whole sequence.
  * `Script.encode` is the form in which the dictionary keeps a word: the codes of its first
    characters, six in all.
-/
import ZCode.Alphabet
import ZCode.Memory
import ZCode.Text.LowerCase
import ZCode.Zscii

namespace ZCode

/-- How a story writes its text. -/
structure Script where
  version : UInt8
  /-- The table of abbreviations; none in the text of an abbreviation itself. -/
  abbreviations : Option Address
  deriving DecidableEq, Repr, Inhabited

variable [Stray]

/-! ## Words -/

/-- Whether a word ends its text. -/
def endsText (w : UInt16) : Bool := w &&& 0x8000 != 0

/-- The three Z-characters of a word. -/
def zcharsOf (w : UInt16) : List ZChar :=
  [.ofNat (w >>> 10).toNat, .ofNat (w >>> 5).toNat, .ofNat w.toNat]

/-- The words from `n` on, behind those of `seen` (the last one first), up to the one that ends the
text, and the address behind it: memory is to have fewer than `2 ^ 32` bytes. -/
def Memory.textWordsOnto (m : Memory) (seen : List UInt16) (n : Nat) :
    Except Fault (List UInt16 × Nat) :=
  if n + 2 ≤ m.size then
    let w := m.getWord n
    if endsText w then .ok ((w :: seen).reverse, n + 2) else m.textWordsOnto (w :: seen) (n + 2)
  else .error (.access (UInt32.ofNat n) (.beyondEnd m.size))
  termination_by m.size - n

/-- The words of the text at `a` and the address behind it. -/
def Memory.textWords (m : Memory) (a : Address) : Except Fault (List UInt16 × Nat) :=
  m.textWordsOnto [] a.toNat

/-- The words of a text that is held apart from memory.  Words behind its end are left out, and so
is an odd byte. -/
def textWordsOf : List UInt8 → List UInt16
  | high :: low :: rest =>
    let w := wordOf high low
    if endsText w then [w] else w :: textWordsOf rest
  | _ => []

/-! ## Reading -/

/-- What the next Z-character belongs to. -/
inductive Pending where
  /-- A unit of its own. -/
  | fresh
  /-- The number of an abbreviation in the given bank, 1 to 3. -/
  | abbreviation (bank : ZChar)
  /-- The high half of a ten-bit code. -/
  | wideHigh
  /-- The low half of a ten-bit code. -/
  | wideLow (high : ZChar)
  deriving DecidableEq, Repr, Inhabited

/-- How far a text has been read. -/
structure Reading where
  pending : Pending := .fresh
  /-- The alphabet of the next Z-character. -/
  shifted : Alphabet := .a0
  /-- The alphabet of those after it. -/
  base : Alphabet := .a0
  /-- What has been read, the last character first. -/
  text : List Char := []
  deriving DecidableEq, Repr, Inhabited

namespace Reading

/-- Appends `chars`. -/
def emit (r : Reading) (chars : List Char) : Reading := { r with text := chars.reverse ++ r.text }

/-- The reading waits for the number of an abbreviation, if there are any. -/
def startAbbreviation (r : Reading) (expand : Option (Nat → Except Fault (List Char)))
    (z : ZChar) : Except Fault Reading :=
  match expand with
  | none => .error (.text (.nestedAbbreviation z.val))
  | some _ => .ok { r with pending := .abbreviation z }

/-- The Z-characters 1 to 5, whose meaning changed between versions. -/
def special (version : UInt8) (expand : Option (Nat → Except Fault (List Char))) (r : Reading)
    (z : ZChar) : Except Fault Reading :=
  if version = 1 ∨ version = 2 then
    if z.val = 1 then
      if version = 1 then .ok (r.emit ['\n']) else r.startAbbreviation expand z
    else if z.val = 2 then .ok { r with shifted := r.base.next }
    else if z.val = 3 then .ok { r with shifted := r.base.previous }
    else if z.val = 4 then .ok { r with shifted := r.base.next, base := r.base.next }
    else .ok { r with shifted := r.base.previous, base := r.base.previous }
  else if z.val ≤ 3 then r.startAbbreviation expand z
  else if z.val = 4 then .ok { r with shifted := r.base.next }
  else .ok { r with shifted := r.base.previous }

/-- Reads one Z-character.  A shift lasts for one of them.  The text of abbreviation
`32 (bank - 1) + z` is given by `expand`. -/
def feed (version : UInt8) (expand : Option (Nat → Except Fault (List Char))) (r : Reading)
    (z : ZChar) : Except Fault Reading :=
  match r.pending with
  | .abbreviation bank => do
    let textOf := expand.getD fun _ => .ok Stray.letters
    let chars ← textOf (32 * (bank.val - 1) + z.val)
    return { r.emit chars with pending := .fresh, shifted := r.base }
  | .wideHigh => .ok { r with pending := .wideLow z }
  | .wideLow high => do
    let chars ← Zscii.text (UInt16.ofNat (high.val * 32 + z.val))
    return { r.emit chars with pending := .fresh }
  | .fresh =>
    let alphabet := r.shifted
    let r := { r with shifted := r.base }
    if z.val = 0 then .ok (r.emit [' '])
    else if z.val < 6 then r.special version expand z
    else if alphabet = .a2 ∧ z.val = 6 then .ok { r with pending := .wideHigh }
    else .ok (r.emit [alphabet.letter version z])

end Reading

/-- The text of a sequence of Z-characters, given the texts of the abbreviations.  A unit that is cut
off prints nothing. -/
def readZChars (version : UInt8) (expand : Option (Nat → Except Fault (List Char)))
    (zs : List ZChar) : Except Fault (List Char) := do
  let r ← zs.foldlM (Reading.feed version expand) {}
  return r.text.reverse

namespace Script

/-- The text of abbreviation number `index` of the table at `table`.  Its entries are packed
addresses, and their texts have no abbreviations. -/
def abbreviation (s : Script) (m : Memory) (table : Address) (index : Nat) :
    Except Fault (List Char) := do
  let w ← m.word (table + UInt32.ofNat index * 2)
  let (words, _) ← m.textWords (Memory.unpacked w.toUInt32)
  readZChars s.version none (words.flatMap zcharsOf)

/-- The text of a sequence of Z-characters. -/
def decodeZChars (s : Script) (m : Memory) (zs : List ZChar) : Except Fault (List Char) :=
  readZChars s.version (s.abbreviations.map (s.abbreviation m)) zs

/-- The text at `a` and the address behind it. -/
def decode (s : Script) (m : Memory) (a : Address) : Except Fault (List Char × Address) := do
  let (words, next) ← m.textWords a
  let text ← s.decodeZChars m (words.flatMap zcharsOf)
  return (text, UInt32.ofNat next)

/-- The text packed in `bytes`. -/
def decodeBytes (s : Script) (m : Memory) (bytes : List UInt8) : Except Fault (List Char) :=
  s.decodeZChars m ((textWordsOf bytes).flatMap zcharsOf)

end Script

/-! ## Encoding -/

/-- A word as the dictionary keeps it: six Z-characters. -/
structure EncodedWord where
  first : UInt16
  second : UInt16
  deriving DecidableEq, Repr, Inhabited

namespace EncodedWord

def bytes (w : EncodedWord) : List UInt8 :=
  [highByte w.first, lowByte w.first, highByte w.second, lowByte w.second]

/-- The word as one number, by which dictionaries are sorted. -/
def key (w : EncodedWord) : UInt32 := w.first.toUInt32 <<< 16 ||| w.second.toUInt32

end EncodedWord

/-- Three Z-characters in a word whose top bit is clear. -/
def packZChars (x y z : ZChar) : UInt16 :=
  UInt16.ofNat x.val <<< 10 ||| UInt16.ofNat y.val <<< 5 ||| UInt16.ofNat z.val

/-- How many Z-characters an encoded word has. -/
def encodedLength : Nat := 6

namespace Script

/-- The Z-character that shifts to the last alphabet for one character. -/
def symbolShift (s : Script) : ZChar := if s.version < 3 then .ofNat 3 else .ofNat 5

/-- The codes of a character: one for a space or a small letter, two for a character of the last
alphabet, and an escape of four for any other character of ZSCII. -/
def codes? (s : Script) (c : Char) : Option (List ZChar) :=
  if c = ' ' then some [.ofNat 0]
  else match Alphabet.a0.code? s.version c with
    | some z => some [z]
    | none =>
      match Alphabet.a2.code? s.version c with
      | some z => some [s.symbolShift, z]
      | none =>
        (Zscii.code? c).map fun code =>
          [s.symbolShift, .ofNat 6, .ofNat (code.toNat / 32), .ofNat code.toNat]

/-- The codes of `chars` behind those in `codes`, until there are enough of them. -/
def gatherCodes (s : Script) (codes : List ZChar) : List Char → Except Fault (List ZChar)
  | [] => .ok codes
  | c :: chars =>
    if encodedLength ≤ codes.length then .ok codes
    else match s.codes? c with
      | some more => s.gatherCodes (codes ++ more) chars
      | none => .error (.text (.unencodable c))

/-- The text in lower case as a dictionary word: cut or filled up with shifts to six codes, the end
marked in the second word. -/
def encode (s : Script) (text : List Char) : Except Fault EncodedWord := do
  let codes ← s.gatherCodes [] (text.map lowered)
  let code (i : Nat) : ZChar := codes.getD i (.ofNat 5)
  return ⟨packZChars (code 0) (code 1) (code 2), packZChars (code 3) (code 4) (code 5) ||| 0x8000⟩

end Script

end ZCode
