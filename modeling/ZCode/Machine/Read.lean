/-
  Reading a line: it is stored in the text buffer, and its words are described in the parse buffer.
-/
import ZCode.Machine

namespace ZCode.Machine

variable [Stray]

/-- The line without the carriage returns and new lines at its end. -/
def trimLineEnd (line : List Char) : List Char :=
  (line.reverse.dropWhile fun c => c = '\r' ∨ c = '\n').reverse

/-- The line as it is stored: in lower case, with question marks for characters outside ZSCII. -/
def lineCodes (line : String) : List UInt8 :=
  (trimLineEnd line.toList).map fun c => (Zscii.code? (lowered c)).getD Zscii.unknown

/-- Writes bytes from `a` on. -/
def writeBytes (a : Address) : List UInt8 → Run Unit
  | [] => return ()
  | b :: bytes => do
    writeByte a b
    writeBytes (a + 1) bytes

/-- The entry of a word, 0 if it has none or cannot be encoded. -/
def entryOf (story : Story) (word : List UInt8) : Address :=
  match story.dictionary.lookup story.script word with
  | .ok (some a) => a
  | _ => 0

/-- Writes the blocks of tokens from `block` on: the address of the entry, the length of the word,
and its place in the text buffer. -/
def writeTokens (block : Address) : List Token → Run Unit
  | [] => return ()
  | t :: tokens => do
    let entry := entryOf (← get).story t.word
    writeWord block entry.toUInt16
    writeByte (block + 2) (UInt8.ofNat t.word.length)
    writeByte (block + 3) (UInt8.ofNat (t.start + 1))
    writeTokens (block + 4) tokens

/-- Stores a line in the buffers of a read, as much of it as there is room for. -/
def completeRead (r : PendingRead) (line : String) : Run Unit := do
  let room ← readByte r.textBuffer
  if room = 0 then throw (.instruction (.noRoomForText r.textBuffer))
  let codes := (lineCodes line).take (room.toNat - 1)
  writeBytes (r.textBuffer + 1) (codes ++ [0])
  let maxTokens ← readByte r.parseBuffer
  let tokens := ((← get).story.dictionary.split codes).take maxTokens.toNat
  writeByte (r.parseBuffer + 1) (UInt8.ofNat tokens.length)
  writeTokens (r.parseBuffer + 2) tokens

/-- Completes a read if there is a line for it. -/
def resumeRead (r : PendingRead) : Run Unit := do
  match (← get).input.read? with
  | none => return ()
  | some (line, input) =>
    modify fun z => { z with input }
    completeRead r line
    modify fun z =>
      { z with state := .running, pendingRead := none, pc := r.next,
               input := { z.input with waiting := false } }

end ZCode.Machine
