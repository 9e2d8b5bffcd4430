/-
  Printing: to the innermost selected table, or to the screen, unless that is switched off.
-/
import ZCode.Machine

namespace ZCode.Machine

variable [Stray]

/-- The code under which a table keeps a character: 13 for a new line, a question mark for characters
outside ZSCII. -/
def tableCode (c : Char) : UInt8 := if c = '\n' then 13 else (Zscii.code? c).getD Zscii.unknown

/-- Appends a text to the innermost table. -/
def printToTable : List Char → Run Unit
  | [] => return ()
  | c :: text => do
    match (← get).streams.tables with
    | [] => return ()
    | t :: outer =>
      writeByte (t.table + 2 + t.length.toUInt32) (tableCode c)
      modify fun z =>
        { z with streams := { z.streams with tables := { t with length := t.length + 1 } :: outer } }
      printToTable text

/-- A line, given from its end, behind other messages. -/
def sendLine (calls : Array OutputCall) (line : List Char) : Array OutputCall :=
  if line.isEmpty then calls else calls.push (.print (String.ofList line.reverse))

/-- The messages for `text` behind the unfinished `line`: its lines, without the empty ones, and the
new lines between them. -/
def sendText (calls : Array OutputCall) (line : List Char) : List Char → Array OutputCall
  | [] => sendLine calls line
  | c :: text =>
    if c = '\n' then sendText ((sendLine calls line).push .newLine) [] text
    else sendText calls (c :: line) text

/-- Prints a text. -/
def print (text : List Char) : Run Unit := do
  let streams := (← get).streams
  if streams.tables.isEmpty then
    if !streams.screenOff then
      modify fun z => { z with output := sendText z.output [] text }
  else printToTable text

/-- Prints a new line. -/
def newLine : Run Unit := print ['\n']

/-- Prints the text at an address. -/
def printAt (a : Address) : Run Unit := do
  let (text, _) ← look fun z => z.story.textAt z.memory a
  print text

/-- Selects a table. -/
def selectTable (table : Address) : Run Unit := do
  if Streams.maxTables ≤ (← get).streams.tables.length then
    throw (.instruction (.tablesTooDeep Streams.maxTables))
  modify fun z => { z with streams := { z.streams with tables := { table } :: z.streams.tables } }

/-- Deselects the innermost table and writes its length. -/
def deselectTable : Run Unit := do
  match (← get).streams.tables with
  | [] => throw (.instruction .noTableSelected)
  | t :: outer =>
    modify fun z => { z with streams := { z.streams with tables := outer } }
    writeWord t.table t.length

/-! ## The status line -/

/-- The status line: the name of the object in global 0, and globals 1 and 2. -/
def statusLine (z : Machine) : Except Fault StatusLine := do
  let place ← z.story.readGlobal z.memory 0
  let first ← z.story.readGlobal z.memory 1
  let second ← z.story.readGlobal z.memory 2
  let location ← if place = 0 then pure [] else z.story.objectName z.memory place
  let line : StatusLine := { location := String.ofList location }
  if z.memory.isTimeGame then
    return { line with timeGame := true, hours := first.toNat, minutes := second.toNat }
  else return { line with score := signed first, turns := second.toNat }

def showStatus : Run Unit := do send (.status (← look statusLine))

end ZCode.Machine
