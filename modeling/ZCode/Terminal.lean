/-
  A plain terminal: text passes through a buffer, and the status line is drawn in reverse video.
-/
import ZCode.Output
import ZCode.Text.Utf8

namespace ZCode

/-- A terminal and what it holds back. -/
structure Terminal where
  width : Int
  /-- Whether a status line is drawn at all. -/
  statusLine : Bool
  /-- The bytes not yet passed on. -/
  buffer : List UInt8 := []
  deriving DecidableEq, Repr, Inhabited

namespace Terminal

/-- How many bytes are held back at most. -/
def capacity : Nat := 4096

/-- Passes on what is held back. -/
def flush (t : Terminal) : Terminal × List UInt8 := ({ t with buffer := [] }, t.buffer)

/-- Takes bytes.  If they do not fit, the buffer is filled up and passed on, and so is a rest that
would not fit in it either. -/
def write (t : Terminal) (bytes : List UInt8) : Terminal × List UInt8 :=
  let free := capacity - t.buffer.length
  if bytes.length ≤ free then ({ t with buffer := t.buffer ++ bytes }, [])
  else if t.buffer.isEmpty then (t, bytes)
  else
    let rest := bytes.drop free
    if capacity < rest.length then ({ t with buffer := [] }, t.buffer ++ bytes)
    else ({ t with buffer := rest }, t.buffer ++ bytes.take free)

def writeText (t : Terminal) (text : String) : Terminal × List UInt8 :=
  t.write (Utf8.encode text.toList)

/-- Whether a character takes a column.  Control characters and the soft hyphen take none. -/
def takesColumn (c : Char) : Bool :=
  0x20 ≤ c.toNat && c.toNat < 0x7F || 0xA0 ≤ c.toNat && c.toNat != 0xAD

/-- How many columns a text takes. -/
def textWidth (text : String) : Nat := text.toList.countP takesColumn

/-- Two digits at least. -/
def twoDigits (n : Int) : String :=
  let digits := toString n.natAbs
  if n < 0 then "-" ++ digits
  else if digits.length < 2 then "0" ++ digits
  else digits

/-- What stands at the right of a status line. -/
def rightOf (s : StatusLine) : String :=
  if s.timeGame then s!"Time: {s.hours}:{twoDigits s.minutes}"
  else s!"Score: {s.score}  Turns: {s.turns}"

/-- A status line: the location on the left, the score or time on the right, and at least one space
between them. -/
def statusText (width : Int) (s : StatusLine) : String :=
  let right := rightOf s
  let gap := width - textWidth s.location - right.length - 2
  " " ++ s.location ++ String.ofList (List.replicate (max gap 1).toNat ' ') ++ right ++ " "

/-- A text in reverse video. -/
def reversed (text : String) : String := "\x1b[7m" ++ text ++ "\x1b[0m"

/-- Takes one message, and gives what it passes on. -/
def receive (t : Terminal) : OutputCall → Terminal × List UInt8
  | .print text => t.writeText text
  | .newLine => t.write [10]
  | .status line =>
    if t.statusLine then t.writeText ("\n" ++ reversed (statusText t.width line) ++ "\n")
    else (t, [])
  | .flush => t.flush

end Terminal

end ZCode
