/-
  What a story sends to its screen, and a screen that keeps it all.
-/
namespace ZCode

/-- The contents of a status line: hours and minutes in a time game, else score and turns. -/
structure StatusLine where
  location : String := ""
  timeGame : Bool := false
  hours : Int := 0
  minutes : Int := 0
  score : Int := 0
  turns : Int := 0
  deriving DecidableEq, Repr, Inhabited

/-- One message to the screen. -/
inductive OutputCall where
  /-- Text without a new line. -/
  | print (text : String)
  | newLine
  | status (line : StatusLine)
  /-- What was printed so far must now be shown. -/
  | flush
  deriving DecidableEq, Repr, Inhabited

/-- A screen that keeps what it receives, a text for each flush. -/
structure Capture where
  /-- What was printed since the last flush. -/
  pending : String := ""
  /-- What was printed up to each flush. -/
  flushed : Array String := #[]
  status : StatusLine := {}
  deriving DecidableEq, Repr, Inhabited

namespace Capture

/-- Takes one message.  A flush of nothing leaves no trace. -/
def receive (c : Capture) : OutputCall → Capture
  | .print text => { c with pending := c.pending ++ text }
  | .newLine => { c with pending := c.pending.push '\n' }
  | .status line => { c with status := line }
  | .flush =>
    if c.pending.isEmpty then c else { c with pending := "", flushed := c.flushed.push c.pending }

/-- Everything printed, flushed or not. -/
def text (c : Capture) : String := String.join c.flushed.toList ++ c.pending

end Capture

end ZCode
