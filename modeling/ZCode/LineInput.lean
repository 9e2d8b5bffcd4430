/-
  Lines of input that wait to be read, and the line that is being typed.
-/
namespace ZCode

/-- A queue of lines.  Hosts push whole lines or type them one character at a time. -/
structure LineInput where
  /-- The lines to be read, the next one first. -/
  lines : List String := []
  /-- The line being typed, its last character first. -/
  typed : List Char := []
  /-- Whether the story waits for a line. -/
  waiting : Bool := false
  deriving DecidableEq, Repr, Inhabited

namespace LineInput

def pending (l : LineInput) : Nat := l.lines.length

def push (l : LineInput) (line : String) : LineInput := { l with lines := l.lines ++ [line] }

/-- The replacement character, which cannot be typed. -/
def replacement : Char := Char.ofNat 0xFFFD

/-- The character with a code; the replacement character if there is none. -/
def charOf (code : Int) : Char :=
  if h : 0 ≤ code ∧ code.toNat.isValidChar then Char.ofNatAux code.toNat h.2 else replacement

/-- Types the character with this code.  Return ends the line, backspace and delete take back the
last character. -/
def press (l : LineInput) (code : Int) : LineInput :=
  if code = 13 ∨ code = 10 then
    { l with lines := l.lines ++ [String.ofList l.typed.reverse], typed := [] }
  else if code = 8 ∨ code = 127 then { l with typed := l.typed.tail }
  else if code = 0xFFFD then l
  else { l with typed := charOf code :: l.typed }

/-- The next line, if there is one, and the input without it. -/
def read? (l : LineInput) : Option (String × LineInput) :=
  match l.lines with
  | [] => none
  | line :: lines => some (line, { l with lines })

end LineInput

end ZCode
