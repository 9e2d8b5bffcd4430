/-
  The tokens of a JSON text.

  `Json.tokens?` reads the text character by character.  Words and numbers are runs of characters
  that are looked at when they end.  In strings, an escaped half of a surrogate pair joins with the
  other half behind or before it, and stands for the replacement character without it.
-/
import ZCode.Json

namespace ZCode.Json

inductive Token where
  | leftBrace
  | rightBrace
  | leftBracket
  | rightBracket
  | comma
  | colon
  | null
  | bool (b : Bool)
  | number (literal : List Char)
  | text (chars : List Char)
  deriving DecidableEq, Repr, Inhabited

/-! ## Numbers and words -/

/-- What follows at least one digit. -/
def afterDigits : List Char → Option (List Char)
  | [] => none
  | c :: rest => if c.isDigit then some (rest.dropWhile Char.isDigit) else none

/-- What follows the integer part, which has no leading zero. -/
def afterInteger : List Char → Option (List Char)
  | '0' :: rest => some rest
  | rest => afterDigits rest

/-- What follows the fraction, if there is one. -/
def afterFraction : List Char → Option (List Char)
  | '.' :: rest => afterDigits rest
  | rest => some rest

/-- The text without a sign in front. -/
def afterSign : List Char → List Char
  | '+' :: rest => rest
  | '-' :: rest => rest
  | rest => rest

/-- What follows the exponent, if there is one. -/
def afterExponent : List Char → Option (List Char)
  | 'e' :: rest => afterDigits (afterSign rest)
  | 'E' :: rest => afterDigits (afterSign rest)
  | rest => some rest

/-- The text without a minus in front. -/
def afterMinus : List Char → List Char
  | '-' :: rest => rest
  | rest => rest

/-- Whether the whole text is a number. -/
def isNumber (chars : List Char) : Bool :=
  (do afterExponent (← afterFraction (← afterInteger (afterMinus chars)))) == some []

/-- The token of a word or a number. -/
def bareToken? (chars : List Char) : Option Token :=
  if chars = "null".toList then some .null
  else if chars = "true".toList then some (.bool true)
  else if chars = "false".toList then some (.bool false)
  else if isNumber chars then some (.number chars)
  else none

/-! ## Strings -/

def isHighSurrogate (u : Nat) : Bool := 0xD800 ≤ u && u < 0xDC00

def isLowSurrogate (u : Nat) : Bool := 0xDC00 ≤ u && u < 0xE000

/-- The character of a surrogate pair. -/
def pairedUnits (high low : Nat) : Char :=
  Char.ofNat (0x10000 + (high - 0xD800) * 0x400 + (low - 0xDC00))

/-- A part of a string. -/
structure Content where
  /-- Its characters, the last one first. -/
  chars : List Char := []
  /-- The unit behind the last character, if that is half of a surrogate pair whose other half may
  follow. -/
  high : Option Nat := none
  deriving DecidableEq, Repr, Inhabited

namespace Content

def addChar (s : Content) (c : Char) : Content := { chars := c :: s.chars }

/-- Adds an escaped UTF-16 unit. -/
def addUnit (s : Content) (u : Nat) : Content :=
  if isHighSurrogate u then { chars := Char.ofNat 0xFFFD :: s.chars, high := some u }
  else if isLowSurrogate u then
    match s.high with
    | some high => { chars := pairedUnits high u :: s.chars.tail }
    | none => s.addChar (Char.ofNat 0xFFFD)
  else s.addChar (Char.ofNat u)

end Content

/-- The character of a short escape. -/
def shortEscape? (c : Char) : Option Char :=
  if c = '"' ∨ c = '\\' ∨ c = '/' then some c
  else if c = 'b' then some (Char.ofNat 8)
  else if c = 'f' then some (Char.ofNat 12)
  else if c = 'n' then some '\n'
  else if c = 'r' then some '\r'
  else if c = 't' then some '\t'
  else none

/-- The value of a digit in base 16. -/
def hexValue? (c : Char) : Option Nat :=
  if '0' ≤ c ∧ c ≤ '9' then some (c.toNat - 48)
  else if 'a' ≤ c ∧ c ≤ 'f' then some (c.toNat - 87)
  else if 'A' ≤ c ∧ c ≤ 'F' then some (c.toNat - 55)
  else none

/-! ## Scanning -/

/-- What the next character belongs to. -/
inductive Mode where
  | between
  /-- A word or a number, given from its end. -/
  | bare (chars : List Char)
  | inside (content : Content)
  /-- Behind the backslash of an escape. -/
  | escaped (content : Content)
  /-- In an escaped unit, with `left` digits to come behind the next one. -/
  | unit (content : Content) (left value : Nat)
  deriving DecidableEq, Repr, Inhabited

/-- How far a text has been scanned. -/
structure Scan where
  /-- The tokens so far, the last one first. -/
  tokens : List Token := []
  mode : Mode := .between
  deriving DecidableEq, Repr, Inhabited

def isBlank (c : Char) : Bool := c == ' ' || c == '\t' || c == '\n' || c == '\r'

/-- Whether words and numbers may hold `c`. -/
def isBare (c : Char) : Bool := c.isAlphanum || c == '+' || c == '-' || c == '.'

def punctuation? (c : Char) : Option Token :=
  if c = '{' then some .leftBrace
  else if c = '}' then some .rightBrace
  else if c = '[' then some .leftBracket
  else if c = ']' then some .rightBracket
  else if c = ',' then some .comma
  else if c = ':' then some .colon
  else none

/-- Takes a character between tokens. -/
def startToken (tokens : List Token) (c : Char) : Option Scan :=
  if isBlank c then some { tokens }
  else if c = '"' then some { tokens, mode := .inside {} }
  else if isBare c then some { tokens, mode := .bare [c] }
  else (punctuation? c).map fun t => { tokens := t :: tokens }

/-- Takes the next character. -/
def Scan.step (s : Scan) (c : Char) : Option Scan :=
  match s.mode with
  | .between => startToken s.tokens c
  | .bare chars =>
    if isBare c then some { s with mode := .bare (c :: chars) }
    else do startToken ((← bareToken? chars.reverse) :: s.tokens) c
  | .inside content =>
    if c = '"' then some { tokens := .text content.chars.reverse :: s.tokens }
    else if c = '\\' then some { s with mode := .escaped content }
    else if c.toNat < 0x20 then none
    else some { s with mode := .inside (content.addChar c) }
  | .escaped content =>
    if c = 'u' then some { s with mode := .unit content 3 0 }
    else do return { s with mode := .inside (content.addChar (← shortEscape? c)) }
  | .unit content left value => do
    let value := value * 16 + (← hexValue? c)
    match left with
    | 0 => return { s with mode := .inside (content.addUnit value) }
    | left + 1 => return { s with mode := .unit content left value }

/-- The tokens of a text that has been scanned to its end. -/
def Scan.finish (s : Scan) : Option (List Token) :=
  match s.mode with
  | .between => some s.tokens.reverse
  | .bare chars => do return ((← bareToken? chars.reverse) :: s.tokens).reverse
  | _ => none

/-- The tokens of a text. -/
def tokens? (chars : List Char) : Option (List Token) := do (← chars.foldlM Scan.step {}).finish

end ZCode.Json
