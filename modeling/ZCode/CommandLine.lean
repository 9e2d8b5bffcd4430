/-
  The command line: options with one or two dashes, then the name of the story.
-/
namespace ZCode

/-- What the command line asks for. -/
structure Options where
  /-- Whether every instruction is logged. -/
  debug : Bool := false
  /-- The seed of the random numbers, 0 for none. -/
  seed : Int := 0
  /-- The width of the status line, 0 for that of the terminal. -/
  width : Int := 0
  story : String := ""
  deriving DecidableEq, Repr, Inhabited

/-- Why the program does not start. -/
inductive Refusal where
  /-- Help was asked for. -/
  | help
  /-- The command line makes no sense. -/
  | usage
  deriving DecidableEq, Repr, Inhabited

namespace Options

/-! ## Values -/

/-- The value of a digit, a letter standing for 10 and more. -/
def digitValue? (c : Char) : Option Nat :=
  if c.isDigit then some (c.toNat - 48)
  else if c.isAlpha then some (c.toLower.toNat - 87)
  else none

/-- The value of digits in a base behind `n`.  Underscores are passed over. -/
def digitsIn? (base n : Nat) : List Char → Option Nat
  | [] => some n
  | c :: rest =>
    if c = '_' then digitsIn? base n rest
    else do
      let d ← digitValue? c
      if d < base then digitsIn? base (n * base + d) rest else none

/-- Whether every underscore stands behind a digit and before one; `behindDigit` says what stands in
front. -/
def underscoresOk (behindDigit : Bool) : List Char → Bool
  | [] => true
  | ['_'] => false
  | c :: rest => if c = '_' then behindDigit && underscoresOk false rest else underscoresOk true rest

/-- The value of a number without sign: binary, octal or hexadecimal with a letter for the base
behind a zero, octal behind a zero alone, and decimal otherwise. -/
def natural? : List Char → Option Nat
  | [] => none
  | '0' :: c :: d :: rest =>
    let digits := d :: rest
    let inBase (base : Nat) : Option Nat :=
      if underscoresOk true digits then digitsIn? base 0 digits else none
    if c = 'b' ∨ c = 'B' then inBase 2
    else if c = 'o' ∨ c = 'O' then inBase 8
    else if c = 'x' ∨ c = 'X' then inBase 16
    else if underscoresOk true (c :: digits) then digitsIn? 8 0 (c :: digits)
    else none
  | '0' :: digits => if underscoresOk true digits then digitsIn? 8 0 digits else none
  | digits => if underscoresOk false digits then digitsIn? 10 0 digits else none

/-- The value of a signed number of 64 bits. -/
def integer? (text : List Char) : Option Int := do
  let n ← match text with
    | '-' :: rest => (natural? rest).map fun n => -(n : Int)
    | '+' :: rest => (natural? rest).map fun n => (n : Int)
    | rest => (natural? rest).map fun n => (n : Int)
  if -0x8000000000000000 ≤ n ∧ n < 0x8000000000000000 then some n else none

/-- The value of a switch. -/
def switch? (text : String) : Option Bool :=
  if text ∈ ["1", "t", "T", "TRUE", "true", "True"] then some true
  else if text ∈ ["0", "f", "F", "FALSE", "false", "False"] then some false
  else none

/-! ## Options -/

/-- The name and the value of an option without its dashes.  An equals sign divides them, but not in
front. -/
def nameAndValue (text : List Char) : String × Option (List Char) :=
  let name := text.take 1 ++ (text.drop 1).takeWhile (· ≠ '=')
  match (text.drop 1).dropWhile (· ≠ '=') with
  | [] => (String.ofList name, none)
  | _ :: value => (String.ofList name, some value)

/-- Sets an option that has a value. -/
def setValue (o : Options) (name : String) (value : List Char) : Option Options :=
  match name with
  | "seed" => do return { o with seed := ← integer? value }
  | "width" => do return { o with width := ← integer? value }
  | _ => none

/-- Sets a switch. -/
def setSwitch (o : Options) (value : Option (List Char)) : Option Options := do
  let on ← switch? (String.ofList (value.getD "true".toList))
  return { o with debug := on }

/-- What an argument is: an option without its dashes, the end of the options, or something else. -/
inductive Argument where
  | option (text : List Char)
  | endOfOptions
  | other
  deriving DecidableEq, Repr, Inhabited

def Argument.ofString (arg : String) : Argument :=
  match arg.toList with
  | ['-', '-'] => .endOfOptions
  | '-' :: '-' :: text => .option text
  | '-' :: c :: text => .option (c :: text)
  | _ => .other

/-- Reads the options in front of `args`, and gives what follows them.  A value stands behind an
equals sign or in the next argument. -/
def readOptions (o : Options) : List String → Except Refusal (Options × List String)
  | [] => .ok (o, [])
  | arg :: args =>
    match Argument.ofString arg with
    | .other => .ok (o, arg :: args)
    | .endOfOptions => .ok (o, args)
    | .option text =>
      if text.head? = none ∨ text.head? = some '-' ∨ text.head? = some '=' then .error .usage
      else
        let (name, value) := nameAndValue text
        if name = "debug" then
          match o.setSwitch value with
          | some o => readOptions o args
          | none => .error .usage
        else if name = "seed" ∨ name = "width" then
          match value, args with
          | some value, args =>
            match o.setValue name value with
            | some o => readOptions o args
            | none => .error .usage
          | none, value :: args =>
            match o.setValue name value.toList with
            | some o => readOptions o args
            | none => .error .usage
          | none, [] => .error .usage
        else if name = "help" ∨ name = "h" then .error .help
        else .error .usage

/-- Reads a command line.  Behind the options stands the name of one story. -/
def parse (args : List String) : Except Refusal Options := do
  match ← readOptions {} args with
  | (o, [story]) => return { o with story }
  | _ => throw .usage

end Options

end ZCode
