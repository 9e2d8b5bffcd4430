/-
  Lookups of what is not there.

  Memory, locals, operands and frames are looked up by their place.  Whether there is something at
  the place is checked elsewhere, often long before, and a lookup by itself always gives something: at
  a place with nothing on it, what `Stray` says.  Whatever looks something up is defined for every
  `Stray`, and programs run with the instance below.
-/
import ZCode.Fault

namespace ZCode

/-- What comes of looking up something that is not there. -/
class Stray where
  /-- The byte at a place past the end of memory. -/
  byte : Nat → UInt8
  /-- The bytes of memory after a write past their end. -/
  bytes : Array UInt8 → Array UInt8
  /-- A local that a frame does not have. -/
  word : UInt16
  /-- The locals of a frame after a write to one that it does not have. -/
  words : List UInt16 → List UInt16
  /-- An operand or a branch offset that an instruction does not have, and a quotient by 0. -/
  number : Int
  /-- The operands behind the first, where there is no first. -/
  numbers : List Int
  /-- The condition of a branch that an instruction does not have. -/
  condition : Bool
  /-- A character that an alphabet does not have. -/
  letter : Char
  /-- The text of an abbreviation where there are none. -/
  letters : List Char
  /-- A part of a read that the machine does not wait for, or of a frame that is not there. -/
  address : Address

/-- With this, a stray lookup gives nothing and a stray write does nothing. -/
instance Stray.usual : Stray where
  byte _ := 0
  bytes := id
  word := 0
  words := id
  number := 0
  numbers := []
  condition := true
  letter := ' '
  letters := []
  address := 0

end ZCode
