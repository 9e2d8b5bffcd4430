/-
  The three alphabets of Z-characters.
-/
import ZCode.Stray

namespace ZCode

/-- A five-bit character code of story text. -/
abbrev ZChar := Fin 32

/-- The Z-character of the low five bits of `n`. -/
def ZChar.ofNat (n : Nat) : ZChar := ⟨n % 32, Nat.mod_lt n (by decide)⟩

/-- Small letters, capitals, and punctuation with digits. -/
inductive Alphabet where
  | a0
  | a1
  | a2
  deriving DecidableEq, Repr, Inhabited

namespace Alphabet

/-- The alphabet after this one, in a circle. -/
def next : Alphabet → Alphabet
  | a0 => a1
  | a1 => a2
  | a2 => a0

/-- The alphabet before this one, in a circle. -/
def previous : Alphabet → Alphabet
  | a0 => a2
  | a1 => a0
  | a2 => a1

/-- The characters of the Z-characters 6 to 31.  The first slot of the last alphabet stands for an
escape and is never printed.  Version 1 has no new line there. -/
def letters (version : UInt8) : Alphabet → List Char
  | a0 => "abcdefghijklmnopqrstuvwxyz".toList
  | a1 => "ABCDEFGHIJKLMNOPQRSTUVWXYZ".toList
  | a2 =>
    if version = 1 then " 0123456789.,!?_#'\"/\\<-:()".toList
    else " \n0123456789.,!?_#'\"/\\-:()".toList

theorem length_letters (version : UInt8) (a : Alphabet) : (a.letters version).length = 26 := by
  cases a with
  | a0 | a1 => rfl
  | a2 =>
    show (if version = 1 then _ else _ : List Char).length = 26
    split <;> rfl

/-- The character of the Z-character `z`, from 6 on. -/
def letter [Stray] (a : Alphabet) (version : UInt8) (z : ZChar) : Char :=
  (a.letters version).getD (z.val - 6) Stray.letter

/-- The Z-character of `c` in this alphabet. -/
def code? (a : Alphabet) (version : UInt8) (c : Char) : Option ZChar :=
  ((a.letters version).idxOf? c).map fun i => ZChar.ofNat (i + 6)

end Alphabet

end ZCode
