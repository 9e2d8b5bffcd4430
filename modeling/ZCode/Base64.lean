/-
  Base 64 with padding.
-/
namespace ZCode.Base64

/-- The 64 digits. -/
def digits : List Char :=
  "ABCDEFGHIJKLMNOPQRSTUVWXYZabcdefghijklmnopqrstuvwxyz0123456789+/".toList

/-- The digits for quick access. -/
def digitTable : Array Char := digits.toArray

/-- The digit for the low six bits of `n`. -/
def digit (n : Nat) : Char := digitTable.getD (n % 64) 'A'

/-- The value of a digit. -/
def value? (c : Char) : Option Nat :=
  if 'A' ≤ c ∧ c ≤ 'Z' then some (c.toNat - 65)
  else if 'a' ≤ c ∧ c ≤ 'z' then some (c.toNat - 71)
  else if '0' ≤ c ∧ c ≤ '9' then some (c.toNat + 4)
  else if c = '+' then some 62
  else if c = '/' then some 63
  else none

/-- The digits of `bytes` behind those in `written`, the last one first. -/
def encodeOnto (written : List Char) : List UInt8 → List Char
  | [] => written.reverse
  | [a] =>
    let n := a.toNat * 16
    ('=' :: '=' :: digit n :: digit (n / 64) :: written).reverse
  | [a, b] =>
    let n := (a.toNat * 256 + b.toNat) * 4
    ('=' :: digit n :: digit (n / 64) :: digit (n / 4096) :: written).reverse
  | a :: b :: c :: bytes =>
    let n := (a.toNat * 256 + b.toNat) * 256 + c.toNat
    encodeOnto
      (digit n :: digit (n / 64) :: digit (n / 4096) :: digit (n / 262144) :: written) bytes

/-- Three bytes to four digits; the last one or two bytes to two or three digits and padding. -/
def encode (bytes : List UInt8) : List Char := encodeOnto [] bytes

/-- The bytes of `chars` behind those in `read`, the last one first. -/
def decodeOnto (read : List UInt8) : List Char → Option (List UInt8)
  | [] => some read.reverse
  | [a, b, '=', '='] => do
    let n := (← value? a) * 64 + (← value? b)
    return (UInt8.ofNat (n / 16) :: read).reverse
  | [a, b, c, '='] => do
    let n := ((← value? a) * 64 + (← value? b)) * 64 + (← value? c)
    return (UInt8.ofNat (n / 4) :: UInt8.ofNat (n / 1024) :: read).reverse
  | a :: b :: c :: d :: chars =>
    match value? a, value? b, value? c, value? d with
    | some a, some b, some c, some d =>
      let n := ((a * 64 + b) * 64 + c) * 64 + d
      decodeOnto (UInt8.ofNat n :: UInt8.ofNat (n / 256) :: UInt8.ofNat (n / 65536) :: read) chars
    | _, _, _, _ => none
  | _ => none

/-- The bytes of a text.  Line ends in it are skipped, and the bits of the last digit that belong to
no byte may be anything. -/
def decode (chars : List Char) : Option (List UInt8) :=
  decodeOnto [] (chars.filter fun c => c != '\r' && c != '\n')

end ZCode.Base64
