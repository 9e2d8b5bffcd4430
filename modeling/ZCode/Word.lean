/-
  Sixteen-bit words: their two bytes, high byte first, and their signed reading.
-/
namespace ZCode

/-- The word of a high and a low byte. -/
def wordOf (high low : UInt8) : UInt16 := high.toUInt16 <<< 8 ||| low.toUInt16

def highByte (w : UInt16) : UInt8 := (w >>> 8).toUInt8

def lowByte (w : UInt16) : UInt8 := w.toUInt8

/-- The word read as a two's complement number. -/
def signed (w : UInt16) : Int := if w.toNat < 0x8000 then w.toNat else (w.toNat : Int) - 0x10000

/-- Bit `i` of a byte, bit 0 being the lowest. -/
def bitOf (b : UInt8) (i : Nat) : Bool := b &&& (1 <<< UInt8.ofNat i) != 0

/-- The byte with bit `i` set to `on`. -/
def withBit (b : UInt8) (i : Nat) (on : Bool) : UInt8 :=
  if on then b ||| (1 <<< UInt8.ofNat i) else b &&& ~~~(1 <<< UInt8.ofNat i)

end ZCode
