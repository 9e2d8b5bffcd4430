/-
  UTF-8, read without failing: every byte that is not part of a well-formed sequence reads as the
  replacement character.
-/
namespace ZCode.Utf8

/-- What an undecodable byte reads as. -/
def replacement : Char := Char.ofNat 0xFFFD

/-- The bytes of a text. -/
def encode (text : List Char) : List UInt8 := text.flatMap String.utf8EncodeChar

/-- Whether `b` lies between `low` and `high`. -/
def within (low high b : UInt8) : Bool := low ≤ b && b ≤ high

/-- Whether `b` continues a sequence. -/
def isTail (b : UInt8) : Bool := within 0x80 0xBF b

/-- The least and the greatest byte that may follow `first` in a sequence of three or four. -/
def secondRange (first : UInt8) : UInt8 × UInt8 :=
  if first = 0xE0 then (0xA0, 0xBF)
  else if first = 0xED then (0x80, 0x9F)
  else if first = 0xF0 then (0x90, 0xBF)
  else if first = 0xF4 then (0x80, 0x8F)
  else (0x80, 0xBF)

/-- Whether `b` may be the second byte after `first`. -/
def isSecond (first b : UInt8) : Bool := within (secondRange first).1 (secondRange first).2 b

/-- The low six bits of a byte that continues a sequence. -/
def payload (b : UInt8) : Nat := b.toNat % 64

/-- The first character of `b :: rest` and what follows it. -/
def decodeFirst (b : UInt8) (rest : List UInt8) : Char × List UInt8 :=
  if b < 0x80 then (Char.ofNat b.toNat, rest)
  else match rest with
    | c :: rest₂ =>
      if within 0xC2 0xDF b && isTail c then
        (Char.ofNat (b.toNat % 32 * 64 + payload c), rest₂)
      else match rest₂ with
        | d :: rest₃ =>
          if within 0xE0 0xEF b && isSecond b c && isTail d then
            (Char.ofNat ((b.toNat % 16 * 64 + payload c) * 64 + payload d), rest₃)
          else match rest₃ with
            | e :: rest₄ =>
              if within 0xF0 0xF4 b && isSecond b c && isTail d && isTail e then
                (Char.ofNat (((b.toNat % 8 * 64 + payload c) * 64 + payload d) * 64 + payload e),
                  rest₄)
              else (replacement, rest)
            | [] => (replacement, rest)
        | [] => (replacement, rest)
    | [] => (replacement, rest)

theorem length_decodeFirst (b : UInt8) (rest : List UInt8) :
    (decodeFirst b rest).2.length ≤ rest.length := by
  unfold decodeFirst
  repeat' split
  all_goals simp_all <;> omega

/-- Reads `bytes` behind the characters of `seen`, the last one first. -/
def decodeOnto (seen : List Char) : List UInt8 → List Char
  | [] => seen.reverse
  | b :: rest => decodeOnto ((decodeFirst b rest).1 :: seen) (decodeFirst b rest).2
  termination_by bytes => bytes.length
  decreasing_by
    have := length_decodeFirst b rest
    simp only [List.length_cons]; omega

/-- The text of `bytes`. -/
def decode (bytes : List UInt8) : List Char := decodeOnto [] bytes

end ZCode.Utf8
