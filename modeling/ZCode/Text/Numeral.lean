/-
  Numbers in base 16 as text, in capitals or small letters, with a least width.
-/
namespace ZCode

/-- `n` in base 16 in capitals, filled up with zeros to `width` digits. -/
def hexUpper (n : Nat) (width : Nat := 1) : String :=
  String.ofList (List.leftpad width '0' ((Nat.toDigits 16 n).map Char.toUpper))

/-- `n` in base 16 in small letters, filled up with zeros to `width` digits. -/
def hexLower (n : Nat) (width : Nat := 1) : String :=
  String.ofList (List.leftpad width '0' (Nat.toDigits 16 n))

end ZCode
