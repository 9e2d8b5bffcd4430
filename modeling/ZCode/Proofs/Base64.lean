/-
  Base 64: reading what was written gives the bytes back (`Base64.decode_encode`).
-/
import ZCode.Base64

namespace ZCode.Base64

/-! ## Digits -/

theorem value?_digit (n : Nat) : value? (digit n) = some (n % 64) := by
  have all : ∀ k < 64, value? (digitTable.getD k 'A') = some k := by decide +kernel
  exact all (n % 64) (Nat.mod_lt n (by decide))

theorem digit_mem (n : Nat) : digit n ∈ digits := by
  have all : ∀ k < 64, digitTable.getD k 'A' ∈ digits := by decide +kernel
  exact all (n % 64) (Nat.mod_lt n (by decide))

theorem digit_ne_pad (n : Nat) : digit n ≠ '=' := by
  have : '=' ∉ digits := by decide +kernel
  exact fun h => this (h ▸ digit_mem n)

theorem digit_ne_line (n : Nat) : digit n ≠ '\r' ∧ digit n ≠ '\n' := by
  have : '\r' ∉ digits ∧ '\n' ∉ digits := by decide +kernel
  exact ⟨fun h => this.1 (h ▸ digit_mem n), fun h => this.2 (h ▸ digit_mem n)⟩

/-! ## Groups -/

/-- What is written behind other digits is written as at the start. -/
theorem encodeOnto_eq : ∀ (bytes : List UInt8) (written : List Char),
    encodeOnto written bytes = written.reverse ++ encode bytes
  | [], written => by simp [encode, encodeOnto]
  | [a], written => by simp [encode, encodeOnto]
  | [a, b], written => by simp [encode, encodeOnto]
  | a :: b :: c :: bytes, written => by
    rw [encode, encodeOnto, encodeOnto, encodeOnto_eq bytes, encodeOnto_eq bytes]
    simp

theorem encode_cons (a b c : UInt8) (bytes : List UInt8) :
    encode (a :: b :: c :: bytes) =
      let n := (a.toNat * 256 + b.toNat) * 256 + c.toNat
      digit (n / 262144) :: digit (n / 4096) :: digit (n / 64) :: digit n :: encode bytes := by
  rw [encode, encodeOnto, encodeOnto_eq]
  simp

/-- A group of four digits, none of which is padding, is read as three bytes. -/
theorem decodeOnto_cons (read : List UInt8) (w x y z : Nat) (chars : List Char) :
    decodeOnto read (digit w :: digit x :: digit y :: digit z :: chars) =
      let n := ((w % 64 * 64 + x % 64) * 64 + y % 64) * 64 + z % 64
      decodeOnto (UInt8.ofNat n :: UInt8.ofNat (n / 256) :: UInt8.ofNat (n / 65536) :: read)
        chars := by
  have hy := digit_ne_pad y
  have hz := digit_ne_pad z
  rw [decodeOnto]
  · simp only [value?_digit]
  · intro h
    simp_all
  · intro h
    simp_all

/-- Three digits and padding are read as two bytes. -/
theorem decodeOnto_three (read : List UInt8) (w x y : Nat) :
    decodeOnto read [digit w, digit x, digit y, '='] =
      let n := (w % 64 * 64 + x % 64) * 64 + y % 64
      some (UInt8.ofNat (n / 4) :: UInt8.ofNat (n / 1024) :: read).reverse := by
  rw [decodeOnto]
  · simp only [value?_digit]
    rfl
  · exact digit_ne_pad y

/-! ## Round trip -/

theorem byte_of_mod {n : Nat} {b : UInt8} (h : n % 256 = b.toNat) : UInt8.ofNat n = b := by
  rw [← UInt8.toNat_inj, UInt8.toNat_ofNat', h]

theorem decodeOnto_encode : ∀ (bytes read : List UInt8),
    decodeOnto read (encode bytes) = some (read.reverse ++ bytes)
  | [], read => by simp [encode, encodeOnto, decodeOnto]
  | [a], read => by
    have ha := a.toNat_lt
    have h : UInt8.ofNat ((a.toNat * 16 / 64 % 64 * 64 + a.toNat * 16 % 64) / 16) = a :=
      byte_of_mod (by omega)
    simp [encode, encodeOnto, decodeOnto, value?_digit, h]
  | [a, b], read => by
    have ha := a.toNat_lt
    have hb := b.toNat_lt
    generalize hn : (a.toNat * 256 + b.toNat) * 4 = n
    have h1 : UInt8.ofNat (((n / 4096 % 64 * 64 + n / 64 % 64) * 64 + n % 64) / 1024) = a :=
      byte_of_mod (by omega)
    have h2 : UInt8.ofNat (((n / 4096 % 64 * 64 + n / 64 % 64) * 64 + n % 64) / 4) = b :=
      byte_of_mod (by omega)
    have hw : encode [a, b] = [digit (n / 4096), digit (n / 64), digit n, '='] := by
      simp [encode, encodeOnto, hn]
    rw [hw, decodeOnto_three]
    simp [h1, h2]
  | a :: b :: c :: bytes, read => by
    have ha := a.toNat_lt
    have hb := b.toNat_lt
    have hc := c.toNat_lt
    rw [encode_cons, decodeOnto_cons, decodeOnto_encode bytes]
    generalize hn : (a.toNat * 256 + b.toNat) * 256 + c.toNat = n
    have hsum : ((n / 262144 % 64 * 64 + n / 4096 % 64) * 64 + n / 64 % 64) * 64 + n % 64 = n := by
      omega
    rw [hsum, byte_of_mod (b := c) (by omega), byte_of_mod (b := b) (by omega),
      byte_of_mod (b := a) (by omega)]
    simp

/-- Nothing that is written is skipped by a reader. -/
theorem filter_encode : ∀ bytes : List UInt8,
    (encode bytes).filter (fun c => c != '\r' && c != '\n') = encode bytes
  | [] => rfl
  | [a] => by simp [encode, encodeOnto, digit_ne_line]
  | [a, b] => by simp [encode, encodeOnto, digit_ne_line]
  | a :: b :: c :: bytes => by
    rw [encode_cons]
    simp [filter_encode bytes, digit_ne_line]

/-- **Bytes that are written can be read back.** -/
theorem decode_encode (bytes : List UInt8) : decode (encode bytes) = some bytes := by
  rw [decode, filter_encode, decodeOnto_encode]
  rfl

end ZCode.Base64
