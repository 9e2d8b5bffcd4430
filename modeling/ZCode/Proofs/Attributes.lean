/-
  Attributes as independent bits.

  * An attribute is tested in the long word of all of them, and set in one byte of it.  Both come to the same
    bit of memory (`testAttribute_eq`, `setAttribute_eq_ok_iff`), of which `ObjectTable.attributeByte` is the
    byte and `ObjectTable.attributeBit` the number in it.
  * No two attributes share a bit (`attribute_inj`).
  * `ObjectTable.attribute_bits` says what follows from that for giving and taking attributes.
-/
import ZCode.Proofs.Lookup
import ZCode.Proofs.View

namespace ZCode

/-! ## Bits -/

theorem bitOf_or {i : Nat} (hi : i < 8) (b c : UInt8) :
    bitOf (b ||| c) i = (bitOf b i || bitOf c i) := by
  simp only [bitOf_eq hi, UInt8.toBitVec_or, BitVec.getLsbD_or]

theorem bitOf_withBit {i j : Nat} (hi : i < 8) (hj : j < 8) (b : UInt8) (on : Bool) :
    bitOf (withBit b i on) j = if j = i then on else bitOf b j := by
  have hbit : ∀ i < 8, ∀ j < 8, bitOf (1 <<< UInt8.ofNat i) j = decide (j = i) := by decide
  unfold withBit
  cases on with
  | true =>
    rw [if_pos rfl, bitOf_or hj, hbit i hi j hj]
    split <;> simp_all
  | false =>
    rw [if_neg (by decide), bitOf_and hj, bitOf_not hj, hbit i hi j hj]
    split <;> simp_all

/-- Setting a bit to what it was changes nothing. -/
theorem withBit_bitOf {i : Nat} (hi : i < 8) (b : UInt8) (on : Bool) :
    withBit (withBit b i on) i (bitOf b i) = b := by
  refine eq_iff_bitOf.2 fun j hj => ?_
  rw [bitOf_withBit hi hj, bitOf_withBit hi hj]
  split
  · rename_i h
    rw [h]
  · rfl

theorem and_bit_ne_zero {k : Nat} (hk : k < 32) (x : UInt32) :
    (x &&& (1 <<< UInt32.ofNat k) != 0) = x.toNat.testBit k := by
  have hbit : ((1 : UInt32) <<< UInt32.ofNat k).toNat = 1 <<< k := by
    have hlt : 1 <<< k < 4294967296 := by
      rw [Nat.shiftLeft_eq, Nat.one_mul]
      exact Nat.pow_lt_pow_right (n := 32) (by decide) hk
    rw [UInt32.toNat_shiftLeft, UInt32.toNat_ofNat']
    simp [Nat.mod_eq_of_lt hk, Nat.mod_eq_of_lt hlt, Nat.mod_eq_of_lt (show k < 4294967296 by omega)]
  rw [Bool.eq_iff_iff, bne_iff_ne, Ne, ← UInt32.toNat_inj, UInt32.toNat_and, hbit,
    Nat.shiftLeft_eq, Nat.one_mul, Nat.and_two_pow]
  cases x.toNat.testBit k <;> simp

/-- A bit of a number that is made of a high part and a low byte. -/
theorem testBit_high_low (high : Nat) (low : UInt8) (j : Nat) :
    (high * 256 + low.toNat).testBit j =
      if j < 8 then low.toNat.testBit j else high.testBit (j - 8) := by
  have hlow : low.toNat < 2 ^ 8 := low.toNat_lt
  rw [Nat.mul_comm]
  exact Nat.testBit_two_pow_mul_add high hlow j

theorem Memory.toNat_getLong (m : Memory) (n : Nat) : (m.getLong n).toNat =
    (((m.get n).toNat * 256 + (m.get (n + 1)).toNat) * 256 + (m.get (n + 2)).toNat) * 256 +
      (m.get (n + 3)).toNat := by
  rw [getLong, toNat_long, getWord, getWord, toNat_wordOf, toNat_wordOf, Nat.add_assoc n]
  omega

/-- The bits of a long word, counted from the top, are those of its bytes. -/
theorem Memory.testBit_getLong (m : Memory) (n : Nat) {k : Nat} (hk : k < 32) :
    (m.getLong n).toNat.testBit (31 - k) = bitOf (m.get (n + k / 8)) (7 - k % 8) := by
  rw [toNat_getLong, testBit_high_low, testBit_high_low, testBit_high_low, bitOf_eq (by omega)]
  show _ = (m.get (n + k / 8)).toNat.testBit (7 - k % 8)
  obtain h | h | h | h : k / 8 = 0 ∨ k / 8 = 1 ∨ k / 8 = 2 ∨ k / 8 = 3 := by omega
  · rw [if_neg (by omega), if_neg (by omega), if_neg (by omega), h,
      show 31 - k - 8 - 8 - 8 = 7 - k % 8 by omega, Nat.add_zero]
  · rw [if_neg (by omega), if_neg (by omega), if_pos (by omega), h,
      show 31 - k - 8 - 8 = 7 - k % 8 by omega]
  · rw [if_neg (by omega), if_pos (by omega), h, show 31 - k - 8 = 7 - k % 8 by omega]
  · rw [if_pos (by omega), h, show 31 - k = 7 - k % 8 by omega]

namespace ObjectTable

variable {t : ObjectTable} {m m' : Memory} {p : Protection} {o x n k : UInt16}

/-! ## Where an attribute is kept -/

/-- The byte in which an attribute of an object is kept. -/
def attributeByte (t : ObjectTable) (o n : UInt16) : Nat := t.start o + n.toNat / 8

/-- Which bit of its byte an attribute is, bit 0 being the lowest. -/
def attributeBit (n : UInt16) : Nat := 7 - n.toNat % 8

theorem attributeBit_lt (n : UInt16) : attributeBit n < 8 := by
  unfold attributeBit
  omega

theorem toNat_le_of_le_max (hn : n ≤ maxAttribute) : n.toNat ≤ 31 := UInt16.le_iff_toNat_le.1 hn

/-- No two attributes share a bit. -/
theorem attribute_inj (ho : t.IsObject o) (hx : t.IsObject x) (hn : n ≤ maxAttribute)
    (hk : k ≤ maxAttribute) (hbyte : t.attributeByte x k = t.attributeByte o n)
    (hbit : attributeBit k = attributeBit n) : x = o ∧ k = n := by
  have hn := toNat_le_of_le_max hn
  have hk := toNat_le_of_le_max hk
  have hsize : entrySize = 9 := rfl
  obtain ⟨rfl, hdiv⟩ := hx.eq_of_start ho (by omega) (by omega) hbyte
  unfold attributeBit at hbit
  exact ⟨rfl, UInt16.toNat_inj.1 (by omega)⟩

theorem Fits.attributeByte_lt (h : t.Fits m.size) (ho : t.IsObject o) (hn : n ≤ maxAttribute) :
    t.attributeByte o n < m.size := by
  have hn := toNat_le_of_le_max hn
  have hend := h.entry o ho
  have hsize : entrySize = 9 := rfl
  unfold attributeByte
  omega

/-! ## Testing and setting -/

/-- An attribute is tested at its bit. -/
theorem testAttribute_eq (h : t.Fits m.size) (ho : t.IsObject o) (hn : n ≤ maxAttribute) :
    t.testAttribute m o n = .ok (bitOf (m.get (t.attributeByte o n)) (attributeBit n)) := by
  obtain ⟨e, he, hstart⟩ := h.entry_eq ho
  have hn' := toNat_le_of_le_max hn
  have hshift : 31 - n.toUInt32 = UInt32.ofNat (31 - n.toNat) := by
    apply UInt32.toNat_inj.1
    rw [UInt32.toNat_sub_of_le _ _ (UInt32.le_iff_toNat_le.2 (by simpa using hn'))]
    simp
    omega
  unfold testAttribute
  rw [if_neg (UInt16.not_lt.2 hn), if_neg ho.ne_zero, he, hshift]
  show Except.ok _ = _
  rw [and_bit_ne_zero (by omega), hstart, Memory.testBit_getLong _ _ (by omega)]
  rfl

/-- An attribute is set in its byte, through the protected view. -/
theorem setAttribute_eq (h : t.Fits m.size) (ho : t.IsObject o) (hn : n ≤ maxAttribute)
    (p : Protection) (on : Bool) : ∃ a : Address, a.toNat = t.attributeByte o n ∧
      t.setAttribute p o n on m =
        p.writeByte a (withBit (m.get (t.attributeByte o n)) (attributeBit n) on) m := by
  obtain ⟨e, he, -⟩ := h.entry_eq ho
  have hn' := toNat_le_of_le_max hn
  have hshift : (n >>> 3).toUInt32.toNat = n.toNat / 8 := by
    rw [UInt16.toNat_toUInt32, UInt16.toNat_shiftRight]
    exact Nat.shiftRight_eq_div_pow n.toNat 3
  have hplace : (e + (n >>> 3).toUInt32).toNat = t.attributeByte o n := by
    rw [(h.offset ho he (by unfold entrySize; omega)).1, hshift, attributeByte]
  refine ⟨_, hplace, ?_⟩
  have hentry : Edit.read (fun _ => t.entry o) m = .ok e m := by
    simp only [Edit.read, he]
  unfold setAttribute
  rw [if_neg (UInt16.not_lt.2 hn), if_neg ho.ne_zero, ← hplace]
  exact bind_ok hentry

/-- The first attributes of a table at the very start of memory would stand in the header, where they
cannot be changed. -/
theorem checkWrite_attribute_iff {a : Address} {v : UInt8} (ha : a.toNat = t.attributeByte o n) :
    p.checkWrite m a v = .ok () ↔
      Header.size ≤ t.attributeByte o n ∧ t.attributeByte o n < p.staticBase.toNat := by
  have hbehind : 62 ≤ t.attributeByte o n := by
    unfold attributeByte start defaultsSize
    omega
  rw [Protection.checkWrite_eq_ok_iff, Protection.headerAllows_iff, ha, and_comm]
  refine and_congr_left fun _ => ⟨fun h => ?_, fun h hlt => absurd hlt (Nat.not_lt.2 h)⟩
  by_contra hlt
  have := (h (Nat.not_le.1 hlt)).2
  omega

/-- An attribute is set at its bit, if its byte can be changed. -/
theorem setAttribute_eq_ok_iff (h : t.Fits m.size) (ho : t.IsObject o) (hn : n ≤ maxAttribute)
    {on : Bool} : t.setAttribute p o n on m = .ok () m' ↔
      (Header.size ≤ t.attributeByte o n ∧ t.attributeByte o n < p.staticBase.toNat) ∧
        m' = m.put (t.attributeByte o n) (withBit (m.get (t.attributeByte o n)) (attributeBit n) on) := by
  obtain ⟨a, ha, hset⟩ := setAttribute_eq h ho hn p on
  have hlt := h.attributeByte_lt ho hn
  rw [hset, Protection.writeByte_eq,
    ← checkWrite_attribute_iff (v := withBit (m.get (t.attributeByte o n)) (attributeBit n) on) ha]
  cases p.checkWrite m a (withBit (m.get (t.attributeByte o n)) (attributeBit n) on) with
  | error fault => simp
  | ok => simp [Memory.setByte_eq, ha, hlt, eq_comm]

/-! ## Independent bits -/

theorem bitOf_get_put_withBit {j i b : Nat} (hj : j < m.size) (hi : i < 8) (hb : b < 8) (on : Bool)
    (l : Nat) : bitOf ((m.put j (withBit (m.get j) i on)).get l) b =
      if l = j ∧ b = i then on else bitOf (m.get l) b := by
  by_cases hl : l = j
  · subst hl
    rw [Memory.get_put_self hj, bitOf_withBit hi hb]
    simp
  · rw [Memory.get_put_of_ne (Ne.symm hl), if_neg fun h => hl h.1]

/-- **Attributes are independent bits.**  An attribute of an object is one bit of memory, counted from the
top of the entry's bytes, and this is what testing it gives.  It can be changed where the byte lies in
dynamic memory behind the header.  Then it is what it was set to, every other attribute of every object is
what it was, and so is every other bit of memory; setting it back gives the memory from before. -/
theorem attribute_bits (hfit : t.Fits m.size) (p : Protection) (ho : t.IsObject o)
    (hn : n ≤ maxAttribute) (on : Bool) :
    (∀ x k, t.IsObject x → k ≤ maxAttribute →
      t.testAttribute m x k = .ok (bitOf (m.get (t.start x + k.toNat / 8)) (7 - k.toNat % 8))) ∧
    ((∃ m', t.setAttribute p o n on m = .ok () m') ↔
      Header.size ≤ t.start o + n.toNat / 8 ∧ t.start o + n.toNat / 8 < p.staticBase.toNat) ∧
    ∀ m', t.setAttribute p o n on m = .ok () m' →
      t.testAttribute m' o n = .ok on ∧
      (∀ x k, t.IsObject x → k ≤ maxAttribute → (x, k) ≠ (o, n) →
        ∃ b, t.testAttribute m x k = .ok b ∧ t.testAttribute m' x k = .ok b) ∧
      m'.size = m.size ∧
      (∀ j i, i < 8 → bitOf (m'.get j) i ≠ bitOf (m.get j) i →
        j = t.start o + n.toNat / 8 ∧ i = 7 - n.toNat % 8) ∧
      ∀ before, t.testAttribute m o n = .ok before → t.setAttribute p o n before m' = .ok () m := by
  refine ⟨fun x k hx hk => testAttribute_eq hfit hx hk, ?_, fun m' hset => ?_⟩
  · simp only [setAttribute_eq_ok_iff hfit ho hn, exists_and_left, exists_eq, and_true]
    rfl
  obtain ⟨hopen, rfl⟩ := (setAttribute_eq_ok_iff hfit ho hn).1 hset
  have hfit' : t.Fits (m.put (t.attributeByte o n)
      (withBit (m.get (t.attributeByte o n)) (attributeBit n) on)).size := by
    rwa [Memory.size_put]
  have hbits {i : Nat} (hi : i < 8) := bitOf_get_put_withBit (hfit.attributeByte_lt ho hn)
    (attributeBit_lt n) hi on
  refine ⟨?_, fun x k hx hk hne => ⟨_, testAttribute_eq hfit hx hk, ?_⟩, Memory.size_put _ _ _,
    fun j i hi hdiffer => ?_, fun before hbefore => ?_⟩
  · rw [testAttribute_eq hfit' ho hn, hbits (attributeBit_lt n), if_pos ⟨rfl, rfl⟩]
  · rw [testAttribute_eq hfit' hx hk, hbits (attributeBit_lt k), if_neg]
    rintro ⟨hbyte, hbit⟩
    obtain ⟨rfl, rfl⟩ := attribute_inj ho hx hn hk hbyte hbit
    exact hne rfl
  · rw [hbits hi] at hdiffer
    by_contra h
    exact hdiffer (if_neg h)
  · rw [testAttribute_eq hfit ho hn] at hbefore
    cases hbefore
    refine (setAttribute_eq_ok_iff hfit' ho hn).2 ⟨hopen, ?_⟩
    have hlt := hfit.attributeByte_lt ho hn
    refine Memory.eq_of_get (by simp) fun j => ?_
    by_cases hj : t.attributeByte o n = j
    · subst hj
      rw [Memory.get_put_self (by simpa using hlt), Memory.get_put_self hlt,
        withBit_bitOf (attributeBit_lt n)]
    · rw [Memory.get_put_of_ne hj, Memory.get_put_of_ne hj]

/-- The first object of the small story is given its last attribute.  The second one, whose entry is nine
bytes on, has no more attributes than before, and taking the attribute back gives the image. -/
theorem attribute_bits_last :
    let t := smallStory.objects
    let p := smallStory.protection
    t.testAttribute smallImage 1 31 = .ok false ∧ t.testAttribute smallImage 2 0 = .ok false ∧
      ∃ m', t.setAttribute p 1 31 true smallImage = .ok () m' ∧ t.testAttribute m' 1 31 = .ok true ∧
        t.testAttribute m' 2 0 = .ok false ∧ t.setAttribute p 1 31 false m' = .ok () smallImage := by
  intro t p
  have hfit : t.Fits smallImage.size := fits_of_load load_small rfl
  have hcount : t.count.toNat = 3 := by decide +kernel
  have ho : t.IsObject 1 := ⟨by decide, by rw [hcount]; decide⟩
  have hx : t.IsObject 2 := ⟨by decide, by rw [hcount]; decide⟩
  have hfalse : t.testAttribute smallImage 1 31 = .ok false ∧ t.testAttribute smallImage 2 0 = .ok false := by
    decide +kernel
  obtain ⟨-, hopen, hset⟩ := attribute_bits hfit p ho (n := 31) (by decide) true
  obtain ⟨m', hm'⟩ := hopen.2 (by decide +kernel)
  obtain ⟨hon, hothers, -, -, hback⟩ := hset m' hm'
  obtain ⟨b, hb, hb'⟩ := hothers 2 0 hx (by decide) (by decide)
  obtain rfl := Except.ok.inj (hb.symm.trans hfalse.2)
  exact ⟨hfalse.1, hfalse.2, m', hm', hon, hb', hback false hfalse.1⟩

end ObjectTable

end ZCode
