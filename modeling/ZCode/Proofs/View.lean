/-
  The protected view of memory, byte by byte.

  * `Protection.Readable` says which bytes the program may read, and `Protection.Writable` what it may
    write over a byte, both without reference to addresses that wrap around.
  * Every access through the view is allowed exactly there (`readByte_eq_ok_iff`, `readWord_eq_ok_iff`,
    `writeByte_eq_ok_iff`, `writeWord_eq_ok_iff`), a word exactly where both of its bytes are.
  * `Protection.view_exact` puts this together for loaded stories.
-/
import ZCode.Proofs.Torn
import ZCode.Proofs.Variables

namespace ZCode

/-! ## Bits -/

theorem bitOf_eq {i : Nat} (hi : i < 8) (b : UInt8) : bitOf b i = b.toBitVec.getLsbD i := by
  have hbit : ((1 : UInt8) <<< UInt8.ofNat i).toNat = 1 <<< i := by
    have hlt : 1 <<< i < 256 := by
      rw [Nat.shiftLeft_eq, Nat.one_mul]
      exact Nat.pow_lt_pow_right (n := 8) (by decide) hi
    rw [UInt8.toNat_shiftLeft, UInt8.toNat_ofNat']
    simp [Nat.mod_eq_of_lt hi, Nat.mod_eq_of_lt hlt, Nat.mod_eq_of_lt (show i < 256 by omega)]
  show _ = b.toNat.testBit i
  rw [bitOf, Bool.eq_iff_iff, bne_iff_ne, Ne, ← UInt8.toNat_inj, UInt8.toNat_and, hbit,
    Nat.shiftLeft_eq, Nat.one_mul, Nat.and_two_pow]
  cases b.toNat.testBit i <;> simp

theorem bitOf_and {i : Nat} (hi : i < 8) (b c : UInt8) :
    bitOf (b &&& c) i = (bitOf b i && bitOf c i) := by
  simp only [bitOf_eq hi, UInt8.toBitVec_and, BitVec.getLsbD_and]

theorem bitOf_not {i : Nat} (hi : i < 8) (b : UInt8) : bitOf (~~~b) i = !bitOf b i := by
  simp only [bitOf_eq hi, UInt8.toBitVec_not, BitVec.getLsbD_not, hi, decide_true, Bool.true_and]

theorem eq_iff_bitOf {b c : UInt8} : b = c ↔ ∀ i < 8, bitOf b i = bitOf c i := by
  rw [← UInt8.toBitVec_inj, BitVec.eq_of_getLsbD_eq_iff]
  refine forall₂_congr fun i hi => ?_
  rw [bitOf_eq hi, bitOf_eq hi]

/-- Bytes are the same outside a mask if every bit in which they differ is in it. -/
theorem and_not_eq_iff {b c mask : UInt8} : b &&& ~~~mask = c &&& ~~~mask ↔
    ∀ i < 8, bitOf b i ≠ bitOf c i → bitOf mask i = true := by
  rw [eq_iff_bitOf]
  refine forall₂_congr fun i hi => ?_
  rw [bitOf_and hi, bitOf_and hi, bitOf_not hi]
  cases bitOf b i <;> cases bitOf c i <;> cases bitOf mask i <;> decide

namespace Protection

variable {p : Protection} {m m' : Memory} {a : Address} {v : UInt8} {w : UInt16}

/-! ## Reading -/

/-- The program may read the byte at `n`: it exists, and lies below high memory, if there is any. -/
def Readable (p : Protection) (m : Memory) (n : Nat) : Prop :=
  n < m.size ∧ (p.highBase ≠ 0 → n < p.highBase.toNat)

instance (p : Protection) (m : Memory) (n : Nat) : Decidable (p.Readable m n) :=
  inferInstanceAs (Decidable (_ ∧ _))

theorem checkRead_eq_ok_iff {n : Address} : p.checkRead a n = .ok () ↔
    (p.highBase ≠ 0 → (a + n - 1).toNat < p.highBase.toNat) := by
  unfold checkRead
  rw [← UInt32.lt_iff_toNat_lt]
  split <;> simp_all

theorem readByte_eq_ok_iff : p.readByte m a = .ok v ↔
    p.Readable m a.toNat ∧ v = m.get a.toNat := by
  have hlast : a + 1 - 1 = a := UInt32.add_sub_cancel a 1
  unfold readByte Readable
  rw [bind_eq_ok_iff, Memory.byte_eq]
  simp only [Unique.exists_iff, PUnit.default_eq_unit, checkRead_eq_ok_iff, hlast]
  split <;> simp_all [eq_comm]

/-- Where every byte of memory has an address, the word at the last address has no second byte, and so
it does not matter that the address behind it wraps around. -/
theorem readWord_eq_ok_iff (hm : m.size ≤ 0x100000000) : p.readWord m a = .ok w ↔
    p.Readable m a.toNat ∧ p.Readable m (a.toNat + 1) ∧ w = m.getWord a.toNat := by
  have hlast : a + 2 - 1 = a + 1 := by
    rw [UInt32.sub_eq_iff_eq_add, UInt32.add_assoc]
    rfl
  have hnext (h : a.toNat + 2 ≤ m.size) : (a + 1).toNat = a.toNat + 1 := by
    rw [UInt32.toNat_add]
    exact Nat.mod_eq_of_lt (by simp; omega)
  unfold readWord Readable
  rw [bind_eq_ok_iff, Memory.word_eq]
  simp only [Unique.exists_iff, PUnit.default_eq_unit, checkRead_eq_ok_iff, hlast]
  by_cases h : a.toNat + 2 ≤ m.size
  · rw [if_pos h, hnext h]
    constructor
    · rintro ⟨hhigh, ⟨⟩⟩
      exact ⟨⟨by omega, fun h => by have := hhigh h; omega⟩, ⟨by omega, hhigh⟩, rfl⟩
    · rintro ⟨-, ⟨-, hhigh⟩, rfl⟩
      exact ⟨hhigh, rfl⟩
  · rw [if_neg h]
    constructor
    · rintro ⟨-, ⟨⟩⟩
    · rintro ⟨-, ⟨hlt, -⟩, -⟩
      omega

/-! ## Writing -/

/-- The bits of the header that the program may change, each with its byte: status line, screen split and
variable pitch, and in the second flag word transcript and fixed pitch. -/
def openBits : List (Nat × Nat) := [(0x01, 4), (0x01, 5), (0x01, 6), (0x11, 0), (0x11, 1)]

/-- The program may write `v` at `n`.  The header apart, all of dynamic memory is open to it.  In the
header it may write the flags, if no other than the open bits change. -/
def Writable (p : Protection) (m : Memory) (n : Nat) (v : UInt8) : Prop :=
  n < p.staticBase.toNat ∧ (n < Header.size → (n = 0x01 ∨ n = 0x10 ∨ n = 0x11) ∧
    ∀ i < 8, bitOf (m.get n) i ≠ bitOf v i → (n, i) ∈ openBits)

instance (p : Protection) (m : Memory) (n : Nat) (v : UInt8) : Decidable (p.Writable m n v) :=
  inferInstanceAs (Decidable (_ ∧ _))

theorem headerAllows_iff_openBits {old new : UInt8} : headerAllows a old new = true ↔
    (a.toNat = 0x01 ∨ a.toNat = 0x10 ∨ a.toNat = 0x11) ∧
      ∀ i < 8, bitOf old i ≠ bitOf new i → (a.toNat, i) ∈ openBits := by
  rw [headerAllows_iff]
  generalize a.toNat = n
  by_cases h₁ : n = 0x01
  · subst h₁
    have hmask : ∀ i < 8, bitOf Memory.flags1Mask i = true ↔ (0x01, i) ∈ openBits := by decide
    simp +contextual [and_not_eq_iff, hmask]
  by_cases h₂ : n = 0x10
  · subst h₂
    have hnone : ∀ i < 8, (0x10, i) ∉ openBits := by decide
    simp +contextual [eq_iff_bitOf, hnone]
  by_cases h₃ : n = 0x11
  · subst h₃
    have hmask : ∀ i < 8, bitOf Memory.flags2Mask i = true ↔ (0x11, i) ∈ openBits := by decide
    simp +contextual [and_not_eq_iff, hmask]
  · simp [h₁, h₂, h₃]

theorem checkWrite_iff_writable (hinside : p.staticBase.toNat ≤ m.size) :
    p.checkWrite m a v = .ok () ↔ p.Writable m a.toNat v := by
  rw [checkWrite_eq_ok_iff, headerAllows_iff_openBits, Writable]
  refine and_congr_right fun hlt => imp_congr_right fun _ => ?_
  exact and_iff_right (hlt.trans_le hinside)

theorem writeByte_eq_ok_iff (hinside : p.staticBase.toNat ≤ m.size) :
    p.writeByte a v m = .ok () m' ↔ p.Writable m a.toNat v ∧ m' = m.put a.toNat v := by
  rw [← checkWrite_iff_writable hinside, writeByte_eq]
  cases h : p.checkWrite m a v with
  | error fault => simp
  | ok =>
    have hlt := (checkWrite_eq_ok_iff.1 h).1.trans_le hinside
    simp [Memory.setByte_eq, hlt, eq_comm]

/-- Dynamic addresses are far from wrapping around. -/
theorem toNat_succ (h : a.toNat < p.staticBase.toNat) : (a + 1).toNat = a.toNat + 1 := by
  have hlt := p.staticBase.toNat_lt
  rw [UInt32.toNat_add]
  exact Nat.mod_eq_of_lt (by simp; omega)

theorem writeWord_eq_ok_iff (hinside : p.staticBase.toNat ≤ m.size) : p.writeWord a w m = .ok () m' ↔
    (p.Writable m a.toNat (highByte w) ∧ p.Writable m (a + 1).toNat (lowByte w)) ∧
      m' = m.putWord a.toNat w := by
  rw [← checkWrite_iff_writable hinside, ← checkWrite_iff_writable hinside, writeWord_eq]
  cases h : p.checkWrite m a (highByte w) with
  | error fault => simp
  | ok =>
    cases h' : p.checkWrite m (a + 1) (lowByte w) with
    | error fault => simp
    | ok =>
      have hlt := (checkWrite_eq_ok_iff.1 h').1.trans_le hinside
      rw [toNat_succ (checkWrite_eq_ok_iff.1 h).1] at hlt
      simp [Memory.setWord_eq, Nat.succ_le_of_lt hlt, eq_comm]

/-- What may be written at a place depends on the byte that stands there and on no other. -/
theorem writable_put_of_ne {n k : Nat} (h : n ≠ k) (u v : UInt8) :
    (p.Writable (m.put n u) k v ↔ p.Writable m k v) := by
  unfold Writable
  rw [Memory.get_put_of_ne h]

/-- A word is written as its two bytes are, one after the other. -/
theorem writeWord_iff_writeByte (hinside : p.staticBase.toNat ≤ m.size) :
    p.writeWord a w m = .ok () m' ↔ ∃ m₁, p.writeByte a (highByte w) m = .ok () m₁ ∧
      p.writeByte (a + 1) (lowByte w) m₁ = .ok () m' := by
  rw [writeWord_eq_ok_iff hinside]
  simp only [writeByte_eq_ok_iff hinside]
  constructor
  · rintro ⟨⟨hhigh, hlow⟩, rfl⟩
    have hnext := toNat_succ hhigh.1
    refine ⟨_, ⟨hhigh, rfl⟩, (writeByte_eq_ok_iff (by simpa using hinside)).2 ⟨?_, ?_⟩⟩
    · exact (writable_put_of_ne (by omega) _ _).2 hlow
    · rw [hnext, Memory.putWord]
  · rintro ⟨_, ⟨hhigh, rfl⟩, hrest⟩
    have hnext := toNat_succ hhigh.1
    obtain ⟨hlow, rfl⟩ := (writeByte_eq_ok_iff (by simpa using hinside)).1 hrest
    refine ⟨⟨hhigh, (writable_put_of_ne (by omega) _ _).1 hlow⟩, ?_⟩
    rw [hnext, Memory.putWord]

/-! ## The view of a story -/

/-- **The protected view is exact, and words are written whole or not at all.**  Whatever the memory of a
loaded story holds, a byte or a word is read where each of its bytes may be read, and then it is what
memory holds; for words, all bytes of memory must have addresses.  A byte is written where it may be.  A
word is written where both of its bytes could be, and then both of them are; otherwise nothing is. -/
theorem view_exact {image : Memory} {story : Story} (hload : Story.load image = .ok story)
    (hsize : m.size = image.size) (a : Address) :
    let p := story.protection
    (∀ b, p.readByte m a = .ok b ↔ p.Readable m a.toNat ∧ b = m.get a.toNat) ∧
    (m.size ≤ 0x100000000 → ∀ w, p.readWord m a = .ok w ↔
      p.Readable m a.toNat ∧ p.Readable m (a.toNat + 1) ∧
        highByte w = m.get a.toNat ∧ lowByte w = m.get (a.toNat + 1)) ∧
    (∀ v m', p.writeByte a v m = .ok () m' ↔ p.Writable m a.toNat v ∧ m' = m.put a.toNat v) ∧
    (∀ w, (∃ m', p.writeWord a w m = .ok () m') ↔
      (∃ m', p.writeByte a (highByte w) m = .ok () m') ∧
        ∃ m', p.writeByte (a + 1) (lowByte w) m = .ok () m') ∧
    (∀ w m', p.writeWord a w m = .ok () m' ↔ ∃ m₁, p.writeByte a (highByte w) m = .ok () m₁ ∧
      p.writeByte (a + 1) (lowByte w) m₁ = .ok () m') ∧
    ∀ w fault m', p.writeWord a w m = .error fault m' → m' = m := by
  intro p
  obtain ⟨-, hread, -⟩ := Story.load_ok hload
  have hinside : p.staticBase.toNat ≤ m.size := by
    rw [hsize]
    exact (Header.read_ok hread).2.2
  refine ⟨fun b => readByte_eq_ok_iff, fun hm w => ?_, fun v m' => writeByte_eq_ok_iff hinside,
    fun w => ?_, fun w m' => writeWord_iff_writeByte hinside, fun w => ObjectTable.atomic_writeWord p a w m⟩
  · rw [readWord_eq_ok_iff hm]
    refine and_congr_right fun _ => and_congr_right fun _ => ⟨?_, ?_⟩
    · rintro rfl
      exact bytes_wordOf _ _
    · rintro ⟨hhigh, hlow⟩
      rw [Memory.getWord, ← hhigh, ← hlow, wordOf_bytes]
  · simp [writeWord_eq_ok_iff hinside, writeByte_eq_ok_iff hinside]

/-- The small image with high memory from 0x6A on, and static memory from 0x68 on. -/
def guardedImage : Memory := smallImage.put 0x05 0x6A

/-- Words that straddle one of the two boundaries cannot be read or written; those below it can.  Of the
second flag word, the two lowest bits can be set, and no others. -/
theorem view_exact_guarded :
    let p := (Story.ofImage guardedImage).protection
    let m := guardedImage
    (p.readWord m 0x68 = .ok 0xB5C2 ∧ ∀ w, p.readWord m 0x69 ≠ .ok w) ∧
    ((∃ m', p.writeWord 0x66 0x1234 m = .ok () m') ∧ ∀ m', p.writeWord 0x67 0x1234 m ≠ .ok () m') ∧
    (∃ m', p.writeWord 0x10 0x0003 m = .ok () m') ∧ ∀ m', p.writeWord 0x10 0x0004 m ≠ .ok () m' := by
  intro p m
  have hload : Story.load m = .ok (.ofImage m) := Story.load_ofImage (by decide +kernel)
  obtain ⟨-, hlow, -⟩ := view_exact hload rfl 0x68
  obtain ⟨-, hacross, -⟩ := view_exact hload rfl 0x69
  have hbyte (a : Address) := (view_exact hload rfl a).2.2.1
  have hword (a : Address) := (view_exact hload rfl a).2.2.2.1
  have hreads : p.Readable m 0x68 ∧ p.Readable m 0x69 ∧ ¬ p.Readable m 0x6A ∧
      m.get 0x68 = 0xB5 ∧ m.get 0x69 = 0xC2 ∧ m.size ≤ 0x100000000 := by
    decide +kernel
  have hwrites : p.Writable m 0x66 0x12 ∧ p.Writable m 0x67 0x34 ∧ ¬ p.Writable m 0x68 0x34 ∧
      p.Writable m 0x10 0 ∧ p.Writable m 0x11 3 ∧ ¬ p.Writable m 0x11 4 := by
    decide +kernel
  obtain ⟨hr₀, hr₁, hr₂, hb₀, hb₁, hm⟩ := hreads
  obtain ⟨hw₀, hw₁, hw₂, hw₃, hw₄, hw₅⟩ := hwrites
  refine ⟨⟨(hlow hm _).2 ⟨hr₀, hr₁, hb₀.symm, hb₁.symm⟩, ?_⟩, ⟨?_, ?_⟩, ?_, ?_⟩
  · exact fun w h => hr₂ ((hacross hm w).1 h).2.1
  · exact (hword _ _).2 ⟨⟨_, (hbyte _ _ _).2 ⟨hw₀, rfl⟩⟩, _, (hbyte _ _ _).2 ⟨hw₁, rfl⟩⟩
  · intro m' h
    obtain ⟨-, _, hsecond⟩ := (hword _ _).1 ⟨m', h⟩
    exact hw₂ ((hbyte _ _ _).1 hsecond).1
  · exact (hword _ _).2 ⟨⟨_, (hbyte _ _ _).2 ⟨hw₃, rfl⟩⟩, _, (hbyte _ _ _).2 ⟨hw₄, rfl⟩⟩
  · intro m' h
    obtain ⟨-, _, hsecond⟩ := (hword _ _).1 ⟨m', h⟩
    exact hw₅ ((hbyte _ _ _).1 hsecond).1

end Protection

end ZCode
