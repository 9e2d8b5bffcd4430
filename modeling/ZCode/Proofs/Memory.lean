/-
  Memory as a map from addresses to bytes.

  * A word is the number of its two bytes (`toNat_wordOf`).
  * Every checked access is a bounds test followed by `get` or `put` (`byte_eq`, `setByte_eq`,
    `setWord_eq`, `setFlag_eq`).
  * `Memory.EqOutside loose` says that two memories have the same size and differ at most in the
    bits that `loose` marks.
-/
import ZCode.Proofs.Reached

namespace ZCode

/-! ## Bits of a byte -/

theorem xor_and_eq_zero_iff {a b c : UInt8} : (a ^^^ b) &&& c = 0 ↔ a &&& c = b &&& c := by
  simp only [← UInt8.toBitVec_inj, BitVec.eq_of_getElem_eq_iff]
  constructor <;> intro h i hi <;> have := h i hi <;> simp at this ⊢ <;> grind

/-- Setting or clearing a bit of `mask` leaves the other bits alone. -/
theorem withBit_and_not {i : Nat} {mask : UInt8} (h : (1 <<< UInt8.ofNat i) &&& ~~~mask = 0)
    (b : UInt8) (on : Bool) : withBit b i on &&& ~~~mask = b &&& ~~~mask := by
  unfold withBit
  generalize (1 <<< UInt8.ofNat i : UInt8) = bit at *
  simp only [← UInt8.toBitVec_inj, BitVec.eq_of_getElem_eq_iff] at h ⊢
  intro k hk
  have := h k hk
  split <;> simp at this ⊢ <;> grind

/-- Replacing the bits of `mask` by those of `bits` leaves the other bits alone. -/
theorem merge_and_not {mask bits : UInt8} (h : bits &&& ~~~mask = 0) (b : UInt8) :
    (b &&& ~~~mask ||| bits) &&& ~~~mask = b &&& ~~~mask := by
  simp only [← UInt8.toBitVec_inj, BitVec.eq_of_getElem_eq_iff] at h ⊢
  intro k hk
  have := h k hk
  simp at this ⊢
  grind

/-- The bits of `mask` are then those of `bits`. -/
theorem merge_and {mask bits : UInt8} (h : bits &&& ~~~mask = 0) (b : UInt8) :
    (b &&& ~~~mask ||| bits) &&& mask = bits := by
  simp only [← UInt8.toBitVec_inj, BitVec.eq_of_getElem_eq_iff] at h ⊢
  intro k hk
  have := h k hk
  simp at this ⊢
  grind

/-! ## Bytes of a word -/

theorem toNat_wordOf (high low : UInt8) :
    (wordOf high low).toNat = high.toNat * 256 + low.toNat := by
  have hhigh := high.toNat_lt
  have hlow : low.toNat < 2 ^ 8 := low.toNat_lt
  rw [wordOf, UInt16.toNat_or, UInt16.toNat_shiftLeft]
  show high.toNat <<< 8 % 2 ^ 16 ||| low.toNat = _
  rw [Nat.mod_eq_of_lt (by rw [Nat.shiftLeft_eq]; omega),
    ← Nat.shiftLeft_add_eq_or_of_lt hlow, Nat.shiftLeft_eq]

theorem toNat_highByte (w : UInt16) : (highByte w).toNat = w.toNat / 256 := by
  have := w.toNat_lt
  simp [highByte, Nat.shiftRight_eq_div_pow]
  omega

theorem toNat_lowByte (w : UInt16) : (lowByte w).toNat = w.toNat % 256 := by
  simp [lowByte]

theorem wordOf_bytes (w : UInt16) : wordOf (highByte w) (lowByte w) = w := by
  apply UInt16.toNat_inj.1
  rw [toNat_wordOf, toNat_highByte, toNat_lowByte]
  omega

theorem bytes_wordOf (high low : UInt8) :
    highByte (wordOf high low) = high ∧ lowByte (wordOf high low) = low := by
  have := low.toNat_lt
  constructor <;> apply UInt8.toNat_inj.1
  · rw [toNat_highByte, toNat_wordOf]
    omega
  · rw [toNat_lowByte, toNat_wordOf]
    omega

/-- Twice a word is an address. -/
theorem toNat_packed (w : UInt16) : (UInt32.ofNat (2 * w.toNat)).toNat = 2 * w.toNat := by
  have hlt := w.toNat_lt
  simp
  omega

namespace Memory

/-! ## Bytes -/

theorem get_of_size_le {m : Memory} {n : Nat} (h : m.size ≤ n) : m.get n = 0 := by
  have h' : m.bytes.size ≤ n := h
  rw [get, Array.getD_eq_getD_getElem?, Array.getElem?_eq_none h']
  rfl

/-- The byte at `k` after a byte was put at `n`. -/
theorem get_put (m : Memory) (n k : Nat) (v : UInt8) :
    (m.put n v).get k = if n = k ∧ k < m.size then v else m.get k := by
  by_cases h : n = k
  · subst h
    by_cases hn : n < m.size
    · rw [get_put_self hn, if_pos ⟨rfl, hn⟩]
    · rw [if_neg (fun h => hn h.2), get_of_size_le (by simpa using hn),
        get_of_size_le (Nat.not_lt.1 hn)]
  · rw [get_put_of_ne h, if_neg (fun h' => h h'.1)]

theorem eq_of_get {m m' : Memory} (hsize : m.size = m'.size)
    (hget : ∀ n, m.get n = m'.get n) : m = m' := by
  obtain ⟨bytes⟩ := m
  obtain ⟨bytes'⟩ := m'
  congr 1
  refine Array.ext hsize fun n hn hn' => ?_
  simpa [get, hn, hn'] using hget n

/-- Putting a byte changes memory unless it stood there. -/
theorem put_eq_self_iff {m : Memory} {n : Nat} (h : n < m.size) {v : UInt8} :
    m.put n v = m ↔ m.get n = v := by
  constructor
  · intro heq
    rw [← heq, get_put_self h]
  · rintro rfl
    refine eq_of_get (size_put m n _) fun k => ?_
    rw [get_put]
    split
    · rename_i hk
      rw [hk.1]
    · rfl

@[simp] theorem size_withSessionBits (m : Memory) (bits : UInt8) :
    (m.withSessionBits bits).size = m.size := by
  simp [withSessionBits]

@[simp] theorem size_clearInterpreterFields (m : Memory) : m.clearInterpreterFields.size = m.size := by
  simp [clearInterpreterFields]

/-! ## Checked access -/

theorem check_eq_ok_iff {m : Memory} {a : Address} {n : Nat} :
    m.check a n = .ok () ↔ a.toNat + n ≤ m.size := by
  unfold check
  split <;> simp_all

theorem byte_eq (m : Memory) (a : Address) :
    m.byte a = if a.toNat < m.size then .ok (m.get a.toNat)
      else .error (.access a (.beyondEnd m.size)) := by
  by_cases h : a.toNat < m.size
  · have : a.toNat + 1 ≤ m.size := h
    simp [byte, check, h, this, bind, Except.bind, pure, Except.pure]
  · have : ¬ a.toNat + 1 ≤ m.size := h
    simp [byte, check, h, this, bind, Except.bind]

theorem byte_ok {m : Memory} {a : Address} (h : a.toNat < m.size) :
    m.byte a = .ok (m.get a.toNat) := by
  rw [byte_eq, if_pos h]

theorem lt_size_of_byte {m : Memory} {a : Address} {b : UInt8} (h : m.byte a = .ok b) :
    a.toNat < m.size ∧ b = m.get a.toNat := by
  rw [byte_eq] at h
  split at h
  · cases h; exact ⟨‹_›, rfl⟩
  · cases h

theorem word_eq (m : Memory) (a : Address) :
    m.word a = if a.toNat + 2 ≤ m.size then .ok (m.getWord a.toNat)
      else .error (.access a (.beyondEnd m.size)) := by
  by_cases h : a.toNat + 2 ≤ m.size
  · simp [word, check, h, bind, Except.bind, pure, Except.pure]
  · simp [word, check, h, bind, Except.bind]

theorem setByte_eq (a : Address) (v : UInt8) (m : Memory) :
    setByte a v m = if a.toNat < m.size then .ok () (m.put a.toNat v)
      else .error (.access a (.beyondEnd m.size)) m := by
  by_cases h : a.toNat < m.size
  · rw [if_pos h]
    refine bind_ok (t := m) (a := ()) ?_
    simp [Edit.read, check_eq_ok_iff.2 (show a.toNat + 1 ≤ m.size from h)]
  · rw [if_neg h]
    refine bind_error ?_
    simp [Edit.read, check, show ¬ a.toNat + 1 ≤ m.size from h]

theorem setWord_eq (a : Address) (w : UInt16) (m : Memory) :
    setWord a w m = if a.toNat + 2 ≤ m.size then .ok () (m.putWord a.toNat w)
      else .error (.access a (.beyondEnd m.size)) m := by
  by_cases h : a.toNat + 2 ≤ m.size
  · rw [if_pos h]
    refine bind_ok (t := m) (a := ()) ?_
    simp [Edit.read, check_eq_ok_iff.2 h]
  · rw [if_neg h]
    refine bind_error ?_
    simp [Edit.read, check, h]

theorem setFlag_eq {a : Address} {i : Nat} (hi : i ≤ 7) (on : Bool) (m : Memory) :
    setFlag a i on m = if a.toNat < m.size then .ok () (m.put a.toNat (withBit (m.get a.toNat) i on))
      else .error (.access a (.beyondEnd m.size)) m := by
  have hi' : ¬ 7 < i := Nat.not_lt.2 hi
  by_cases h : a.toNat < m.size
  · rw [if_pos h]
    simp only [setFlag, gt_iff_lt, hi', if_false]
    refine bind_ok (t := m) (a := m.get a.toNat) ?_
    simp [Edit.read, byte_ok h]
  · rw [if_neg h]
    simp only [setFlag, gt_iff_lt, hi', if_false]
    refine bind_error ?_
    simp [Edit.read, byte_eq, h]

/-! ## Memories that differ in some bits only -/

/-- The memories have the same size and agree in all bits but those of `loose`. -/
structure EqOutside (loose : Nat → UInt8) (m m' : Memory) : Prop where
  size : m.size = m'.size
  get : ∀ n, m.get n &&& ~~~loose n = m'.get n &&& ~~~loose n

namespace EqOutside
variable {loose : Nat → UInt8} {m m' m'' : Memory}

theorem refl (loose : Nat → UInt8) (m : Memory) : EqOutside loose m m := ⟨rfl, fun _ => rfl⟩

theorem symm (h : EqOutside loose m m') : EqOutside loose m' m :=
  ⟨h.size.symm, fun n => (h.get n).symm⟩

theorem trans (h : EqOutside loose m m') (h' : EqOutside loose m' m'') : EqOutside loose m m'' :=
  ⟨h.size.trans h'.size, fun n => (h.get n).trans (h'.get n)⟩

/-- Where no bit is loose the bytes are equal. -/
theorem get_eq (h : EqOutside loose m m') {n : Nat} (hn : loose n = 0) : m.get n = m'.get n := by
  have := h.get n
  rw [hn] at this
  simpa using this

/-- A byte is put that differs from the old one in loose bits only. -/
theorem put {n : Nat} {v : UInt8} (h : v &&& ~~~loose n = m.get n &&& ~~~loose n) :
    EqOutside loose m (m.put n v) := by
  refine ⟨(size_put m n v).symm, fun k => ?_⟩
  rw [get_put]
  split
  · rename_i hk; rw [← hk.1, h]
  · rfl

end EqOutside

end Memory

end ZCode
