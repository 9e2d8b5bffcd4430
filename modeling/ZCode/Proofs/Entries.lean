/-
  The entries of an object table.

  * `ObjectTable.Fits` says that all entries of a table lie in memory; a located table fits the
    memory it was located in (`locate_fits`).
  * `ObjectTable.start` is the address of an entry as a number, free of wrapping around.
-/
import ZCode.Proofs.Writes

namespace ZCode.ObjectTable

/-- The number of an object of the table. -/
def IsObject (t : ObjectTable) (o : UInt16) : Prop := 1 ≤ o.toNat ∧ o.toNat ≤ t.count.toNat

/-- Where the entry of an object starts. -/
def start (t : ObjectTable) (o : UInt16) : Nat :=
  t.address.toNat + defaultsSize + (o.toNat - 1) * entrySize

/-- The whole table lies in a memory of this size, at an address that a word can hold. -/
structure Fits (t : ObjectTable) (size : Nat) : Prop where
  address : t.address.toNat < 65536
  count : t.count.toNat ≤ maxObject
  entry : ∀ o, t.IsObject o → t.start o + entrySize ≤ size

theorem countObjects_le (m : Memory) (a : Address) : countObjects m a ≤ maxObject := by
  unfold countObjects
  dsimp only
  split
  · exact Nat.zero_le _
  · exact Nat.le_trans (Nat.min_le_left _ _) (Nat.min_le_right _ _)

theorem countObjects_entries (m : Memory) (a : Address) :
    countObjects m a = 0 ∨
      a.toNat + defaultsSize + countObjects m a * entrySize ≤ m.size := by
  unfold countObjects
  dsimp only
  split
  · exact .inl rfl
  · refine .inr (Nat.le_trans (Nat.add_le_add_left
      (Nat.mul_le_mul_right _ (Nat.min_le_right _ _)) _) ?_)
    have := Nat.div_mul_le_self (m.size - (a.toNat + defaultsSize)) entrySize
    omega

/-- Every entry of a located table lies in memory. -/
theorem locate_fits (m : Memory) {a : Address} (ha : a.toNat < 65536) :
    (locate m a).Fits m.size := by
  have hle := countObjects_le m a
  have hcount : (UInt16.ofNat (countObjects m a)).toNat = countObjects m a := by
    unfold maxObject at hle
    rw [UInt16.toNat_ofNat', Nat.mod_eq_of_lt]
    omega
  refine ⟨ha, hcount.symm ▸ hle, ?_⟩
  rintro o ⟨h1, h2⟩
  have h2 : o.toNat ≤ countObjects m a := hcount ▸ h2
  rcases countObjects_entries m a with h0 | hend
  · omega
  · have := Nat.mul_le_mul_right entrySize h2
    show a.toNat + defaultsSize + (o.toNat - 1) * entrySize + entrySize ≤ m.size
    rw [Nat.sub_mul]
    have : entrySize ≤ o.toNat * entrySize := Nat.le_mul_of_pos_left _ h1
    omega

variable {t : ObjectTable} {size : Nat}

theorem IsObject.ne_zero {o : UInt16} (h : t.IsObject o) : o ≠ 0 := by
  rintro rfl
  exact absurd h.1 (by decide)

theorem isObject_iff {o : UInt16} : t.IsObject o ↔ o ≠ 0 ∧ o ≤ t.count := by
  have hpos : 1 ≤ o.toNat ↔ o ≠ 0 := by
    rw [Nat.one_le_iff_ne_zero, Ne, Ne, ← UInt16.toNat_inj]
    rfl
  rw [IsObject, hpos, UInt16.le_iff_toNat_le]

theorem Fits.entry_eq (h : t.Fits size) {o : UInt16} (ho : t.IsObject o) :
    ∃ e, t.entry o = .ok e ∧ e.toNat = t.start o := by
  have hne := ho.ne_zero
  have hle := (isObject_iff.1 ho).2
  refine ⟨_, if_neg (by simp [hne, UInt16.not_lt.2 hle]), ?_⟩
  have ha := h.address
  have hc := h.count
  obtain ⟨h1, h2⟩ := ho
  have hsub : (o - 1).toNat = o.toNat - 1 := UInt16.toNat_sub_of_le _ _ (by
    rw [UInt16.le_iff_toNat_le]; exact h1)
  unfold start maxObject defaultsSize entrySize at *
  rw [UInt32.toNat_add, UInt32.toNat_add, UInt32.toNat_mul, UInt16.toNat_toUInt32, hsub]
  simp
  omega

/-- The bytes of an entry lie in memory. -/
theorem Fits.offset (h : t.Fits size) {o : UInt16} (ho : t.IsObject o) {e : Address}
    (he : t.entry o = .ok e) {i : Address} (hi : i.toNat < entrySize) :
    (e + i).toNat = t.start o + i.toNat ∧ t.start o + entrySize ≤ size := by
  obtain ⟨e', he', hstart⟩ := h.entry_eq ho
  obtain rfl := Except.ok.inj (he.symm.trans he')
  have ha := h.address
  have hc := h.count
  refine ⟨?_, h.entry o ho⟩
  obtain ⟨-, hle⟩ := ho
  rw [UInt32.toNat_add, hstart, Nat.mod_eq_of_lt]
  unfold start maxObject defaultsSize entrySize at *
  omega

theorem entry_error {o : UInt16} (ho : ¬ t.IsObject o) : ∃ fault, t.entry o = .error fault := by
  refine ⟨_, if_pos ?_⟩
  rw [isObject_iff] at ho
  by_cases h0 : o = 0
  · exact .inl h0
  · exact .inr (UInt16.not_le.1 fun h => ho ⟨h0, h⟩)

theorem isObject_of_entry {o : UInt16} {e : Address} (h : t.entry o = .ok e) : t.IsObject o := by
  refine Classical.byContradiction fun ho => ?_
  obtain ⟨fault, hfault⟩ := entry_error ho
  rw [hfault] at h
  cases h

end ZCode.ObjectTable
