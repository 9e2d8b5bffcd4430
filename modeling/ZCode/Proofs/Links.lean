/-
  The links of objects as bytes of memory.

  * `ObjectTable.place` is where a link is kept.  No two links share a place, and none stands in the
    header.
  * Writing a link puts a byte at its place (`ends_setLink`), unless it lies in static memory, and
    changes no other link (`Fits.link_put`).
  * `ObjectTable.follow` follows links of one kind, from object to object.
-/
import ZCode.Proofs.Entries

namespace ZCode.ObjectTable

/-- Where a link of an object is kept. -/
def place (t : ObjectTable) (l : Link) (o : UInt16) : Nat := t.start o + l.offset.toNat

variable {t : ObjectTable} {m : Memory} {o x : UInt16} {l k : Link}

theorem IsObject.eq_of_start {j : Nat} (ho : t.IsObject o) (hx : t.IsObject x) {i : Nat}
    (hi : i < entrySize) (hj : j < entrySize) (h : t.start o + i = t.start x + j) :
    o = x ∧ i = j := by
  obtain ⟨ho, -⟩ := ho
  obtain ⟨hx, -⟩ := hx
  unfold start entrySize at *
  have heq : o.toNat = x.toNat := by omega
  exact ⟨UInt16.toNat_inj.1 heq, by omega⟩

/-- Links stand between the attributes and the address of the properties. -/
theorem offset_bounds (l : Link) : 4 ≤ l.offset.toNat ∧ l.offset.toNat < 7 := by
  cases l <;> decide

theorem offset_lt (l : Link) : l.offset.toNat < entrySize :=
  Nat.lt_trans (offset_bounds l).2 (by decide)

theorem offset_inj (h : l.offset.toNat = k.offset.toNat) : l = k := by
  cases l <;> cases k <;> first | rfl | exact absurd h (by decide)

/-- No two links share a place. -/
theorem place_inj (ho : t.IsObject o) (hx : t.IsObject x) (h : t.place l o = t.place k x) :
    l = k ∧ o = x := by
  obtain ⟨rfl, hlk⟩ := ho.eq_of_start hx (offset_lt l) (offset_lt k) h
  exact ⟨offset_inj hlk, rfl⟩

/-- No link stands in the header. -/
theorem header_le_place (t : ObjectTable) (l : Link) (o : UInt16) : Header.size ≤ t.place l o := by
  have hl := (offset_bounds l).1
  unfold place start defaultsSize Header.size
  omega

theorem Fits.place_lt (h : t.Fits m.size) (ho : t.IsObject o) (l : Link) : t.place l o < m.size := by
  have := h.entry o ho
  have := offset_lt l
  unfold place
  omega

/-- The address of a link. -/
theorem Fits.place_eq {size : Nat} (h : t.Fits size) (ho : t.IsObject o) (l : Link) :
    ∃ e, t.entry o = .ok e ∧ (e + l.offset).toNat = t.place l o := by
  obtain ⟨e, he, -⟩ := h.entry_eq ho
  exact ⟨e, he, (h.offset ho he (offset_lt l)).1⟩

/-! ## Reading links -/

theorem Fits.link_eq (h : t.Fits m.size) (ho : t.IsObject o) (l : Link) :
    t.link m l o = .ok (m.get (t.place l o)).toUInt16 := by
  obtain ⟨e, he, hplace⟩ := h.place_eq ho l
  unfold link
  rw [if_neg ho.ne_zero, he, ← hplace]
  rfl

/-- Numbers that are no objects have the same links in every memory. -/
theorem link_congr_of_not (ho : ¬ t.IsObject o) (m m' : Memory) (l : Link) :
    t.link m l o = t.link m' l o := by
  obtain ⟨fault, hfault⟩ := entry_error ho
  unfold link
  rw [hfault]
  rfl

/-- Numbers that are no objects, 0 apart, have no links. -/
theorem link_error (ho : ¬ t.IsObject o) (h0 : o ≠ 0) (m : Memory) (l : Link) :
    ∃ fault, t.link m l o = .error fault := by
  obtain ⟨fault, hfault⟩ := entry_error ho
  refine ⟨fault, ?_⟩
  unfold link
  rw [if_neg h0, hfault]
  rfl

theorem link_le {v : UInt16} (h : t.link m l o = .ok v) : v.toNat ≤ 255 := by
  unfold link at h
  split at h
  · cases h
    decide
  · obtain ⟨e, -, h⟩ := bind_eq_ok_iff.1 h
    cases h
    have := (m.get (e + l.offset).toNat).toNat_lt
    rw [UInt8.toNat_toUInt16]
    omega

theorem toUInt16_toUInt8 {v : UInt16} (h : v.toNat ≤ 255) : v.toUInt8.toUInt16 = v := by
  apply UInt16.toNat_inj.1
  rw [UInt8.toNat_toUInt16, UInt16.toNat_toUInt8]
  omega

/-- The links after a link was written. -/
theorem Fits.link_put (h : t.Fits m.size) (ho : t.IsObject o) {v : UInt16} (hv : v.toNat ≤ 255)
    (l k : Link) (x : UInt16) :
    t.link (m.put (t.place l o) v.toUInt8) k x = if k = l ∧ x = o then .ok v else t.link m k x := by
  by_cases hx : t.IsObject x
  · have h' : t.Fits (m.put (t.place l o) v.toUInt8).size := by rwa [Memory.size_put]
    rw [h'.link_eq hx, h.link_eq hx, Memory.get_put]
    by_cases hsame : k = l ∧ x = o
    · obtain ⟨rfl, rfl⟩ := hsame
      rw [if_pos ⟨rfl, h.place_lt ho k⟩, if_pos ⟨rfl, rfl⟩, toUInt16_toUInt8 hv]
    · rw [if_neg hsame, if_neg]
      rintro ⟨hplace, -⟩
      obtain ⟨rfl, rfl⟩ := place_inj ho hx hplace
      exact hsame ⟨rfl, rfl⟩
  · rw [link_congr_of_not hx _ m, if_neg]
    rintro ⟨-, rfl⟩
    exact hx ho

/-! ## Following links -/

/-- The object that is reached by following a link `n` times. -/
def follow (t : ObjectTable) (m : Memory) (l : Link) : Nat → UInt16 → Except Fault UInt16
  | 0, o => .ok o
  | n + 1, o => do t.follow m l n (← t.link m l o)

section
variable {n j : Nat} {y next : UInt16}

theorem follow_succ_eq_ok_iff :
    t.follow m l (n + 1) x = .ok y ↔ ∃ z, t.link m l x = .ok z ∧ t.follow m l n z = .ok y :=
  bind_eq_ok_iff

theorem follow_succ (h : t.link m l x = .ok next) : t.follow m l (n + 1) x = t.follow m l n next := by
  simp [follow, h, bind, Except.bind]

theorem follow_add (h : t.follow m l j x = .ok y) (n : Nat) :
    t.follow m l (j + n) x = t.follow m l n y := by
  induction j generalizing x with
  | zero =>
    cases h
    rw [Nat.zero_add]
  | succ j ih =>
    obtain ⟨z, hz, hy⟩ := follow_succ_eq_ok_iff.1 h
    rw [Nat.succ_add, follow_succ hz, ih hy]

/-- No link leads on from no object. -/
@[simp] theorem follow_null (t : ObjectTable) (m : Memory) (l : Link) (n : Nat) :
    t.follow m l n 0 = .ok 0 := by
  induction n with
  | zero => rfl
  | succ n ih => rw [follow_succ (show t.link m l 0 = .ok 0 from rfl), ih]

/-- A way that ends does so at every later step. -/
theorem follow_null_of_le (h : t.follow m l j x = .ok 0) (hle : j ≤ n) : t.follow m l n x = .ok 0 := by
  obtain ⟨d, rfl⟩ := Nat.exists_eq_add_of_le hle
  rw [follow_add h, follow_null]

/-- What can be followed to its end can be followed that far. -/
theorem follow_ok_of_le (h : t.follow m l n x = .ok y) (hle : j ≤ n) :
    ∃ z, t.follow m l j x = .ok z := by
  induction j generalizing x n with
  | zero => exact ⟨x, rfl⟩
  | succ j ih =>
    obtain ⟨n, rfl⟩ : ∃ k, n = k + 1 := ⟨n - 1, by omega⟩
    obtain ⟨z, hz, hy⟩ := follow_succ_eq_ok_iff.1 h
    rw [follow_succ hz]
    exact ih hy (Nat.le_of_succ_le_succ hle)

/-- A way that comes back to its start never ends. -/
theorem follow_mul (h : t.follow m l n o = .ok o) (j : Nat) : t.follow m l (n * j) o = .ok o := by
  induction j with
  | zero => rfl
  | succ j ih => rw [Nat.mul_succ, follow_add ih, h]

end

/-! ## Writing links -/

/-- The fault of writing a link in static memory. -/
def StaticLink (t : ObjectTable) (p : Protection) (fault : Fault) : Prop :=
  ∃ (l : Link) (o : UInt16) (a : Address), t.IsObject o ∧ a.toNat = t.place l o ∧
    p.staticBase.toNat ≤ t.place l o ∧ fault = .access a (.staticMemory p.staticBase)

theorem Fits.setLink_eq (h : t.Fits m.size) (ho : t.IsObject o) (p : Protection) (l : Link)
    (v : UInt16) : ∃ a : Address, a.toNat = t.place l o ∧ t.setLink p l o v m =
      if t.place l o < p.staticBase.toNat then .ok () (m.put (t.place l o) v.toUInt8)
      else .error (.access a (.staticMemory p.staticBase)) m := by
  obtain ⟨e, he, hplace⟩ := h.place_eq ho l
  have hlt := h.place_lt ho l
  have hread : Edit.read (fun _ => t.entry o) m = .ok e m := by simp only [Edit.read, he]
  refine ⟨e + l.offset, hplace, ?_⟩
  unfold setLink
  rw [bind_ok hread, Protection.writeByte_eq,
    Protection.checkWrite_of_le (hplace ▸ t.header_le_place l o), hplace]
  by_cases hd : t.place l o < p.staticBase.toNat
  · rw [if_pos hd, if_pos hd]
    show Memory.setByte _ _ m = _
    rw [Memory.setByte_eq, hplace, if_pos hlt]
  · rw [if_neg hd, if_neg hd]

theorem ends_setLink (h : t.Fits m.size) (ho : t.IsObject o) (p : Protection) (l : Link)
    (v : UInt16) : Ends (fun _ m' => m' = m.put (t.place l o) v.toUInt8) (t.StaticLink p)
      (t.setLink p l o v m) := by
  obtain ⟨a, ha, hset⟩ := h.setLink_eq ho p l v
  rw [hset]
  split
  · rfl
  · exact ⟨l, o, a, ho, ha, Nat.not_lt.1 ‹_›, rfl⟩

/-! ## What is not a link -/

/-- The memories differ in the bytes `touched` at most, and these are links: attributes and property
tables are the same. -/
structure Kept (t : ObjectTable) (touched : Nat → Prop) (m m' : Memory) : Prop where
  size : m'.size = m.size
  bytes : ∀ n, ¬ touched n → m'.get n = m.get n
  attributes : ∀ o n, t.testAttribute m' o n = t.testAttribute m o n
  properties : ∀ o, t.propertyTable m' o = t.propertyTable m o

theorem testAttribute_congr {m' : Memory} (n : UInt16)
    (h : ∀ e, t.entry o = .ok e → m'.getLong e.toNat = m.getLong e.toNat) :
    t.testAttribute m' o n = t.testAttribute m o n := by
  unfold testAttribute
  cases he : t.entry o with
  | error fault => simp only [bind, Except.bind]
  | ok e => simp only [bind, Except.bind, h e he]

theorem propertyTable_congr {m' : Memory}
    (h : ∀ e, t.entry o = .ok e → m'.getWord (e + 7).toNat = m.getWord (e + 7).toNat) :
    t.propertyTable m' o = t.propertyTable m o := by
  unfold propertyTable
  cases he : t.entry o with
  | error fault => simp only [bind, Except.bind]
  | ok e => simp only [bind, Except.bind, h e he]

theorem Fits.kept (h : t.Fits m.size) {touched : Nat → Prop} {m' : Memory} (hsize : m'.size = m.size)
    (hbytes : ∀ n, ¬ touched n → m'.get n = m.get n)
    (hlinks : ∀ n, touched n → ∃ l x, t.IsObject x ∧ n = t.place l x) : t.Kept touched m m' := by
  -- the other bytes of an entry are no links
  have hother {o : UInt16} (ho : t.IsObject o) {i : Nat} (hi : i < entrySize) (hne : i < 4 ∨ 7 ≤ i) :
      m'.get (t.start o + i) = m.get (t.start o + i) := by
    refine hbytes _ fun htouched => ?_
    obtain ⟨l, x, hx, hplace⟩ := hlinks _ htouched
    have hil := (ho.eq_of_start hx hi (offset_lt l) hplace).2
    have hbounds := offset_bounds l
    omega
  refine ⟨hsize, hbytes, fun o n => testAttribute_congr n fun e he => ?_,
    fun o => propertyTable_congr fun e he => ?_⟩
  · have ho := isObject_of_entry he
    obtain ⟨_, he', hstart⟩ := h.entry_eq ho
    obtain rfl := Except.ok.inj (he.symm.trans he')
    have h0 := hother ho (i := 0) (by decide) (by decide)
    have h1 := hother ho (i := 1) (by decide) (by decide)
    have h2 := hother ho (i := 2) (by decide) (by decide)
    have h3 := hother ho (i := 3) (by decide) (by decide)
    rw [hstart]
    unfold Memory.getLong Memory.getWord
    simp only [Nat.add_zero] at h0
    simp only [Nat.add_assoc, Nat.reduceAdd, h0, h1, h2, h3]
  · have ho := isObject_of_entry he
    have h7 := hother ho (i := 7) (by decide) (by decide)
    have h8 := hother ho (i := 8) (by decide) (by decide)
    have hseven : (e + 7).toNat = t.start o + 7 := (h.offset ho he (by decide)).1
    rw [hseven]
    unfold Memory.getWord
    rw [h7, Nat.add_assoc, h8]

end ZCode.ObjectTable
