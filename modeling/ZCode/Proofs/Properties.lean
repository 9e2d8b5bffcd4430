/-
  Property tables as lists.

  * `HasProperties t m o name l` says that memory holds, as the property table of an object, a name and
    these entries, sorted by number from high to low.
  * The search comes to the entry of a number, or to the place where it would have to stand
    (`findProperty_of_append`, `findProperty_of_notMem`).  All functions on properties are read off from
    that, and writing a property gives a table with other data in one entry
    (`HasProperties.replace`).
  * From entry to entry the search goes forward (`GoesOn`), so that it stops in every memory
    (`findProperty_stops`).
-/
import Mathlib.Data.List.Chain
import ZCode.Proofs.Containment
import ZCode.Proofs.Grammar

namespace ZCode

/-! ## Bytes in memory -/

namespace Memory

theorem Holds.congr {m m' : Memory} (hsize : m'.size = m.size) {n : Nat} {bytes : List UInt8}
    (h : m.Holds n bytes) (hget : ∀ k, n ≤ k → k < n + bytes.length → m'.get k = m.get k) :
    m'.Holds n bytes := by
  induction bytes generalizing n with
  | nil => trivial
  | cons b bytes ih =>
    obtain ⟨hlt, hb, hrest⟩ := h
    refine ⟨hsize ▸ hlt, ?_, ih hrest fun k hk hk' => ?_⟩
    · rw [hget n (Nat.le_refl n) (by simp), hb]
    · exact hget k (by omega) (by simp only [List.length_cons]; omega)

end Memory

namespace ObjectTable

/-! ## Entries -/

/-- An entry of a property list. -/
structure PropertyEntry where
  number : UInt16
  data : List UInt8
  number_pos : 1 ≤ number.toNat
  number_le : number.toNat ≤ 31
  data_pos : 1 ≤ data.length
  data_le : data.length ≤ 8

namespace PropertyEntry

/-- The first byte: the size less one and the number. -/
def head (e : PropertyEntry) : UInt8 := UInt8.ofNat ((e.data.length - 1) * 32 + e.number.toNat)

def bytes (e : PropertyEntry) : List UInt8 := e.head :: e.data

/-- The entry with other data of the same size. -/
def withData (e : PropertyEntry) (data : List UInt8) (h : data.length = e.data.length) :
    PropertyEntry :=
  ⟨e.number, data, e.number_pos, e.number_le, h ▸ e.data_pos, h ▸ e.data_le⟩

theorem toNat_head (e : PropertyEntry) :
    e.head.toNat = (e.data.length - 1) * 32 + e.number.toNat := by
  have hnumber := e.number_le
  have hdata := e.data_le
  rw [head, UInt8.toNat_ofNat']
  omega

theorem head_ne_zero (e : PropertyEntry) : e.head ≠ 0 := by
  intro h
  have hpos := e.number_pos
  have hhead := e.toNat_head
  rw [h] at hhead
  simp at hhead
  omega

theorem propertyNumber_head (e : PropertyEntry) : propertyNumber e.head = e.number := by
  have hle := e.number_le
  apply UInt16.toNat_inj.1
  have hmask : (e.head &&& 0x1F).toNat = e.head.toNat % 32 := by
    rw [UInt8.toNat_and]
    exact Nat.and_two_pow_sub_one_eq_mod e.head.toNat 5
  rw [propertyNumber, UInt8.toNat_toUInt16, hmask, toNat_head]
  omega

theorem toNat_propertySize_head (e : PropertyEntry) : (propertySize e.head).toNat = e.data.length := by
  have hle := e.number_le
  have hpos := e.data_pos
  have hdata := e.data_le
  have hshift : (e.head >>> 5).toNat = e.head.toNat / 32 := by
    rw [UInt8.toNat_shiftRight]
    exact Nat.shiftRight_eq_div_pow e.head.toNat 5
  rw [propertySize, UInt16.toNat_add, UInt8.toNat_toUInt16, hshift, toNat_head]
  simp
  omega

theorem propertySize_head (e : PropertyEntry) :
    propertySize e.head = UInt16.ofNat e.data.length := by
  have hdata := e.data_le
  apply UInt16.toNat_inj.1
  rw [toNat_propertySize_head, UInt16.toNat_ofNat']
  omega

end PropertyEntry

/-! ## The search -/

variable {t : ObjectTable} {m m' : Memory} {o n : UInt16} {l before after : List PropertyEntry}
  {e : PropertyEntry} {k : Nat}

/-- The bytes of a list of entries, with the zero byte at its end. -/
def listBytes (l : List PropertyEntry) : List UInt8 := l.flatMap (·.bytes) ++ [0]

/-- How many bytes the entries take. -/
def extent (l : List PropertyEntry) : Nat := (l.flatMap (·.bytes)).length

theorem extent_cons (e : PropertyEntry) (l : List PropertyEntry) :
    extent (e :: l) = 1 + e.data.length + extent l := by
  simp [extent, PropertyEntry.bytes]
  omega

theorem extent_append (l l' : List PropertyEntry) : extent (l ++ l') = extent l + extent l' := by
  simp [extent]

theorem holds_listBytes_cons : m.Holds k (listBytes (e :: l)) ↔ k < m.size ∧ m.get k = e.head ∧
    m.Holds (k + 1) e.data ∧ m.Holds (k + 1 + e.data.length) (listBytes l) := by
  have hbytes : listBytes (e :: l) = e.head :: (e.data ++ listBytes l) := by
    simp [listBytes, PropertyEntry.bytes]
  rw [hbytes, Memory.Holds, Memory.holds_append]

theorem holds_listBytes_append : m.Holds k (listBytes (before ++ l)) ↔
    m.Holds k (before.flatMap (·.bytes)) ∧ m.Holds (k + extent before) (listBytes l) := by
  have hbytes : listBytes (before ++ l) = before.flatMap (·.bytes) ++ listBytes l := by
    simp [listBytes]
  rw [hbytes, Memory.holds_append, extent]

/-- The search goes by an entry with a greater number. -/
theorem findProperty_cons (h : m.Holds k (listBytes (e :: l))) (hlt : n < e.number) :
    findProperty m n k = findProperty m n (k + 1 + e.data.length) := by
  obtain ⟨hk, hhead, -⟩ := holds_listBytes_cons.1 h
  rw [findProperty, if_pos hk]
  dsimp only
  rw [hhead, e.propertyNumber_head, e.toNat_propertySize_head, if_neg, if_neg]
  · exact fun h => absurd (h ▸ hlt) (UInt16.lt_irrefl _)
  · rintro (h | h)
    · exact e.head_ne_zero h
    · exact absurd (UInt16.lt_trans h hlt) (UInt16.lt_irrefl _)

/-- The search comes to the entry of a number in a descending list. -/
theorem findProperty_of_append (h : m.Holds k (listBytes (before ++ e :: after)))
    (hdesc : (before ++ e :: after).Pairwise fun e f => f.number < e.number) :
    findProperty m e.number k =
      .ok (some ⟨UInt32.ofNat (k + extent before + 1), UInt16.ofNat e.data.length⟩) := by
  induction before generalizing k with
  | nil =>
    obtain ⟨hk, hhead, -⟩ := holds_listBytes_cons.1 h
    rw [findProperty, if_pos hk]
    dsimp only
    rw [hhead, e.propertyNumber_head, e.propertySize_head, if_neg, if_pos rfl]
    · rfl
    · rintro (h | h)
      · exact e.head_ne_zero h
      · exact absurd h (UInt16.lt_irrefl _)
  | cons f before ih =>
    rw [List.cons_append] at h hdesc
    obtain ⟨hfirst, hrest⟩ := List.pairwise_cons.1 hdesc
    rw [findProperty_cons h (hfirst e (by simp)), ih (holds_listBytes_cons.1 h).2.2.2 hrest,
      extent_cons, show k + 1 + f.data.length + extent before =
        k + (1 + f.data.length + extent before) by omega]

/-- A number that is not listed is not found. -/
theorem findProperty_of_notMem (h : m.Holds k (listBytes l)) (hnone : ∀ e ∈ l, e.number ≠ n) :
    findProperty m n k = .ok none := by
  induction l generalizing k with
  | nil =>
    obtain ⟨hk, hzero, -⟩ : k < m.size ∧ m.get k = 0 ∧ True := h
    rw [findProperty, if_pos hk]
    dsimp only
    rw [if_pos (.inl hzero)]
  | cons e l ih =>
    obtain ⟨hne, hrest⟩ := List.forall_mem_cons.1 hnone
    by_cases hlt : n < e.number
    · rw [findProperty_cons h hlt]
      exact ih (holds_listBytes_cons.1 h).2.2.2 hrest
    · -- behind a smaller number it cannot stand
      obtain ⟨hk, hhead, -⟩ := holds_listBytes_cons.1 h
      have hgt : e.number < n := by
        rw [UInt16.lt_iff_toNat_lt] at hlt ⊢
        have hne' : e.number.toNat ≠ n.toNat := fun h => hne (UInt16.toNat_inj.1 h)
        omega
      rw [findProperty, if_pos hk]
      dsimp only
      rw [hhead, e.propertyNumber_head, if_pos (.inr hgt)]

/-- In the place behind some entries stands the number of the next one, or 0. -/
theorem propertyNumber_get (h : m.Holds k (listBytes (before ++ after))) :
    k + extent before < m.size ∧ propertyNumber (m.get (k + extent before)) =
      (after.map (·.number)).headD 0 := by
  have hafter := (holds_listBytes_append.1 h).2
  cases after with
  | nil =>
    obtain ⟨hk, hzero, -⟩ : _ ∧ m.get (k + extent before) = 0 ∧ True := hafter
    exact ⟨hk, by rw [hzero]; rfl⟩
  | cons e after =>
    obtain ⟨hk, hhead, -⟩ := holds_listBytes_cons.1 hafter
    exact ⟨hk, by rw [hhead, e.propertyNumber_head]; rfl⟩

/-! ## The table -/

/-- Where the property table of an object stands. -/
def propertiesAt (t : ObjectTable) (m : Memory) (o : UInt16) : Nat :=
  (m.getWord (t.start o + 7)).toNat

/-- The property table of an object holds a name and these entries. -/
structure HasProperties (t : ObjectTable) (m : Memory) (o : UInt16) (name : List UInt16)
    (l : List PropertyEntry) : Prop where
  object : t.IsObject o
  length_name : name.length ≤ 255
  descending : l.Pairwise fun e f => f.number < e.number
  holds : m.Holds (t.propertiesAt m o)
    (UInt8.ofNat name.length :: name.flatMap wordBytes ++ listBytes l)
  /-- The table and the entry of the object have no byte in common. -/
  apart : t.propertiesAt m o + (1 + 2 * name.length + (extent l + 1)) ≤ t.start o ∨
    t.start o + entrySize ≤ t.propertiesAt m o

/-- Where the entries of a property table start. -/
def entriesAt (t : ObjectTable) (m : Memory) (o : UInt16) (name : List UInt16) : Nat :=
  t.propertiesAt m o + 1 + 2 * name.length

theorem length_flatMap_wordBytes (name : List UInt16) :
    (name.flatMap wordBytes).length = 2 * name.length := by
  induction name with
  | nil => rfl
  | cons w name ih => simp [wordBytes, ih]; omega

theorem length_le_number {e : PropertyEntry} {l : List PropertyEntry}
    (h : (e :: l).Pairwise fun e f => f.number < e.number) : l.length < e.number.toNat := by
  induction l generalizing e with
  | nil => exact e.number_pos
  | cons f l ih =>
    obtain ⟨hfirst, hrest⟩ := List.pairwise_cons.1 h
    have hlt := UInt16.lt_iff_toNat_lt.1 (hfirst f (by simp))
    have := ih hrest
    simp only [List.length_cons]
    omega

theorem extent_le (l : List PropertyEntry) : extent l ≤ 9 * l.length := by
  induction l with
  | nil => exact Nat.le_refl 0
  | cons e l ih =>
    have hdata := e.data_le
    rw [extent_cons, List.length_cons]
    omega

theorem Fits.propertyTable_eq (hfit : t.Fits m.size) (ho : t.IsObject o) :
    t.propertyTable m o = .ok (m.getWord (t.start o + 7)).toUInt32 := by
  obtain ⟨a, ha, -⟩ := hfit.entry_eq ho
  have hseven : (a + 7).toNat = t.start o + 7 := (hfit.offset ho ha (by decide)).1
  unfold propertyTable
  rw [ha, ← hseven]
  rfl

namespace HasProperties

variable {name : List UInt16}

theorem list (h : t.HasProperties m o name l) : m.Holds (t.entriesAt m o name) (listBytes l) := by
  have hbytes := (Memory.holds_append.1 h.holds).2
  rwa [List.length_cons, length_flatMap_wordBytes, ← Nat.add_assoc,
    show t.propertiesAt m o + 2 * name.length + 1 = t.entriesAt m o name by
      unfold entriesAt; omega] at hbytes

theorem extent_lt (h : t.HasProperties m o name l) : extent l ≤ 9 * 31 := by
  refine Nat.le_trans (extent_le l) (Nat.mul_le_mul_left 9 ?_)
  cases l with
  | nil => exact Nat.zero_le _
  | cons e l =>
    have hlength := length_le_number h.descending
    have hnumber := e.number_le
    rw [List.length_cons]
    omega

/-- All addresses in the table are far from wrapping around. -/
theorem entriesAt_le (h : t.HasProperties m o name l) : t.entriesAt m o name < 65536 + 511 := by
  have hword := (m.getWord (t.start o + 7)).toNat_lt
  have hname := h.length_name
  unfold entriesAt propertiesAt
  omega

theorem firstProperty_eq (h : t.HasProperties m o name l) (hfit : t.Fits m.size) :
    t.firstProperty m o = .ok (UInt32.ofNat (t.entriesAt m o name)) := by
  have hword := (m.getWord (t.start o + 7)).toNat_lt
  have hname := h.length_name
  obtain ⟨hlt, hlength, -⟩ := h.holds
  have htable : (m.getWord (t.start o + 7)).toUInt32.toNat = t.propertiesAt m o :=
    UInt16.toNat_toUInt32 _
  have hbyte : m.byte (m.getWord (t.start o + 7)).toUInt32 = .ok (UInt8.ofNat name.length) := by
    rw [Memory.byte_ok (by rwa [htable]), htable, hlength]
  unfold firstProperty
  rw [hfit.propertyTable_eq h.object]
  show (m.byte _ >>= fun n => pure (_ + n.toUInt32 * 2 + 1)) = _
  rw [hbyte]
  show Except.ok _ = _
  congr 1
  apply UInt32.toNat_inj.1
  rw [UInt32.toNat_add, UInt32.toNat_add, UInt32.toNat_mul, htable, UInt8.toNat_toUInt32,
    UInt8.toNat_ofNat', UInt32.toNat_ofNat']
  unfold entriesAt propertiesAt
  simp
  omega

theorem toNat_entriesAt (h : t.HasProperties m o name l) :
    (UInt32.ofNat (t.entriesAt m o name)).toNat = t.entriesAt m o name := by
  have hle := h.entriesAt_le
  rw [UInt32.toNat_ofNat', Nat.mod_eq_of_lt]
  omega

theorem propertyData_eq (h : t.HasProperties m o name l) (hfit : t.Fits m.size)
    (hpos : 1 ≤ n.toNat) (hle : n.toNat ≤ 31) :
    t.propertyData m o n = findProperty m n (t.entriesAt m o name) := by
  have hrange : ¬ (n < 1 ∨ maxProperty < n) := by
    simp only [UInt16.lt_iff_toNat_lt, maxProperty]
    simp
    omega
  unfold propertyData
  rw [if_neg hrange, h.firstProperty_eq hfit]
  show findProperty m n _ = _
  rw [h.toNat_entriesAt]

/-- A number that is not listed. -/
theorem propertyData_unlisted (h : t.HasProperties m o name l) (hfit : t.Fits m.size)
    (hpos : 1 ≤ n.toNat) (hle : n.toNat ≤ 31) (hnone : ∀ e ∈ l, e.number ≠ n) :
    t.propertyData m o n = .ok none := by
  rw [h.propertyData_eq hfit hpos hle, findProperty_of_notMem h.list hnone]

theorem property_unlisted (h : t.HasProperties m o name l) (hfit : t.Fits m.size)
    (hpos : 1 ≤ n.toNat) (hle : n.toNat ≤ 31) (hnone : ∀ e ∈ l, e.number ≠ n) :
    t.property m o n = .ok (m.getWord (t.address.toNat + 2 * (n.toNat - 1))) := by
  have hrange : ¬ (n < 1 ∨ maxProperty < n) := by
    simp only [UInt16.lt_iff_toNat_lt, maxProperty]
    simp
    omega
  have haddress := hfit.address
  have hend := hfit.entry o h.object
  have hsub : (n - 1).toNat = n.toNat - 1 := UInt16.toNat_sub_of_le _ _ (by
    rw [UInt16.le_iff_toNat_le]; exact hpos)
  have hplace : (t.address + (n - 1).toUInt32 * 2).toNat = t.address.toNat + 2 * (n.toNat - 1) := by
    rw [UInt32.toNat_add, UInt32.toNat_mul, UInt16.toNat_toUInt32, hsub]
    simp
    omega
  unfold property
  rw [h.propertyData_unlisted hfit hpos hle hnone]
  show t.defaultProperty m n = _
  unfold defaultProperty
  rw [if_neg hrange]
  show m.word _ = _
  rw [Memory.word_eq, hplace, if_pos]
  unfold start defaultsSize at hend
  omega

end HasProperties

/-- Where the data of an entry stand. -/
def dataAt (t : ObjectTable) (m : Memory) (o : UInt16) (name : List UInt16)
    (before : List PropertyEntry) : Nat :=
  t.entriesAt m o name + extent before + 1

namespace HasProperties

variable {name : List UInt16}

theorem propertyData_listed (h : t.HasProperties m o name (before ++ e :: after))
    (hfit : t.Fits m.size) : t.propertyData m o e.number =
      .ok (some ⟨UInt32.ofNat (t.dataAt m o name before), UInt16.ofNat e.data.length⟩) := by
  rw [h.propertyData_eq hfit e.number_pos e.number_le,
    findProperty_of_append h.list h.descending]
  rfl

theorem dataAt_le (h : t.HasProperties m o name (before ++ e :: after)) :
    t.dataAt m o name before + e.data.length < 65536 + 511 + 281 := by
  have hextent := h.extent_lt
  have hentries := h.entriesAt_le
  rw [extent_append, extent_cons] at hextent
  unfold dataAt
  omega

theorem toNat_dataAt (h : t.HasProperties m o name (before ++ e :: after)) :
    (UInt32.ofNat (t.dataAt m o name before)).toNat = t.dataAt m o name before := by
  have hle := h.dataAt_le
  rw [UInt32.toNat_ofNat', Nat.mod_eq_of_lt]
  omega

/-- The parts of the entry in memory. -/
theorem entry (h : t.HasProperties m o name (before ++ e :: after)) :
    m.get (t.dataAt m o name before - 1) = e.head ∧
      m.Holds (t.dataAt m o name before) e.data ∧
      t.dataAt m o name before + e.data.length < m.size ∧
      propertyNumber (m.get (t.dataAt m o name before + e.data.length)) =
        (after.map (·.number)).headD 0 := by
  have hparts := (holds_listBytes_append.1 h.list).2
  obtain ⟨-, hhead, hdata, -⟩ := holds_listBytes_cons.1 hparts
  have hlist : m.Holds (t.entriesAt m o name) (listBytes ((before ++ [e]) ++ after)) := by
    rw [List.append_assoc]
    exact h.list
  obtain ⟨hlt, hnext⟩ := propertyNumber_get hlist
  have hend : t.entriesAt m o name + extent (before ++ [e]) =
      t.dataAt m o name before + e.data.length := by
    rw [extent_append, extent_cons]
    unfold dataAt
    show _ + (_ + (_ + 0)) = _
    omega
  rw [hend] at hlt hnext
  exact ⟨hhead, hdata, hlt, hnext⟩

theorem propertyAddress_listed (h : t.HasProperties m o name (before ++ e :: after))
    (hfit : t.Fits m.size) :
    t.propertyAddress m o e.number = .ok (UInt32.ofNat (t.dataAt m o name before)) := by
  unfold propertyAddress
  rw [h.propertyData_listed hfit]
  rfl

theorem propertyLength_listed (h : t.HasProperties m o name (before ++ e :: after)) :
    propertyLength m (UInt32.ofNat (t.dataAt m o name before)) =
      .ok (UInt16.ofNat e.data.length) := by
  obtain ⟨hhead, -, hlt, -⟩ := h.entry
  have hd := h.toNat_dataAt
  have hpos : 1 ≤ t.dataAt m o name before := Nat.le_add_left 1 _
  generalize UInt32.ofNat (t.dataAt m o name before) = a at hd
  have hne : a ≠ 0 := by
    rintro rfl
    rw [← hd] at hpos
    exact absurd hpos (by decide)
  have hsub : (a - 1).toNat = t.dataAt m o name before - 1 := by
    rw [UInt32.toNat_sub_of_le _ _ (by rw [UInt32.le_iff_toNat_le, hd]; exact hpos), hd]
    rfl
  unfold propertyLength
  rw [if_neg hne]
  show (m.byte (a - 1) >>= fun b => pure (propertySize b)) = _
  rw [Memory.byte_ok (by omega), hsub, hhead, ← e.propertySize_head]
  rfl

theorem nextProperty_listed (h : t.HasProperties m o name (before ++ e :: after))
    (hfit : t.Fits m.size) :
    t.nextProperty m o e.number = .ok ((after.map (·.number)).headD 0) := by
  obtain ⟨-, -, hlt, hnext⟩ := h.entry
  have hne : e.number ≠ 0 := by
    intro h0
    have hpos := e.number_pos
    rw [h0] at hpos
    exact absurd hpos (by decide)
  have hend : (UInt32.ofNat (t.dataAt m o name before) +
      (UInt16.ofNat e.data.length).toUInt32).toNat =
        t.dataAt m o name before + e.data.length := by
    have hle := h.dataAt_le
    have hdata := e.data_le
    rw [UInt32.toNat_add, h.toNat_dataAt, UInt16.toNat_toUInt32, UInt16.toNat_ofNat']
    omega
  unfold nextProperty
  rw [if_neg hne, h.propertyData_listed hfit]
  show (m.byte _ >>= fun b => pure (propertyNumber b)) = _
  rw [Memory.byte_ok (by rwa [hend]), hend, ← hnext]
  rfl

/-- The listed numbers follow each other. -/
theorem isChain_nextProperty (h : t.HasProperties m o name l) (hfit : t.Fits m.size) :
    (0 :: (l.map (·.number) ++ [0])).IsChain fun a b => t.nextProperty m o a = .ok b := by
  have hstart : t.nextProperty m o 0 = .ok ((l.map (·.number)).headD 0) := by
    have hlist : m.Holds (t.entriesAt m o name) (listBytes ([] ++ l)) := h.list
    obtain ⟨hlt, hnumber⟩ := propertyNumber_get hlist
    unfold nextProperty
    rw [if_pos rfl, h.firstProperty_eq hfit]
    show (m.byte _ >>= fun b => pure (propertyNumber b)) = _
    rw [Memory.byte_ok (by rwa [h.toNat_entriesAt]), h.toNat_entriesAt, ← hnumber]
    rfl
  -- what is behind some of the entries follows whatever leads there
  suffices hrest : ∀ (after before : List PropertyEntry) (a : UInt16), l = before ++ after →
      t.nextProperty m o a = .ok ((after.map (·.number)).headD 0) →
      (a :: (after.map (·.number) ++ [0])).IsChain fun a b => t.nextProperty m o a = .ok b from
    hrest l [] 0 rfl hstart
  intro after
  induction after with
  | nil =>
    intro before a _ ha
    exact List.isChain_cons_cons.2 ⟨ha, .singleton 0⟩
  | cons e after ih =>
    intro before a hl ha
    subst hl
    exact List.isChain_cons_cons.2 ⟨ha, ih (before ++ [e]) e.number (by simp)
      (h.nextProperty_listed hfit)⟩

theorem property_byte (h : t.HasProperties m o name (before ++ e :: after)) (hfit : t.Fits m.size)
    {b : UInt8} (hb : e.data = [b]) : t.property m o e.number = .ok b.toUInt16 := by
  obtain ⟨-, hdata, hlt, -⟩ := h.entry
  rw [hb] at hdata
  obtain ⟨hsize, hget, -⟩ := hdata
  have hsize1 : UInt16.ofNat e.data.length = 1 := by rw [hb]; rfl
  unfold property
  rw [h.propertyData_listed hfit, hsize1]
  show (m.byte _ >>= fun b => pure b.toUInt16) = _
  rw [Memory.byte_ok (by rwa [h.toNat_dataAt]), h.toNat_dataAt, hget]
  rfl

theorem property_word (h : t.HasProperties m o name (before ++ e :: after)) (hfit : t.Fits m.size)
    {b c : UInt8} (hb : e.data = [b, c]) : t.property m o e.number = .ok (wordOf b c) := by
  obtain ⟨-, hdata, hlt, -⟩ := h.entry
  rw [hb] at hdata hlt
  obtain ⟨-, hget, -, hget', -⟩ := hdata
  have hsize2 : UInt16.ofNat e.data.length = 2 := by rw [hb]; rfl
  have hfits : t.dataAt m o name before + 2 ≤ m.size := Nat.le_of_lt hlt
  unfold property
  rw [h.propertyData_listed hfit, hsize2]
  show m.word _ = _
  rw [Memory.word_eq, h.toNat_dataAt, if_pos hfits, Memory.getWord, hget, hget']

theorem property_long (h : t.HasProperties m o name (before ++ e :: after)) (hfit : t.Fits m.size)
    (hlong : 2 < e.data.length) : t.property m o e.number =
      .error (.instruction (.longPropertyRead (UInt16.ofNat e.data.length) e.number o)) := by
  have hdata := e.data_le
  have hlength : (UInt16.ofNat e.data.length).toNat = e.data.length := by
    rw [UInt16.toNat_ofNat']
    omega
  have hne1 : UInt16.ofNat e.data.length ≠ 1 := fun h => by
    rw [h] at hlength
    simp at hlength
    omega
  have hne2 : UInt16.ofNat e.data.length ≠ 2 := fun h => by
    rw [h] at hlength
    simp at hlength
    omega
  unfold property
  rw [h.propertyData_listed hfit]
  show (if UInt16.ofNat e.data.length = 1 then _ else if UInt16.ofNat e.data.length = 2 then _ else _) = _
  rw [if_neg hne1, if_neg hne2]
  rfl

/-! ## Writing -/

/-- The table after the data of an entry were replaced. -/
theorem replace (h : t.HasProperties m o name (before ++ e :: after)) {data : List UInt8}
    (hlength : data.length = e.data.length) (hsize : m'.size = m.size)
    (hdata : m'.Holds (t.dataAt m o name before) data)
    (hother : ∀ k, ¬ (t.dataAt m o name before ≤ k ∧ k < t.dataAt m o name before + e.data.length) →
      m'.get k = m.get k) :
    t.propertiesAt m' o = t.propertiesAt m o ∧
      t.HasProperties m' o name (before ++ e.withData data hlength :: after) := by
  have hapart := h.apart
  have hextent : extent (before ++ e.withData data hlength :: after) =
      extent (before ++ e :: after) := by
    rw [extent_append, extent_append, extent_cons, extent_cons]
    show _ + (1 + data.length + _) = _
    rw [hlength]
  rw [extent_append, extent_cons] at hapart
  -- the entry of the object is as it was
  have hat : t.propertiesAt m' o = t.propertiesAt m o := by
    unfold propertiesAt Memory.getWord
    rw [hother, hother] <;> unfold dataAt entriesAt <;> unfold entrySize at hapart <;> omega
  obtain ⟨hname, hlist⟩ := Memory.holds_append.1 h.holds
  rw [List.length_cons, length_flatMap_wordBytes] at hlist
  obtain ⟨hbefore, hrest⟩ := holds_listBytes_append.1 hlist
  obtain ⟨hlt, hhead, -, hafter⟩ := holds_listBytes_cons.1 hrest
  refine ⟨hat, h.object, h.length_name, ?_, ?_, ?_⟩
  · have hnumbers : ((before ++ e :: after).map (·.number)).Pairwise (fun a b => b < a) :=
      List.pairwise_map.2 h.descending
    have hsame : (before ++ e.withData data hlength :: after).map (·.number) =
        (before ++ e :: after).map (·.number) := by
      simp [PropertyEntry.withData]
    rw [← hsame] at hnumbers
    exact List.pairwise_map.1 hnumbers
  · rw [hat]
    refine Memory.holds_append.2 ⟨hname.congr hsize ?_, ?_⟩
    · intro k hk hk'
      refine hother k ?_
      rw [List.length_cons, length_flatMap_wordBytes] at hk'
      unfold dataAt entriesAt
      omega
    rw [List.length_cons, length_flatMap_wordBytes]
    refine holds_listBytes_append.2 ⟨hbefore.congr hsize ?_, holds_listBytes_cons.2
      ⟨hsize ▸ hlt, ?_, ?_, ?_⟩⟩
    · intro k hk hk'
      refine hother k ?_
      change k < _ + extent before at hk'
      unfold dataAt entriesAt
      omega
    · rw [hother, hhead, PropertyEntry.head, PropertyEntry.head, ← hlength]
      · rfl
      · unfold dataAt entriesAt
        omega
    · have hplace : t.propertiesAt m o + (2 * name.length + 1) + extent before + 1 =
          t.dataAt m o name before := by
        unfold dataAt entriesAt
        omega
      rwa [hplace]
    · show m'.Holds (_ + data.length) _
      rw [hlength]
      refine hafter.congr hsize fun k hk _ => hother k ?_
      unfold dataAt entriesAt
      omega
  · rw [hextent, hat]
    exact h.apart

/-- Writing a property replaces the data of its entry. -/
theorem setProperty_listed (h : t.HasProperties m o name (before ++ e :: after))
    (hfit : t.Fits m.size) {p : Protection} {v : UInt16}
    (hset : t.setProperty p o e.number v m = .ok () m') :
    (e.data.length = 1 ∧ m' = m.put (t.dataAt m o name before) (lowByte v)) ∨
      (e.data.length = 2 ∧ m' = m.putWord (t.dataAt m o name before) v) := by
  have hle := e.data_le
  have hread : Edit.read (t.propertyData · o e.number) m = .ok (some
      ⟨UInt32.ofNat (t.dataAt m o name before), UInt16.ofNat e.data.length⟩) m := by
    simp only [Edit.read, h.propertyData_listed hfit]
  have hlength : (UInt16.ofNat e.data.length).toNat = e.data.length := by
    rw [UInt16.toNat_ofNat']
    omega
  unfold setProperty at hset
  rw [bind_ok hread] at hset
  dsimp only at hset
  split at hset
  · rename_i hone
    obtain ⟨-, hm⟩ := Protection.of_writeByte hset
    rw [h.toNat_dataAt] at hm
    rw [hone] at hlength
    exact .inl ⟨hlength.symm, hm⟩
  split at hset
  · rename_i htwo
    obtain ⟨-, hm⟩ := Protection.of_writeWord hset
    rw [h.toNat_dataAt] at hm
    rw [htwo] at hlength
    exact .inr ⟨hlength.symm, hm⟩
  · cases hset

/-- One or two bytes of data behind the header and in dynamic memory can be written. -/
theorem setProperty_ok (h : t.HasProperties m o name (before ++ e :: after)) (hfit : t.Fits m.size)
    {p : Protection} (hshort : e.data.length ≤ 2) (hheader : Header.size ≤ t.dataAt m o name before)
    (hdynamic : t.dataAt m o name before + e.data.length ≤ p.staticBase.toNat) (v : UInt16) :
    ∃ m', t.setProperty p o e.number v m = .ok () m' := by
  obtain ⟨-, -, hend, -⟩ := h.entry
  have hpos := e.data_pos
  have hle := h.dataAt_le
  have hd := h.toNat_dataAt
  have hdata := h.propertyData_listed hfit
  generalize UInt32.ofNat (t.dataAt m o name before) = a at hd hdata
  have hread : Edit.read (t.propertyData · o e.number) m =
      .ok (some ⟨a, UInt16.ofNat e.data.length⟩) m := by
    simp only [Edit.read, hdata]
  have hcheck : ∀ b, p.checkWrite m a b = .ok () := fun b => by
    rw [Protection.checkWrite_of_le (by omega), if_pos (by omega)]
  unfold setProperty
  rw [bind_ok hread]
  obtain hone | htwo : e.data.length = 1 ∨ e.data.length = 2 := by omega
  · rw [hone]
    show ∃ m', p.writeByte a (lowByte v) m = .ok () m'
    rw [Protection.writeByte_eq, hcheck]
    exact ⟨_, (Memory.setByte_eq a _ m).trans (if_pos (by omega))⟩
  · rw [htwo]
    show ∃ m', p.writeWord a v m = .ok () m'
    have hnext : (a + 1).toNat = a.toNat + 1 := by
      rw [UInt32.toNat_add]
      exact Nat.mod_eq_of_lt (by simp; omega)
    have hcheck' : p.checkWrite m (a + 1) (lowByte v) = .ok () := by
      rw [Protection.checkWrite_of_le (by omega), if_pos (by omega)]
    rw [Protection.writeWord_eq, hcheck, hcheck']
    exact ⟨_, (Memory.setWord_eq a v m).trans (if_pos (by omega))⟩

/-- A property that was written has an entry. -/
theorem listed_of_setProperty (h : t.HasProperties m o name l) (hfit : t.Fits m.size)
    {p : Protection} {v : UInt16} (hset : t.setProperty p o n v m = .ok () m') :
    ∃ before e after, l = before ++ e :: after ∧ e.number = n := by
  obtain ⟨data, m₁, hread, hrest⟩ := ok_of_bind hset
  cases hdata : t.propertyData m o n with
  | error fault =>
    simp only [Edit.read, hdata] at hread
    cases hread
  | ok data' =>
    simp only [Edit.read, hdata] at hread
    cases hread
    have hrange : 1 ≤ n.toNat ∧ n.toNat ≤ 31 := by
      unfold propertyData at hdata
      have hguard := (guard_eq_ok_iff.1 hdata).1
      simp only [UInt16.lt_iff_toNat_lt, maxProperty] at hguard
      simp at hguard
      omega
    by_cases hlisted : ∃ e ∈ l, e.number = n
    · obtain ⟨e, he, hnumber⟩ := hlisted
      obtain ⟨before, after, hl⟩ := List.append_of_mem he
      exact ⟨before, e, after, hl, hnumber⟩
    · push Not at hlisted
      rw [h.propertyData_unlisted hfit hrange.1 hrange.2 hlisted] at hdata
      cases hdata
      cases hrest

/-- What was written is read back, and nothing but the data of the entry is written. -/
theorem property_of_setProperty (h : t.HasProperties m o name (before ++ e :: after))
    (hfit : t.Fits m.size) {p : Protection} {v : UInt16}
    (hset : t.setProperty p o e.number v m = .ok () m') :
    m'.size = m.size ∧
      (∀ k, ¬ (t.dataAt m o name before ≤ k ∧ k < t.dataAt m o name before + e.data.length) →
        m'.get k = m.get k) ∧
      ((e.data.length = 1 ∧ t.property m' o e.number = .ok (lowByte v).toUInt16) ∨
        (e.data.length = 2 ∧ t.property m' o e.number = .ok v)) := by
  obtain ⟨-, -, hend, -⟩ := h.entry
  rcases h.setProperty_listed hfit hset with ⟨hone, rfl⟩ | ⟨htwo, rfl⟩
  · have hother : ∀ k, ¬ (t.dataAt m o name before ≤ k ∧
        k < t.dataAt m o name before + e.data.length) →
        (m.put (t.dataAt m o name before) (lowByte v)).get k = m.get k := by
      intro k hk
      exact Memory.get_put_of_ne (by omega) _ _
    have hlength : [lowByte v].length = e.data.length := hone.symm
    have hnew := (h.replace hlength (Memory.size_put _ _ _)
      ⟨by rw [Memory.size_put]; omega, Memory.get_put_self (by omega) _, trivial⟩ hother).2
    exact ⟨Memory.size_put _ _ _, hother,
      .inl ⟨hone, hnew.property_byte (by rwa [Memory.size_put]) rfl⟩⟩
  · have hsize : (m.putWord (t.dataAt m o name before) v).size = m.size := by
      rw [Memory.putWord, Memory.size_put, Memory.size_put]
    have hother : ∀ k, ¬ (t.dataAt m o name before ≤ k ∧
        k < t.dataAt m o name before + e.data.length) →
        (m.putWord (t.dataAt m o name before) v).get k = m.get k := by
      intro k hk
      rw [Memory.putWord, Memory.get_put_of_ne (by omega), Memory.get_put_of_ne (by omega)]
    have hlength : (wordBytes v).length = e.data.length := htwo.symm
    have hdata : (m.putWord (t.dataAt m o name before) v).Holds (t.dataAt m o name before)
        (wordBytes v) := by
      refine ⟨by omega, ?_, by omega, ?_, trivial⟩
      · rw [Memory.putWord, Memory.get_put_of_ne (by omega), Memory.get_put_self (by omega)]
      · rw [Memory.putWord, Memory.get_put_self (by rw [Memory.size_put]; omega)]
    have hnew := (h.replace hlength hsize hdata hother).2
    have hword := hnew.property_word (by rwa [hsize]) (b := highByte v) (c := lowByte v) rfl
    rw [wordOf_bytes] at hword
    exact ⟨hsize, hother, .inr ⟨htwo, hword⟩⟩

end HasProperties

/-! ## The search stops -/

/-- The search visits these places and gives the answer at the last one. -/
inductive Search (m : Memory) (n : UInt16) :
    List Nat → Except Fault (Option PropertyData) → Prop
  | beyond {k : Nat} : m.size ≤ k →
      Search m n [k] (.error (.access (UInt32.ofNat k) (.beyondEnd m.size)))
  | absent {k : Nat} : k < m.size → m.get k = 0 ∨ propertyNumber (m.get k) < n →
      Search m n [k] (.ok none)
  | found {k : Nat} : k < m.size → m.get k ≠ 0 → propertyNumber (m.get k) = n →
      Search m n [k] (.ok (some ⟨UInt32.ofNat (k + 1), propertySize (m.get k)⟩))
  | next {k k' : Nat} {places : List Nat} {r : Except Fault (Option PropertyData)} : k < m.size →
      m.get k ≠ 0 → n < propertyNumber (m.get k) → k' = k + 1 + (propertySize (m.get k)).toNat →
      Search m n (k' :: places) r → Search m n (k :: k' :: places) r

theorem propertySize_pos (head : UInt8) : 1 ≤ (propertySize head).toNat := by
  have hlt : (head >>> 5).toUInt16.toNat < 256 := by
    rw [UInt8.toNat_toUInt16]
    exact UInt8.toNat_lt _
  rw [propertySize, UInt16.toNat_add]
  show 1 ≤ (_ + 1) % 65536
  omega

/-- **The search stops in every memory**, one in which places are addresses (up to `2 ^ 32 - 9` bytes):
from entry to entry it goes two bytes or more. -/
theorem findProperty_stops (m : Memory) (n : UInt16) (k : Nat) :
    ∃ places, Search m n (k :: places) (findProperty m n k) ∧
      2 * places.length ≤ m.size - k + 1 := by
  fun_induction findProperty m n k with
  | case1 k hk head habsent => exact ⟨[], .absent hk habsent, Nat.zero_le _⟩
  | case2 k hk head habsent hfound =>
    exact ⟨[], .found hk (fun h => habsent (.inl h)) hfound, Nat.zero_le _⟩
  | case3 k hk head habsent hfound ih =>
    obtain ⟨places, hsearch, hlength⟩ := ih
    have hsize := propertySize_pos head
    have hgreater : n < propertyNumber head := by
      rw [UInt16.lt_iff_toNat_lt]
      have hnot : ¬ propertyNumber head < n := fun h => habsent (.inr h)
      rw [UInt16.lt_iff_toNat_lt] at hnot
      have hne : (propertyNumber head).toNat ≠ n.toNat := fun h => hfound (UInt16.toNat_inj.1 h)
      omega
    refine ⟨_ :: places, .next hk (fun h => habsent (.inl h)) hgreater rfl hsearch, ?_⟩
    simp only [List.length_cons]
    omega
  | case4 k hk => exact ⟨[], .beyond (Nat.not_lt.1 hk), Nat.zero_le _⟩

/-! ## Properties of an object -/

theorem lowByte_toUInt16 (v : UInt16) : (lowByte v).toUInt16 = v % 256 := by
  apply UInt16.toNat_inj.1
  rw [UInt8.toNat_toUInt16, toNat_lowByte, UInt16.toNat_mod]
  rfl

theorem wordOf_eq (b c : UInt8) : wordOf b c = b.toUInt16 * 256 + c.toUInt16 := by
  have hb := b.toNat_lt
  have hc := c.toNat_lt
  apply UInt16.toNat_inj.1
  rw [toNat_wordOf, UInt16.toNat_add, UInt16.toNat_mul, UInt8.toNat_toUInt16, UInt8.toNat_toUInt16]
  simp
  omega

/-- **The functions on properties agree with the property list.**  Going from each number to the next
one gives those listed and then 0.  A listed property has the address and the size of its data, and its
value if they are one or two bytes; one that is not listed has address 0 and the value of the table of
defaults, and no next one.  A property that was written is read back, a byte of it if it has one byte of
data, and only its data have changed.  In any memory whatever, of up to `2 ^ 32 - 9` bytes so that every
place is an address, the search stops. -/
theorem property_list {name : List UInt16} (hfit : t.Fits m.size) (h : t.HasProperties m o name l)
    (p : Protection) :
    (0 :: (l.map (·.number) ++ [0])).IsChain (fun a b => t.nextProperty m o a = .ok b) ∧
    (∀ n : UInt16, 1 ≤ n.toNat → n.toNat ≤ 31 → (∀ e ∈ l, e.number ≠ n) →
      t.nextProperty m o n = .error (.instruction (.noSuchProperty o n)) ∧
      t.propertyAddress m o n = .ok 0 ∧
      t.property m o n = .ok (m.getWord (t.address.toNat + 2 * (n.toNat - 1)))) ∧
    (∀ (before : List PropertyEntry) (e : PropertyEntry) (after : List PropertyEntry),
      l = before ++ e :: after → ∃ d : Address,
      d.toNat = t.dataAt m o name before ∧ t.propertyAddress m o e.number = .ok d ∧
      propertyLength m d = .ok (UInt16.ofNat e.data.length) ∧
      (∀ b, e.data = [b] → t.property m o e.number = .ok b.toUInt16) ∧
      (∀ b c, e.data = [b, c] →
        t.property m o e.number = .ok (b.toUInt16 * 256 + c.toUInt16)) ∧
      (2 < e.data.length → t.property m o e.number =
        .error (.instruction (.longPropertyRead (UInt16.ofNat e.data.length) e.number o))) ∧
      (e.data.length ≤ 2 → Header.size ≤ d.toNat → d.toNat + e.data.length ≤ p.staticBase.toNat →
        ∀ v, ∃ m', t.setProperty p o e.number v m = .ok () m')) ∧
    (∀ (n v : UInt16) (m' : Memory), t.setProperty p o n v m = .ok () m' →
      ∃ (before : List PropertyEntry) (e : PropertyEntry) (after : List PropertyEntry),
      l = before ++ e :: after ∧ e.number = n ∧ m'.size = m.size ∧
      (∀ k, ¬ (t.dataAt m o name before ≤ k ∧ k < t.dataAt m o name before + e.data.length) →
        m'.get k = m.get k) ∧
      ((e.data.length = 1 ∧ t.property m' o n = .ok (v % 256)) ∨
        (e.data.length = 2 ∧ t.property m' o n = .ok v))) ∧
    (∀ (m : Memory) (n : UInt16) (k : Nat), ∃ places : List Nat,
      Search m n (k :: places) (findProperty m n k) ∧ 2 * places.length ≤ m.size - k + 1) := by
  refine ⟨h.isChain_nextProperty hfit, fun n hpos hle hnone => ?_, fun before e after hl => ?_,
    fun n v m' hset => ?_, findProperty_stops⟩
  · have hdata := h.propertyData_unlisted hfit hpos hle hnone
    refine ⟨?_, ?_, h.property_unlisted hfit hpos hle hnone⟩
    · have hne : n ≠ 0 := by
        rintro rfl
        exact absurd hpos (by decide)
      unfold nextProperty
      rw [if_neg hne, hdata]
      rfl
    · unfold propertyAddress
      rw [hdata]
      rfl
  · subst hl
    refine ⟨_, h.toNat_dataAt, h.propertyAddress_listed hfit, h.propertyLength_listed,
      fun b hb => h.property_byte hfit hb, fun b c hb => ?_, h.property_long hfit, ?_⟩
    · rw [h.property_word hfit hb, wordOf_eq]
    · rw [h.toNat_dataAt]
      exact h.setProperty_ok hfit
  · obtain ⟨before, e, after, rfl, rfl⟩ := h.listed_of_setProperty hfit hset
    obtain ⟨hsize, hother, hvalue⟩ := h.property_of_setProperty hfit hset
    rw [lowByte_toUInt16] at hvalue
    exact ⟨before, e, after, rfl, rfl, hsize, hother, hvalue⟩

/-- Properties with two, one and three bytes of data. -/
def threeEntries : List PropertyEntry :=
  [⟨18, [0x12, 0x34], by decide, by decide, by decide, by decide⟩,
    ⟨7, [0x56], by decide, by decide, by decide, by decide⟩,
    ⟨3, [1, 2, 3], by decide, by decide, by decide, by decide⟩]

/-- The nesting image with a name and three properties in the table behind its objects. -/
def propertyImage : Memory :=
  let table : List UInt8 := 1 :: wordBytes 0x94A5 ++ listBytes threeEntries
  ⟨(nestingImage.bytes.toList.take 0x99 ++ table ++ nestingImage.bytes.toList.drop 0xA6).toArray⟩

theorem hasProperties_three :
    nestingStory.objects.HasProperties propertyImage 1 [0x94A5] threeEntries where
  object := isObject_nesting.2 (.inl rfl)
  length_name := by decide
  descending := by simp [threeEntries]
  holds := by decide +kernel
  apart := by decide +kernel

/-- Three properties are gone through, one is read, one has its default, and one is written. -/
theorem property_list_three :
    let t := nestingStory.objects
    [0, 18, 7, 3, 0].IsChain (fun a b => t.nextProperty propertyImage 1 a = .ok b) ∧
    t.property propertyImage 1 18 = .ok 0x1234 ∧
    t.property propertyImage 1 5 = .ok (propertyImage.getWord (t.address.toNat + 8)) ∧
    ∃ m', t.setProperty nestingStory.protection 1 7 0x789A propertyImage = .ok () m' ∧
      t.property m' 1 7 = .ok 0x9A := by
  intro t
  have hfit : t.Fits propertyImage.size := fits_of_load load_nesting (by decide +kernel)
  obtain ⟨hchain, hunlisted, hlisted, hwritten, -⟩ :=
    property_list hfit hasProperties_three nestingStory.protection
  obtain ⟨-, -, -, -, -, hword, -⟩ := hlisted [] _ _ rfl
  obtain ⟨d, hd, -, -, -, -, -, hset⟩ := hlisted [_] _ _ rfl
  have hplace : t.dataAt propertyImage 1 [0x94A5] (threeEntries.take 1) = 0xA0 := by decide +kernel
  have hstatic : nestingStory.protection.staticBase.toNat = 0xA6 := by decide +kernel
  have hd' : d.toNat = 0xA0 := hd.trans hplace
  obtain ⟨m', hm'⟩ := hset (by decide) (by rw [hd']; decide) (by rw [hd', hstatic]; decide) 0x789A
  refine ⟨hchain, hword _ _ rfl, (hunlisted 5 (by decide) (by decide) (by simp [threeEntries])).2.2,
    m', hm', ?_⟩
  obtain ⟨before, e, after, hl, hnumber, -, -, hone | htwo⟩ := hwritten 7 0x789A m' hm'
  · exact hone.2
  · have he : e ∈ threeEntries := by rw [hl]; simp
    simp only [threeEntries, List.mem_cons, List.not_mem_nil, or_false] at he
    rcases he with rfl | rfl | rfl
    · exact absurd hnumber (by decide)
    · exact absurd htwo.1 (by decide)
    · exact absurd hnumber (by decide)

end ObjectTable

end ZCode
