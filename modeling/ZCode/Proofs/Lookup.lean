/-
  Looking words up in a dictionary.

  * `Dictionary.tableAt` is the dictionary that stands at an address, and `Dictionary.InsideAt` says that
    all of it lies in memory.  A table is read exactly if it does (`read_eq_ok_iff`).
  * What a search misses is looked for from the front, so that every entry is found in any table, and in
    a sorted table the first one (`Searches.first`).
  * `Dictionary.AnswersFor` is the right answer in terms of the bytes in memory.  It is given by looking
    words up with any search, halving among them (`Dictionary.lookup_entries`).
-/
import ZCode.Proofs.ParseBlocks

namespace ZCode

/-! ## Four bytes -/

/-- The four bytes at `n`. -/
def Memory.fourBytes (m : Memory) (n : Nat) : List UInt8 :=
  [m.get n, m.get (n + 1), m.get (n + 2), m.get (n + 3)]

theorem toNat_long (x y : UInt16) :
    (x.toUInt32 <<< 16 ||| y.toUInt32).toNat = x.toNat * 65536 + y.toNat := by
  have hx := x.toNat_lt
  have hy : y.toNat < 2 ^ 16 := y.toNat_lt
  rw [UInt32.toNat_or, UInt32.toNat_shiftLeft]
  show x.toNat <<< 16 % 2 ^ 32 ||| y.toNat = _
  rw [Nat.mod_eq_of_lt (by rw [Nat.shiftLeft_eq]; omega), ← Nat.shiftLeft_add_eq_or_of_lt hy,
    Nat.shiftLeft_eq]

/-- Keys are equal exactly if the bytes are. -/
theorem Memory.getLong_eq_key_iff {m : Memory} {n : Nat} {w : EncodedWord} :
    m.getLong n = w.key ↔ m.fourBytes n = w.bytes := by
  have hwords : m.getLong n = w.key ↔ m.getWord n = w.first ∧ m.getWord (n + 2) = w.second := by
    constructor
    · intro h
      have hnat := congrArg UInt32.toNat h
      rw [getLong, EncodedWord.key, toNat_long, toNat_long] at hnat
      have hlow := (m.getWord (n + 2)).toNat_lt
      have hsecond := w.second.toNat_lt
      constructor <;> apply UInt16.toNat_inj.1 <;> omega
    · rintro ⟨hfirst, hsecond⟩
      rw [getLong, hfirst, hsecond, EncodedWord.key]
  have hbytes (k : Nat) (x : UInt16) :
      m.getWord k = x ↔ m.get k = highByte x ∧ m.get (k + 1) = lowByte x := by
    constructor
    · rintro rfl
      obtain ⟨hhigh, hlow⟩ := bytes_wordOf (m.get k) (m.get (k + 1))
      exact ⟨hhigh.symm, hlow.symm⟩
    · rintro ⟨hhigh, hlow⟩
      rw [getWord, hhigh, hlow, wordOf_bytes]
  rw [hwords, hbytes, hbytes]
  simp [fourBytes, EncodedWord.bytes, and_assoc]

namespace Dictionary

variable {m : Memory} {a : Address} {d : Dictionary}

/-! ## The table in memory -/

/-- Where the length of an entry stands, behind the separators of the table at `a`. -/
def lengthAt (m : Memory) (a : Address) : Address := a + 1 + (m.get a.toNat).toUInt32

/-- How many entries the table at `a` has. -/
def entryCount (m : Memory) (a : Address) : Nat := (m.getWord (lengthAt m a + 1).toNat).toNat

/-- Where entry number `i` of the table at `a` starts. -/
def entryAt (m : Memory) (a : Address) (i : Nat) : Address :=
  lengthAt m a + 3 + UInt32.ofNat i * (m.get (lengthAt m a).toNat).toUInt32

/-- The dictionary that stands at `a`. -/
def tableAt (m : Memory) (a : Address) : Dictionary where
  separators := (List.range (m.get a.toNat).toNat).map fun i => m.get (a + 1 + UInt32.ofNat i).toNat
  entryLength := m.get (lengthAt m a).toNat
  entries := lengthAt m a + 3
  keys := ((List.range (entryCount m a)).map fun i => m.getLong (entryAt m a i).toNat).toArray

/-- The table at `a` lies in memory, and its entries are long enough for a word. -/
structure InsideAt (m : Memory) (a : Address) : Prop where
  separatorCount : a.toNat < m.size
  separators : ∀ i < (m.get a.toNat).toNat, (a + 1 + UInt32.ofNat i).toNat < m.size
  lengthIn : (lengthAt m a).toNat < m.size
  entryLength : wordBytes ≤ (m.get (lengthAt m a).toNat).toNat
  count : (lengthAt m a + 1).toNat + 2 ≤ m.size
  entries : ∀ i < entryCount m a, (entryAt m a i).toNat + wordBytes ≤ m.size

theorem mapM_byte_eq_ok_iff {f : Nat → Address} {l : List Nat} {bytes : List UInt8} :
    l.mapM (fun i => m.byte (f i)) = .ok bytes ↔
      (∀ i ∈ l, (f i).toNat < m.size) ∧ bytes = l.map fun i => m.get (f i).toNat := by
  induction l generalizing bytes with
  | nil =>
    constructor
    · rintro ⟨⟩
      exact ⟨nofun, rfl⟩
    · rintro ⟨-, rfl⟩
      rfl
  | cons i l ih =>
    rw [List.mapM_cons, List.forall_mem_cons]
    constructor
    · intro h
      obtain ⟨b, hb, h⟩ := bind_eq_ok_iff.1 h
      obtain ⟨rest, hrest, h⟩ := bind_eq_ok_iff.1 h
      obtain ⟨hin, rfl⟩ := Memory.lt_size_of_byte hb
      obtain ⟨hall, rfl⟩ := ih.1 hrest
      cases h
      exact ⟨⟨hin, hall⟩, rfl⟩
    · rintro ⟨⟨hin, hall⟩, rfl⟩
      rw [Memory.byte_ok hin]
      exact bind_eq_ok_iff.2 ⟨_, rfl, bind_eq_ok_iff.2 ⟨_, ih.2 ⟨hall, rfl⟩, rfl⟩⟩

theorem next_entry (entry length : Address) (i : Nat) :
    entry + length + UInt32.ofNat i * length = entry + UInt32.ofNat (i + 1) * length := by
  rw [UInt32.ofNat_add, UInt32.add_mul, UInt32.add_comm (UInt32.ofNat i * length),
    ← UInt32.add_assoc]
  simp

theorem readKeys_eq_ok_iff {length entry : Address} {n : Nat} {keys keys' : Array UInt32} :
    readKeys m length n entry keys = .ok keys' ↔
      (∀ i < n, (entry + UInt32.ofNat i * length).toNat + wordBytes ≤ m.size) ∧
      keys' = keys ++
        ((List.range n).map fun i => m.getLong (entry + UInt32.ofNat i * length).toNat).toArray := by
  induction n generalizing entry keys with
  | zero => simp [readKeys, eq_comm]
  | succ n ih =>
    have hfirst : entry + UInt32.ofNat 0 * length = entry := by simp
    rw [Nat.forall_lt_succ_left', hfirst, List.range_succ_eq_map, List.map_cons, List.map_map, hfirst,
      readKeys]
    split
    · rename_i hpast
      refine iff_of_false nofun ?_
      rintro ⟨⟨hin, -⟩, -⟩
      omega
    · rename_i hin
      rw [ih]
      simp only [next_entry, Function.comp_def, Nat.succ_eq_add_one, Nat.not_lt.1 hin, true_and]
      simp

/-- **A table is read exactly if it lies in memory.** -/
theorem read_eq_ok_iff : read m a = .ok d ↔ InsideAt m a ∧ d = tableAt m a := by
  unfold read
  constructor
  · intro h
    obtain ⟨count, hcount, h⟩ := bind_eq_ok_iff.1 h
    obtain ⟨hcountIn, rfl⟩ := Memory.lt_size_of_byte hcount
    obtain ⟨separators, hseparators, h⟩ := bind_eq_ok_iff.1 h
    obtain ⟨hseparatorsIn, rfl⟩ := mapM_byte_eq_ok_iff.1 hseparators
    obtain ⟨length, hlength, h⟩ := bind_eq_ok_iff.1 h
    obtain ⟨hlengthIn, rfl⟩ := Memory.lt_size_of_byte hlength
    obtain ⟨hlong, h⟩ := guard_eq_ok_iff.1 h
    obtain ⟨number, hnumber, h⟩ := bind_eq_ok_iff.1 h
    rw [Memory.word_eq] at hnumber
    split at hnumber
    · rename_i hnumberIn
      cases hnumber
      obtain ⟨keys, hkeys, h⟩ := bind_eq_ok_iff.1 h
      obtain ⟨hentriesIn, rfl⟩ := readKeys_eq_ok_iff.1 hkeys
      cases h
      refine ⟨⟨hcountIn, fun i hi => hseparatorsIn i (List.mem_range.2 hi), hlengthIn,
        Nat.not_lt.1 hlong, hnumberIn, hentriesIn⟩, ?_⟩
      simp only [Array.empty_append]
      rfl
    · cases hnumber
  · rintro ⟨hin, rfl⟩
    refine bind_eq_ok_iff.2 ⟨_, Memory.byte_ok hin.separatorCount, ?_⟩
    refine bind_eq_ok_iff.2 ⟨_, mapM_byte_eq_ok_iff.2
      ⟨fun i hi => hin.separators i (List.mem_range.1 hi), rfl⟩, ?_⟩
    refine bind_eq_ok_iff.2 ⟨_, Memory.byte_ok hin.lengthIn, ?_⟩
    refine guard_eq_ok_iff.2 ⟨Nat.not_lt.2 hin.entryLength, ?_⟩
    refine bind_eq_ok_iff.2 ⟨_, (Memory.word_eq m _).trans (if_pos hin.count), ?_⟩
    refine bind_eq_ok_iff.2 ⟨_, readKeys_eq_ok_iff.2 ⟨hin.entries, rfl⟩, ?_⟩
    simp only [Array.empty_append]
    rfl

theorem toNat_lengthAt (m : Memory) (ha : a.toNat + 0x100 < 0x100000000) :
    (lengthAt m a).toNat = a.toNat + 1 + (m.get a.toNat).toNat := by
  have hseparators := (m.get a.toNat).toNat_lt
  rw [lengthAt, UInt32.toNat_add, UInt32.toNat_add, UInt8.toNat_toUInt32]
  simp
  omega

/-- Where an entry starts, as a number, if addresses do not wrap around before it. -/
theorem toNat_entryAt {i : Nat} (ha : a.toNat + 0x100 < 0x100000000)
    (h : a.toNat + 1 + (m.get a.toNat).toNat + 3 + i * (m.get (lengthAt m a).toNat).toNat <
      0x100000000) :
    (entryAt m a i).toNat = a.toNat + 1 + (m.get a.toNat).toNat + 3 +
      i * (m.get (lengthAt m a).toNat).toNat := by
  rw [entryAt]
  generalize m.get (lengthAt m a).toNat = length at h ⊢
  rw [UInt32.toNat_add, UInt32.toNat_add, UInt32.toNat_mul, UInt32.toNat_ofNat', UInt8.toNat_toUInt32,
    Nat.mod_mul_mod, toNat_lengthAt m ha]
  simp
  omega

theorem entryCount_lt (m : Memory) (a : Address) : entryCount m a < 65536 :=
  (m.getWord (lengthAt m a + 1).toNat).toNat_lt

/-- A table where a header can point is far from the end of the addresses. -/
theorem entry_lt_of_low {i : Nat} (ha : a.toNat < 0x10000) (hi : i < entryCount m a) :
    a.toNat + 1 + (m.get a.toNat).toNat + 3 + i * (m.get (lengthAt m a).toNat).toNat <
      0x100000000 := by
  have hseparators := (m.get a.toNat).toNat_lt
  have hlength := (m.get (lengthAt m a).toNat).toNat_lt
  have hcount := entryCount_lt m a
  have hbound : i * (m.get (lengthAt m a).toNat).toNat ≤ 65535 * 255 :=
    Nat.mul_le_mul (by omega) (by omega)
  omega

/-- So is a table in a memory that ends some bytes before the addresses do. -/
theorem InsideAt.entry_lt (hin : InsideAt m a) (hroom : m.size + 0x100 ≤ 0x100000000) {i : Nat}
    (hi : i < entryCount m a) :
    a.toNat + 1 + (m.get a.toNat).toNat + 3 + i * (m.get (lengthAt m a).toNat).toNat <
      0x100000000 := by
  have ha : a.toNat + 0x100 < 0x100000000 := by
    have := hin.separatorCount
    omega
  induction i with
  | zero =>
    have hlength := hin.lengthIn
    rw [toNat_lengthAt m ha] at hlength
    omega
  | succ i ih =>
    -- the entry before lies in memory, and the next one starts less than 256 bytes behind it
    have hentry := hin.entries i (by omega)
    rw [toNat_entryAt ha (ih (by omega))] at hentry
    have hlength := (m.get (lengthAt m a).toNat).toNat_lt
    rw [Nat.succ_mul]
    omega

/-! ## Searching -/

/-- In a sorted table the first of the entries with a key is found. -/
theorem Searches.first {search : Search} (hsearch : Searches search) {key : UInt32} {i j : Nat}
    (hsorted : Ascending d.keys) (h : d.findBy? search key = some i) (hj : j < i) :
    d.keys[j]? ≠ some key := by
  intro hkey
  unfold findBy? at h
  split at h
  · rename_i place heq
    cases h
    have hless := hsearch.before d.keys key j hsorted (by rw [heq]; exact hj)
    rw [Array.getD_eq_getD_getElem?, hkey] at hless
    exact UInt32.lt_irrefl _ hless
  · obtain ⟨hi, -, hbefore⟩ := Array.findIdx?_eq_some_iff_getElem.1 h
    have hat : d.keys[j] = key := (Array.getElem?_eq_some_iff.1 hkey).2
    exact hbefore j hj (beq_iff_eq.2 hat)

/-! ## Looking words up -/

/-- Entry number `i` of the table at `a` starts with the encoded word. -/
def EntryIs (m : Memory) (a : Address) (i : Nat) (w : EncodedWord) : Prop :=
  i < entryCount m a ∧ m.fourBytes (entryAt m a i).toNat = w.bytes

instance (m : Memory) (a : Address) (i : Nat) (w : EncodedWord) : Decidable (EntryIs m a i w) :=
  inferInstanceAs (Decidable (_ ∧ _))

/-- The entries of the table at `a` are sorted by their first four bytes. -/
def Sorted (m : Memory) (a : Address) : Prop :=
  ∀ i j, i < j → j < entryCount m a →
    m.getLong (entryAt m a i).toNat ≤ m.getLong (entryAt m a j).toNat

theorem getElem?_keys_tableAt (m : Memory) (a : Address) (i : Nat) :
    (tableAt m a).keys[i]? =
      if i < entryCount m a then some (m.getLong (entryAt m a i).toNat) else none := by
  by_cases hi : i < entryCount m a <;> simp [tableAt, hi]

theorem entryIs_iff {i : Nat} {w : EncodedWord} :
    EntryIs m a i w ↔ (tableAt m a).keys[i]? = some w.key := by
  rw [getElem?_keys_tableAt, EntryIs, ← Memory.getLong_eq_key_iff]
  split <;> simp_all

theorem ascending_keys (h : Sorted m a) : Ascending (tableAt m a).keys := by
  intro i j hij hj
  have hcount : j < entryCount m a := by simpa [tableAt] using hj
  rw [Array.getD_eq_getD_getElem?, Array.getD_eq_getD_getElem?, getElem?_keys_tableAt,
    getElem?_keys_tableAt, if_pos hcount, if_pos (Nat.lt_of_le_of_lt hij hcount)]
  rcases Nat.eq_or_lt_of_le hij with rfl | hlt
  · exact UInt32.le_refl _
  · exact h i j hlt hcount

/-- The right answer for a word in the table at `a`.  A word that cannot be encoded is refused with the
encoder's fault.  For every other word it is the address of an entry with its bytes, if there is one, and
in a sorted table that of the first of these entries. -/
structure AnswersFor (m : Memory) (a : Address) (s : Script) (word : List UInt8)
    (answer : Except Fault (Option Address)) : Prop where
  refused : ∀ fault, s.encode (Utf8.decode word) = .error fault → answer = .error fault
  missing : ∀ w, s.encode (Utf8.decode word) = .ok w → (∀ i, ¬ EntryIs m a i w) → answer = .ok none
  found : ∀ w, s.encode (Utf8.decode word) = .ok w → (∃ i, EntryIs m a i w) →
    ∃ i, EntryIs m a i w ∧ answer = .ok (some (entryAt m a i)) ∧
      (entryAt m a i).toNat + wordBytes ≤ m.size ∧
      (Sorted m a → ∀ j < i, ¬ EntryIs m a j w) ∧
      (a.toNat < 0x10000 ∨ m.size + 0x100 ≤ 0x100000000 →
        entryAt m a i ≠ 0 ∧ (entryAt m a i).toNat = a.toNat + 1 + (m.get a.toNat).toNat + 3 +
          i * (m.get (lengthAt m a).toNat).toNat)

theorem Searches.answersFor {search : Search} (hsearch : Searches search) (hread : read m a = .ok d)
    (s : Script) (word : List UInt8) : AnswersFor m a s word (d.lookupBy search s word) := by
  obtain ⟨hin, rfl⟩ := read_eq_ok_iff.1 hread
  have hlookup {w : EncodedWord} (hw : s.encode (Utf8.decode word) = .ok w) :
      (tableAt m a).lookupBy search s word =
        .ok (((tableAt m a).findBy? search w.key).map (tableAt m a).entryAddress) := by
    rw [lookupBy, hw]
    rfl
  refine ⟨fun fault hfault => ?_, fun w hw hnone => ?_, ?_⟩
  · rw [lookupBy, hfault]
    rfl
  · cases hfind : (tableAt m a).findBy? search w.key with
    | none => rw [hlookup hw, hfind, Option.map_none]
    | some i => exact absurd (entryIs_iff.2 (hsearch.of_findBy? hfind)) (hnone i)
  · rintro w hw ⟨k, hk⟩
    cases hfind : (tableAt m a).findBy? search w.key with
    | none => exact absurd (Array.mem_of_getElem? (entryIs_iff.1 hk)) (findBy?_eq_none hfind)
    | some i =>
      have hi : EntryIs m a i w := entryIs_iff.2 (hsearch.of_findBy? hfind)
      refine ⟨i, hi, ?_, hin.entries i hi.1, ?_, ?_⟩
      · rw [hlookup hw, hfind, Option.map_some]
        rfl
      · intro hsorted j hj hentry
        exact hsearch.first (ascending_keys hsorted) hfind hj (entryIs_iff.1 hentry)
      · intro hroom
        have ha : a.toNat + 0x100 < 0x100000000 := by
          have := hin.separatorCount
          omega
        have haddress := toNat_entryAt ha
          (hroom.elim (entry_lt_of_low · hi.1) (hin.entry_lt · hi.1))
        refine ⟨?_, haddress⟩
        intro hzero
        rw [hzero, UInt32.toNat_zero] at haddress
        omega

/-- **Looking a word up is complete and sound for every table**, whichever search is used and for the
search by halving.  The address that is given is not 0, and it is a number of whole entries away from the
first, as long as addresses in the table do not wrap around: the table of a story never gets there. -/
theorem lookup_entries (hread : read m a = .ok d) (s : Script) (word : List UInt8) :
    (∀ search, Searches search → AnswersFor m a s word (d.lookupBy search s word)) ∧
      AnswersFor m a s word (d.lookup s word) :=
  ⟨fun _ hsearch => hsearch.answersFor hread s word, searches_halve.answersFor hread s word⟩

/-- The word `a` in a table that is not sorted, and has it twice. -/
theorem lookup_entries_unsorted :
    let m : Memory := ⟨#[0, 0, 1, 0x2C, 4, 0, 3, 0x1C, 0xA5, 0x94, 0xA5, 0x18, 0xA5, 0x94, 0xA5,
      0x18, 0xA5, 0x94, 0xA5]⟩
    let w : EncodedWord := ⟨0x18A5, 0x94A5⟩
    read m 2 = .ok (tableAt m 2) ∧ Script.encode ⟨3, none⟩ (Utf8.decode [97]) = .ok w ∧ ¬ Sorted m 2 ∧
      EntryIs m 2 1 w ∧ EntryIs m 2 2 w ∧
      ∃ i, EntryIs m 2 i w ∧ (tableAt m 2).lookup ⟨3, none⟩ [97] = .ok (some (entryAt m 2 i)) ∧
        entryAt m 2 i ≠ 0 := by
  intro m w
  have hread : read m 2 = .ok (tableAt m 2) := by decide +kernel
  have hword : Script.encode ⟨3, none⟩ (Utf8.decode [97]) = .ok w := by decide +kernel
  have hentries : EntryIs m 2 1 w ∧ EntryIs m 2 2 w := by decide +kernel
  have hnot : ¬ Sorted m 2 := fun h => absurd (h 0 1 (by decide) (by decide)) (by decide +kernel)
  obtain ⟨i, hi, hlookup, -, -, haddress⟩ :=
    (lookup_entries hread ⟨3, none⟩ [97]).2.found w hword ⟨1, hentries.1⟩
  exact ⟨hread, hword, hnot, hentries.1, hentries.2, i, hi, hlookup, (haddress (.inl (by decide))).1⟩

end Dictionary

end ZCode
