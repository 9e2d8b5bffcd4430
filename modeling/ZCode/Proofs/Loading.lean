/-
  Which images can be loaded.

  * `Memory.byteSum` is the sum that an image's checksum is compared with (`toNat_checksum`).  One byte
    changed in its range changes the checksum (`byteSum_put`).
  * `Dictionary.LiesAt` says in numbers that a table lies in an image, and `Story.WellFormed` says what an
    image must be like.
  * `Story.load_wellFormed` says that exactly these images are loaded, and that no byte of the sum can be
    changed unnoticed.
-/
import Mathlib.Algebra.BigOperators.Intervals
import ZCode.Proofs.Lookup

namespace ZCode

/-! ## The sum of an image -/

namespace Memory

/-- Where the bytes that are summed end: at the length that the header gives, if that lies behind the
header and in the image, and else at the end of the image. -/
def sumEnd (m : Memory) : Nat :=
  if 64 < 2 * (m.getWord 0x1A).toNat ∧ 2 * (m.getWord 0x1A).toNat < m.size then
    2 * (m.getWord 0x1A).toNat
  else m.size

/-- The sum of the bytes behind the header. -/
def byteSum (m : Memory) : Nat := ∑ n ∈ Finset.Ico 64 m.sumEnd, (m.get n).toNat

theorem sumEnd_le (m : Memory) : m.sumEnd ≤ m.size := by
  unfold sumEnd
  split
  · omega
  · exact Nat.le_refl _

/-- Words that are added up wrap around once and for all. -/
theorem toNat_foldl_add (bytes : List UInt8) (sum : UInt16) :
    (bytes.foldl (fun sum b => sum + b.toUInt16) sum).toNat =
      (sum.toNat + (bytes.map UInt8.toNat).sum) % 65536 := by
  induction bytes generalizing sum with
  | nil => simp [Nat.mod_eq_of_lt sum.toNat_lt]
  | cons b bytes ih =>
    rw [List.foldl_cons, ih, List.map_cons, List.sum_cons, UInt16.toNat_add, UInt8.toNat_toUInt16]
    omega

/-- **The checksum is the sum of the bytes modulo 65536.** -/
theorem toNat_checksum (m : Memory) :
    (m.checksum ((m.getWord 0x1A).toUInt32 * 2)).toNat = m.byteSum % 65536 := by
  have hlength : ((m.getWord 0x1A).toUInt32 * 2).toNat = 2 * (m.getWord 0x1A).toNat := by
    have := (m.getWord 0x1A).toNat_lt
    simp
    omega
  have hend : (if Header.size < ((m.getWord 0x1A).toUInt32 * 2).toNat ∧
      ((m.getWord 0x1A).toUInt32 * 2).toNat < m.size then ((m.getWord 0x1A).toUInt32 * 2).toNat
      else m.size) = m.sumEnd := by
    rw [hlength]
    rfl
  unfold checksum
  dsimp only
  rw [hend, toNat_foldl_add, List.map_map, UInt16.toNat_zero, Nat.zero_add]
  rfl

/-- The sum of an image in which one byte of the sum was replaced. -/
theorem byteSum_put {m : Memory} {n : Nat} (hn : 64 ≤ n) (hend : n < m.sumEnd) (v : UInt8) :
    (m.put n v).byteSum + (m.get n).toNat = m.byteSum + v.toNat := by
  have hmem : n ∈ Finset.Ico 64 m.sumEnd := Finset.mem_Ico.2 ⟨hn, hend⟩
  have hsumEnd : (m.put n v).sumEnd = m.sumEnd := by
    unfold sumEnd getWord
    rw [size_put, get_put_of_ne (by omega), get_put_of_ne (by omega)]
  have hothers : ∑ k ∈ (Finset.Ico 64 m.sumEnd).erase n, ((m.put n v).get k).toNat =
      ∑ k ∈ (Finset.Ico 64 m.sumEnd).erase n, (m.get k).toNat := by
    refine Finset.sum_congr rfl fun k hk => ?_
    rw [get_put_of_ne (Finset.ne_of_mem_erase hk).symm]
  have hself : (m.put n v).get n = v := get_put_self (Nat.lt_of_lt_of_le hend m.sumEnd_le) v
  rw [byteSum, byteSum, hsumEnd, ← Finset.add_sum_erase _ _ hmem, hothers, hself,
    ← Finset.add_sum_erase (Finset.Ico 64 m.sumEnd) (fun k => (m.get k).toNat) hmem]
  omega

end Memory

/-! ## Dictionaries in an image -/

namespace Dictionary

variable {m : Memory} {a : Address}

/-- A dictionary lies in memory at `a`, with so many separators and so many entries of this length. -/
structure LiesAt (m : Memory) (a separators length count : Nat) : Prop where
  separatorCount : a < m.size ∧ (m.get a).toNat = separators
  separatorsIn : a + 1 + separators ≤ m.size
  entryLength : a + 1 + separators < m.size ∧ (m.get (a + 1 + separators)).toNat = length
  longEnough : 4 ≤ length
  entryCount : a + 1 + separators + 3 ≤ m.size ∧ (m.getWord (a + 1 + separators + 1)).toNat = count
  entriesIn : ∀ i < count, a + 1 + separators + 3 + i * length + 4 ≤ m.size

/-- Where a header can point, addresses are numbers. -/
theorem insideAt_iff_liesAt (ha : a.toNat < 0x10000) :
    InsideAt m a ↔ ∃ separators length count, LiesAt m a.toNat separators length count := by
  have hroom : a.toNat + 0x100 < 0x100000000 := by omega
  have hlength := toNat_lengthAt m hroom
  have hseparators := (m.get a.toNat).toNat_lt
  have hnext : (lengthAt m a + 1).toNat = a.toNat + 1 + (m.get a.toNat).toNat + 1 := by
    rw [UInt32.toNat_add, hlength]
    simp
    omega
  have hat (i : Nat) (hi : i < (m.get a.toNat).toNat) :
      (a + 1 + UInt32.ofNat i).toNat = a.toNat + 1 + i := by
    rw [UInt32.toNat_add, UInt32.toNat_add]
    simp
    omega
  have hentry (i : Nat) (hi : i < entryCount m a) := toNat_entryAt hroom (entry_lt_of_low ha hi)
  have hcount : entryCount m a = (m.getWord (a.toNat + 1 + (m.get a.toNat).toNat + 1)).toNat := by
    rw [entryCount, hnext]
  rw [hlength] at hentry
  constructor
  · intro hin
    have hlengthIn := hin.lengthIn
    have hlong := hin.entryLength
    have hcountIn := hin.count
    rw [hlength] at hlengthIn hlong
    rw [hnext] at hcountIn
    refine ⟨_, _, _, ⟨hin.separatorCount, rfl⟩, by omega, ⟨hlengthIn, rfl⟩, hlong,
      ⟨by omega, rfl⟩, fun i hi => ?_⟩
    have hi : i < entryCount m a := hcount ▸ hi
    have hentryIn := hin.entries i hi
    rwa [hentry i hi] at hentryIn
  · rintro ⟨_, _, _, ⟨hcountIn, rfl⟩, hseparatorsIn, ⟨hlengthIn, rfl⟩, hlong, ⟨hnumber, rfl⟩, hentries⟩
    refine ⟨hcountIn, fun i hi => ?_, ?_, ?_, ?_, fun i hi => ?_⟩
    · rw [hat i hi]
      omega
    · rwa [hlength]
    · rwa [hlength]
    · rw [hnext]
      omega
    · rw [hentry i hi]
      exact hentries i (hcount ▸ hi)

end Dictionary

/-! ## Headers -/

namespace Header

theorem exists_read_iff {m : Memory} : (∃ h, read m = .ok h) ↔
    64 ≤ m.size ∧ (m.get 0 = 1 ∨ m.get 0 = 2 ∨ m.get 0 = 3) ∧
      64 ≤ (m.getWord 0x0E).toNat ∧ (m.getWord 0x0E).toNat ≤ m.size := by
  have hversion : ¬ (m.get 0 < 1 ∨ 3 < m.get 0) ↔ m.get 0 = 1 ∨ m.get 0 = 2 ∨ m.get 0 = 3 := by
    simp only [UInt8.lt_iff_toNat_lt, ← UInt8.toNat_inj, UInt8.toNat_ofNat]
    omega
  unfold read
  dsimp only
  simp only [guard_eq_ok_iff, hversion, size, UInt16.toNat_toUInt32, Nat.not_lt, not_or]
  constructor
  · rintro ⟨h, hsize, hv, hstatic, -⟩
    exact ⟨hsize, hv, hstatic⟩
  · rintro ⟨hsize, hv, hstatic⟩
    exact ⟨_, hsize, hv, hstatic, rfl⟩

end Header

/-! ## Loading -/

namespace Story

/-- What an image must be like to be a story. -/
structure WellFormed (image : Memory) : Prop where
  header : 64 ≤ image.size
  version : image.get 0 = 1 ∨ image.get 0 = 2 ∨ image.get 0 = 3
  staticBase : 64 ≤ (image.getWord 0x0E).toNat ∧ (image.getWord 0x0E).toNat ≤ image.size
  /-- A checksum of 0 stands for none. -/
  checksum : image.getWord 0x1C = 0 ∨ (image.getWord 0x1C).toNat = image.byteSum % 65536
  dictionary : ∃ separators length count,
    Dictionary.LiesAt image (image.getWord 0x08).toNat separators length count

/-- A story is loaded in three stages: its header, its checksum and its dictionary. -/
theorem exists_load_iff {image : Memory} : (∃ story, load image = .ok story) ↔
    ∃ header, Header.read image = .ok header ∧
      (header.checksum = 0 ∨ header.checksum = image.checksum header.fileLength) ∧
      ∃ dictionary, Dictionary.read image header.dictionary = .ok dictionary := by
  unfold load
  constructor
  · rintro ⟨story, h⟩
    obtain ⟨header, hheader, h⟩ := bind_eq_ok_iff.1 h
    obtain ⟨hsum, h⟩ := guard_eq_ok_iff.1 h
    obtain ⟨dictionary, hdictionary, -⟩ := bind_eq_ok_iff.1 h
    refine ⟨header, hheader, by simpa [or_iff_not_imp_left] using hsum, ?_⟩
    cases hread : Dictionary.read image header.dictionary with
    | ok d => exact ⟨d, rfl⟩
    | error fault =>
      rw [hread] at hdictionary
      cases hdictionary
  · rintro ⟨header, hheader, hsum, dictionary, hdictionary⟩
    refine ⟨⟨image, header, image.checksum header.fileLength,
      ObjectTable.locate image header.objects, dictionary⟩, ?_⟩
    refine bind_eq_ok_iff.2 ⟨header, hheader, guard_eq_ok_iff.2 ⟨?_, ?_⟩⟩
    · exact fun h => hsum.elim h.1 h.2
    · refine bind_eq_ok_iff.2 ⟨dictionary, ?_, rfl⟩
      rw [hdictionary]
      rfl

theorem exists_load_iff_wellFormed {image : Memory} :
    (∃ story, load image = .ok story) ↔ WellFormed image := by
  have hdictionary : ((image.getWord 0x08).toUInt32).toNat = (image.getWord 0x08).toNat :=
    UInt16.toNat_toUInt32 _
  have hlies := Dictionary.insideAt_iff_liesAt (m := image) (a := (image.getWord 0x08).toUInt32)
    (hdictionary ▸ (image.getWord 0x08).toNat_lt)
  rw [hdictionary] at hlies
  have hsum : image.getWord 0x1C = image.checksum ((image.getWord 0x1A).toUInt32 * 2) ↔
      (image.getWord 0x1C).toNat = image.byteSum % 65536 := by
    rw [← UInt16.toNat_inj, image.toNat_checksum]
  rw [exists_load_iff]
  constructor
  · rintro ⟨header, hread, hchecksum, dictionary, htable⟩
    obtain ⟨hd, -, -, -, hl, hc⟩ := Header.fields_of_read hread
    obtain ⟨hheader, hversion, hstatic⟩ := Header.exists_read_iff.1 ⟨header, hread⟩
    rw [hc, hl, hsum] at hchecksum
    rw [hd] at htable
    exact ⟨hheader, hversion, hstatic, hchecksum, hlies.1 (Dictionary.read_eq_ok_iff.1 htable).1⟩
  · rintro ⟨hheader, hversion, hstatic, hchecksum, htable⟩
    obtain ⟨header, hread⟩ := Header.exists_read_iff.2 ⟨hheader, hversion, hstatic⟩
    obtain ⟨hd, -, -, -, hl, hc⟩ := Header.fields_of_read hread
    refine ⟨header, hread, ?_, Dictionary.tableAt image (image.getWord 0x08).toUInt32, ?_⟩
    · rwa [hc, hl, hsum]
    · rw [hd]
      exact Dictionary.read_eq_ok_iff.2 ⟨hlies.2 htable, rfl⟩

theorem load_of_badChecksum {image : Memory} {header : Header} (hread : Header.read image = .ok header)
    (hstored : header.checksum ≠ 0) (hsum : header.checksum ≠ image.checksum header.fileLength) :
    load image =
      .error (.story (.badChecksum header.checksum (image.checksum header.fileLength))) := by
  unfold load
  rw [hread]
  exact if_pos ⟨hstored, hsum⟩

/-- A byte of the sum that is replaced by another makes the checksum wrong. -/
theorem load_put {image : Memory} {story : Story} {n : Nat} {v : UInt8}
    (hload : load image = .ok story) (hstored : image.getWord 0x1C ≠ 0) (hn : 64 ≤ n)
    (hend : n < image.sumEnd) (hv : v ≠ image.get n) :
    ∃ computed, load (image.put n v) =
      .error (.story (.badChecksum (image.getWord 0x1C) computed)) := by
  obtain ⟨-, hread, -⟩ := load_ok hload
  have hread' : Header.read (image.put n v) = .ok story.header := by
    rw [← hread]
    refine Header.read_congr (Memory.size_put ..) fun k hk _ _ _ _ => Memory.get_put_of_ne ?_ _ _
    unfold Header.size at hk
    omega
  obtain ⟨-, -, -, -, hlength, hchecksum⟩ := Header.fields_of_read hread
  obtain ⟨-, -, -, -, hlength', -⟩ := Header.fields_of_read hread'
  rw [← hchecksum] at hstored ⊢
  refine ⟨_, load_of_badChecksum hread' hstored fun hsame => ?_⟩
  -- the sums differ by less than 256, so they differ modulo 65536
  have hsum := (exists_load_iff_wellFormed.1 ⟨story, hload⟩).checksum.resolve_left (hchecksum ▸ hstored)
  have hsum' := congrArg UInt16.toNat hsame
  rw [hlength', Memory.toNat_checksum, hchecksum] at hsum'
  have hput := Memory.byteSum_put hn hend v
  have hold := (image.get n).toNat_lt
  have hnew := v.toNat_lt
  have hne : v.toNat ≠ (image.get n).toNat := fun h => hv (UInt8.toNat_inj.1 h)
  omega

/-- **The images that are loaded are the well-formed ones**, of the images of fewer than `2 ^ 32` bytes,
whose places are addresses.  The object table has no part in this: whatever stands where the header
points, a table is located there, whose entries lie in the image.  In an image that is loaded and has a
checksum, no byte of the sum can be replaced by another: the image is then refused for its checksum. -/
theorem load_wellFormed (image : Memory) :
    ((∃ story, load image = .ok story) ↔ WellFormed image) ∧
    (∀ story, load image = .ok story →
      story.objects = ObjectTable.locate image (image.getWord 0x0A).toUInt32 ∧
        story.objects.Fits image.size) ∧
    ∀ story, load image = .ok story → image.getWord 0x1C ≠ 0 →
      ∀ n v, 64 ≤ n → n < image.sumEnd → v ≠ image.get n →
        ∃ computed, load (image.put n v) =
          .error (.story (.badChecksum (image.getWord 0x1C) computed)) := by
  refine ⟨exists_load_iff_wellFormed, fun story hload => ?_, fun story hload hstored n v => ?_⟩
  · obtain ⟨-, hread, hobjects⟩ := load_ok hload
    have hfits := ObjectTable.locate_fits image (Header.tables_lt hread story.header.objects (by simp))
    rw [← (Header.fields_of_read hread).2.1]
    exact ⟨hobjects, hobjects ▸ hfits⟩
  · exact load_put hload hstored

/-- The small image with its checksum in the header, and its last byte changed. -/
theorem load_wellFormed_summed :
    let image := smallImage.putWord 0x1C (smallImage.checksum 0)
    WellFormed image ∧ image.getWord 0x1C ≠ 0 ∧ image.sumEnd = image.size ∧
      ∃ computed, load (image.put 0x73 1) =
        .error (.story (.badChecksum (image.getWord 0x1C) computed)) := by
  intro image
  have hload : load image = .ok (.ofImage image) := load_ofImage (by decide +kernel)
  have hfacts : image.getWord 0x1C ≠ 0 ∧ image.sumEnd = 0x74 ∧ image.size = 0x74 ∧
      1 ≠ image.get 0x73 := by decide +kernel
  obtain ⟨hstored, hend, hsize, hbyte⟩ := hfacts
  obtain ⟨hiff, -, hput⟩ := load_wellFormed image
  exact ⟨hiff.1 ⟨_, hload⟩, hstored, hend.trans hsize.symm,
    hput _ hload hstored 0x73 1 (by decide) (by rw [hend]; decide) hbyte⟩

end Story

end ZCode
