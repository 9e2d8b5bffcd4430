/-
  Memory protection over whole runs.

  * `Story.load_ok` says what a loaded story has to do with its image.
  * `Machine.Protected` is the invariant: memory differs from fresh memory in loose bits only, which
    are the flags of the header and dynamic memory behind it.  Snapshots of protected states are
    protected, so that restoring them keeps it (`Protected.change`).
  * `genuine_memory` draws the conclusions for every state that a host can reach with its own
    snapshots: static memory and the fixed fields of the header are those of the image.
-/
import ZCode.Proofs.Run

namespace ZCode

/-! ## Loaded stories -/

theorem Header.read_ok {m : Memory} {h : Header} (hr : Header.read m = .ok h) :
    Header.size ≤ m.size ∧ Header.size ≤ h.staticBase.toNat ∧ h.staticBase.toNat ≤ m.size := by
  unfold Header.read at hr
  dsimp only at hr
  simp only [guard_eq_ok_iff] at hr
  obtain ⟨h1, -, h3, ⟨⟩⟩ := hr
  dsimp only
  omega

theorem Header.fields_of_read {m : Memory} {h : Header} (hr : Header.read m = .ok h) :
    h.dictionary = (m.getWord 0x08).toUInt32 ∧ h.objects = (m.getWord 0x0A).toUInt32 ∧
      h.globals = (m.getWord 0x0C).toUInt32 ∧ h.staticBase = (m.getWord 0x0E).toUInt32 ∧
      h.fileLength = (m.getWord 0x1A).toUInt32 * 2 ∧ h.checksum = m.getWord 0x1C := by
  unfold Header.read at hr
  dsimp only at hr
  simp only [guard_eq_ok_iff] at hr
  obtain ⟨-, -, -, ⟨⟩⟩ := hr
  exact ⟨rfl, rfl, rfl, rfl, rfl, rfl⟩

/-- The tables stand at addresses that a word can hold. -/
theorem Header.tables_lt {m : Memory} {h : Header} (hr : Header.read m = .ok h) :
    ∀ a ∈ [h.dictionary, h.objects, h.globals, h.staticBase], a.toNat < 65536 := by
  obtain ⟨hdictionary, hobjects, hglobals, hstatic, -, -⟩ := fields_of_read hr
  rw [hdictionary, hobjects, hglobals, hstatic]
  have hword : ∀ n, (m.getWord n).toNat < 65536 := fun n => UInt16.toNat_lt _
  simp [hword]

/-- The fixed fields stand outside the flag bytes and the bytes that belong to the interpreter. -/
theorem Header.read_congr {m m' : Memory} (hs : m.size = m'.size)
    (h : ∀ n < Header.size, n ≠ 0x01 → n ≠ 0x11 → n ≠ 0x1E → n ≠ 0x1F → m.get n = m'.get n) :
    Header.read m = Header.read m' := by
  have hw : ∀ n, n + 1 < Header.size → n ≠ 0x00 → n ≠ 0x01 → n ≠ 0x10 → n ≠ 0x11 → n ≠ 0x1D →
      n ≠ 0x1E → n ≠ 0x1F → m.getWord n = m'.getWord n := by
    intro n hn _ _ _ _ _ _ _
    unfold Memory.getWord
    rw [h n (by omega) (by omega) (by omega) (by omega) (by omega),
      h (n + 1) hn (by omega) (by omega) (by omega) (by omega)]
  have h0 : m.get 0 = m'.get 0 := by
    apply h <;> decide
  have serial : (List.range 6).map (fun i => m.get (0x12 + i)) =
      (List.range 6).map (fun i => m'.get (0x12 + i)) := by
    refine List.map_congr_left fun i hi => ?_
    have := List.mem_range.1 hi
    apply h <;> first | omega | (unfold Header.size; omega)
  unfold Header.read
  rw [hs, h0, serial]
  rw [hw 0x02, hw 0x04, hw 0x06, hw 0x08, hw 0x0A, hw 0x0C, hw 0x0E, hw 0x18, hw 0x1A, hw 0x1C,
    hw 0x32] <;> decide

namespace Story

/-- What a loaded story has to do with its image. -/
theorem load_ok {image : Memory} {story : Story} (h : Story.load image = .ok story) :
    story.image = image ∧ Header.read image = .ok story.header ∧
      story.objects = ObjectTable.locate image story.header.objects := by
  unfold load at h
  cases hr : Header.read image with
  | error fault => rw [hr] at h; cases h
  | ok header =>
    rw [hr] at h
    dsimp only [bind, Except.bind, pure, Except.pure, throw, throwThe, MonadExceptOf.throw] at h
    split at h
    · cases h
    cases hd : (Dictionary.read image header.dictionary).mapError Fault.dictionary with
    | error fault => simp only [hd] at h; cases h
    | ok dictionary => simp only [hd] at h; cases h; exact ⟨rfl, rfl, rfl⟩

theorem size_freshMemory (story : Story) : story.freshMemory.size = story.image.size :=
  Memory.size_clearInterpreterFields _

theorem dictionary_of_load {image : Memory} {story : Story}
    (h : Story.load image = .ok story) :
    Dictionary.read image story.header.dictionary = .ok story.dictionary := by
  unfold Story.load at h
  obtain ⟨header, -, h⟩ := bind_eq_ok_iff.1 h
  obtain ⟨-, h⟩ := guard_eq_ok_iff.1 h
  obtain ⟨dictionary, hread, h⟩ := bind_eq_ok_iff.1 h
  cases h
  cases hd : Dictionary.read image header.dictionary with
  | error fault =>
    rw [hd] at hread
    cases hread
  | ok d =>
    rw [hd] at hread
    cases hread
    rfl

end Story

/-! ## The session's bits -/

namespace Memory

theorem sessionBits_and_not (m : Memory) : m.sessionBits &&& ~~~flags2Mask = 0 := by
  unfold sessionBits
  rw [UInt8.and_assoc]
  have : flags2Mask &&& ~~~flags2Mask = 0 := rfl
  rw [this, UInt8.and_zero]

/-- Replacing the session's bits touches no others. -/
theorem eqOutside_withSessionBits {loose : Nat → UInt8} (h : loose flags2At = flags2Mask)
    (m source : Memory) : m.EqOutside loose (m.withSessionBits source.sessionBits) := by
  apply EqOutside.put
  rw [h]
  exact merge_and_not source.sessionBits_and_not _

theorem sessionBits_withSessionBits {m : Memory} (h : flags2At < m.size) (source : Memory) :
    (m.withSessionBits source.sessionBits).sessionBits = source.sessionBits := by
  rw [sessionBits, withSessionBits, get_put_self h]
  exact merge_and source.sessionBits_and_not _

theorem get_clearInterpreterFields {m : Memory} {n : Nat} (h1 : n ≠ 0x01) (h2 : n ≠ 0x11)
    (h3 : n ≠ 0x1E) (h4 : n ≠ 0x1F) : m.clearInterpreterFields.get n = m.get n := by
  unfold clearInterpreterFields
  rw [get_put_of_ne (Ne.symm h4), get_put_of_ne (Ne.symm h3),
    get_put_of_ne (show flags2At ≠ n from Ne.symm h2),
    get_put_of_ne (show flags1At ≠ n from Ne.symm h1)]

end Memory

/-! ## The invariant -/

namespace Machine

/-- The machine runs the story, and memory differs from fresh memory in loose bits only. -/
structure Protected (story : Story) (z : Machine) : Prop where
  runs : z.story = story
  memory : story.freshMemory.EqOutside story.protection.looseBits z.memory

variable {story : Story}

theorem looseBits_flags2At (p : Protection) : p.looseBits Memory.flags2At = Memory.flags2Mask := by
  rw [Protection.looseBits, if_pos (by decide)]
  rfl

/-- An elementary change keeps memory protected, if what is restored is protected. -/
theorem Protected.change {D : Snapshot → Prop}
    (hD : ∀ d, D d → story.freshMemory.EqOutside story.protection.looseBits (d.memory.getD default))
    {z w : Machine} (hc : Change D z w) (hz : Protected story z) : Protected story w := by
  cases hc with
  | move hm =>
    cases hm with
    | book | frame | streams => exact ⟨hz.runs, hz.memory⟩
    | write hw =>
      rw [hz.runs] at hw
      exact ⟨hz.runs, hz.memory.trans hw.eqOutside⟩
  | call | ret | reset => exact ⟨hz.runs, hz.memory⟩
  | reload =>
    refine ⟨hz.runs, ?_⟩
    rw [← hz.runs]
    dsimp only [Story.restartedMemory]
    exact Memory.eqOutside_withSessionBits (looseBits_flags2At _) _ _
  | restore hd ha =>
    rw [restore_eq, ha]
    exact ⟨hz.runs, (hD _ hd).trans (Memory.eqOutside_withSessionBits (looseBits_flags2At _) _ _)⟩

/-- A snapshot of a protected state is protected, also if it is taken in the middle of a step. -/
theorem Protected.of_takes {source : Machine} (h : Protected story source) {d : Snapshot}
    (hd : source.Takes d) :
    story.freshMemory.EqOutside story.protection.looseBits (d.memory.getD default) := by
  rcases hd with rfl | ⟨i, w, hw, rfl⟩
  · exact h.memory
  · have hc := within_advance (D := fun _ => False) source
    rw [hw] at hc
    exact (hc.keep (fun _ _ => Protected.change fun _ => False.elim) h).memory

theorem Genuine.protected {z : Machine} (h : Genuine story z) : Protected story z :=
  h.of_change (fun _ _ => ⟨rfl, .refl _ _⟩) fun _ _ _ hs => Protected.change fun _ => hs.of_takes

/-- **Memory protection.**  In every state that a host can reach while it restores nothing but
snapshots of such states, memory has the size of the image, static memory is that of the image, the
header is that of fresh memory except for its flag bits, and so the header can be read again with
the same fields. -/
theorem genuine_memory {image : Memory} {z : Machine} (hload : Story.load image = .ok story)
    (hz : Genuine story z) :
    z.memory.size = image.size ∧
      (∀ n, story.header.staticBase.toNat ≤ n → z.memory.get n = image.get n) ∧
      (∀ n < Header.size, z.memory.get n &&& ~~~Memory.flagBits n =
        story.freshMemory.get n &&& ~~~Memory.flagBits n) ∧
      Header.read z.memory = .ok story.header := by
  obtain ⟨himage, hread, -⟩ := Story.load_ok hload
  obtain ⟨-, hbase, -⟩ := Header.read_ok hread
  have hfresh : ∀ n, n ≠ 0x01 → n ≠ 0x11 → n ≠ 0x1E → n ≠ 0x1F →
      story.freshMemory.get n = image.get n := by
    intro n h1 h2 h3 h4
    rw [Story.freshMemory, Memory.get_clearInterpreterFields h1 h2 h3 h4, himage]
  have hmem := hz.protected.memory
  have hsize : z.memory.size = image.size := by
    rw [← hmem.size, story.size_freshMemory, himage]
  refine ⟨hsize, fun n hn => ?_, fun n hn => ?_, ?_⟩
  · have h64 : Header.size ≤ n := Nat.le_trans hbase hn
    rw [← hmem.get_eq (Protection.looseBits_static h64 hn)]
    unfold Header.size at h64
    rw [hfresh n] <;> omega
  · rw [← story.protection.looseBits_header hn]
    exact (hmem.get n).symm
  · rw [← hread]
    refine Header.read_congr hsize fun n hn h1 h2 h3 h4 => ?_
    have hloose : story.protection.looseBits n = 0 := by
      rw [story.protection.looseBits_header hn, Memory.flagBits_of_ne h1 h2]
    rw [← hmem.get_eq hloose, hfresh n h1 h2 h3 h4]

/-- A step, a header flag and the restore of a snapshot, on the small story. -/
theorem genuine_memory_small :
    let start := { Machine.start smallStory (Random.ofEntropy 1) with tracing := true }
    let stepped := (HostCall.step ⟨.ok (), .error .noStore⟩).run
      ((HostCall.setTranscripting true).run start)
    let z := (HostCall.restore start.snapshot).run stepped
    z.memory.size = smallImage.size ∧
      (∀ n, smallStory.header.staticBase.toNat ≤ n → z.memory.get n = smallImage.get n) ∧
      (∀ n < Header.size, z.memory.get n &&& ~~~Memory.flagBits n =
        smallStory.freshMemory.get n &&& ~~~Memory.flagBits n) ∧
      Header.read z.memory = .ok smallStory.header := by
  intro start stepped z
  have hstart : Genuine smallStory start := .start _ true
  have hflag : Genuine smallStory ((HostCall.setTranscripting true).run start) :=
    Genuine.call (.setTranscripting true) hstart hstart fun _ h => h.elim
  have hstepped : Genuine smallStory stepped :=
    Genuine.call (.step ⟨.ok (), .error .noStore⟩) hflag hstart fun _ ⟨_, _, _, hd, _⟩ => nomatch hd
  have hz : Genuine smallStory z :=
    Genuine.call (.restore start.snapshot) hstepped hstart fun _ h => .inl h.1.symm
  exact genuine_memory load_small hz

end Machine

end ZCode
