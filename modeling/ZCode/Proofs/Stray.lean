/-
  Lookups that find what they look for.

  What is said here of a function is that it gives the same for all `Stray`s, since it never looks up
  anything that is not there.

  * Checked access to memory looks at bytes of memory only, whatever the memory is.  So does all that
    is made of it: loading a story (`Story.load_stray`), decoding text (`Script.decode_stray`) and
    instructions (`Instruction.decode_stray`).
  * The entries of the object table are looked up without a check.  They are there if the table fits
    (`ObjectTable.Fits`), and so are the flags of the header in a memory that holds one.
-/
import ZCode.Proofs.Entries

namespace ZCode

variable (s s' : Stray)

/-! ## Memory -/

theorem Edit.ok_of_read {α : Type} {f : Memory → Except Fault α} {m m' : Memory} {a : α}
    (h : Edit.read f m = .ok a m') : f m = .ok a ∧ m' = m := by
  unfold Edit.read at h
  cases hf : f m with
  | ok b => rw [hf] at h; cases h; exact ⟨rfl, rfl⟩
  | error fault => rw [hf] at h; cases h

namespace Memory

variable {m : Memory}

theorem get_stray {n : Nat} (h : n < m.size) : @get s m n = @get s' m n := by
  unfold get
  rw [Array.getD_eq_getD_getElem?, Array.getD_eq_getD_getElem?, Array.getElem?_eq_getElem h]
  rfl

theorem getWord_stray {n : Nat} (h : n + 2 ≤ m.size) : @getWord s m n = @getWord s' m n := by
  unfold getWord
  rw [get_stray s s' (by omega), get_stray s s' (by omega)]

theorem getLong_stray {n : Nat} (h : n + 4 ≤ m.size) : @getLong s m n = @getLong s' m n := by
  unfold getLong
  rw [getWord_stray s s' (by omega), getWord_stray s s' (by omega)]

theorem put_stray {n : Nat} (h : n < m.size) (v : UInt8) : @put s m n v = @put s' m n v := by
  unfold put
  rw [if_pos h, if_pos h]

theorem size_put_of_lt {n : Nat} (h : n < m.size) (v : UInt8) : (@put s m n v).size = m.size := by
  rw [put_stray s Stray.usual h, size_put]

theorem putWord_stray {n : Nat} (h : n + 2 ≤ m.size) (w : UInt16) :
    @putWord s m n w = @putWord s' m n w := by
  unfold putWord
  rw [put_stray s s' (show n < m.size by omega),
    put_stray s s' (by rw [size_put_of_lt s' (by omega)]; omega)]

theorem byte_stray (m : Memory) (a : Address) : @byte s m a = @byte s' m a := by
  refine bind_congr_of_ok fun _ h => ?_
  rw [get_stray s s' (check_eq_ok_iff.1 h)]

theorem word_stray (m : Memory) (a : Address) : @word s m a = @word s' m a := by
  refine bind_congr_of_ok fun _ h => ?_
  rw [getWord_stray s s' (check_eq_ok_iff.1 h)]

theorem setByte_stray (a : Address) (v : UInt8) : @setByte s a v = @setByte s' a v := by
  funext m
  refine bind_congr_of_reached fun _ m' h => ?_
  obtain ⟨hcheck, rfl⟩ := Edit.ok_of_read h
  exact congrArg (EStateM.Result.ok _) (put_stray s s' (check_eq_ok_iff.1 hcheck) v)

theorem setWord_stray (a : Address) (w : UInt16) : @setWord s a w = @setWord s' a w := by
  funext m
  refine bind_congr_of_reached fun _ m' h => ?_
  obtain ⟨hcheck, rfl⟩ := Edit.ok_of_read h
  exact congrArg (EStateM.Result.ok _) (putWord_stray s s' (check_eq_ok_iff.1 hcheck) w)

theorem setFlag_stray (a : Address) (i : Nat) (on : Bool) :
    @setFlag s a i on = @setFlag s' a i on := by
  unfold setFlag
  rw [funext fun m => byte_stray s s' m a]
  split
  · rfl
  funext m
  refine bind_congr_of_reached fun b m' h => ?_
  obtain ⟨hbyte, rfl⟩ := Edit.ok_of_read h
  obtain ⟨_, hcheck, -⟩ := bind_eq_ok_iff.1 hbyte
  exact congrArg (EStateM.Result.ok _) (put_stray s s' (check_eq_ok_iff.1 hcheck) _)

theorem setTranscripting_stray (on : Bool) : @setTranscripting s on = @setTranscripting s' on :=
  setFlag_stray s s' _ _ _

/-! ### Flags of the header -/

theorem isTimeGame_stray (h : Header.size ≤ m.size) : @isTimeGame s m = @isTimeGame s' m := by
  unfold isTimeGame flags1
  rw [get_stray s s' (Nat.lt_of_lt_of_le (by decide) h)]

theorem sessionBits_stray (h : Header.size ≤ m.size) : @sessionBits s m = @sessionBits s' m := by
  unfold sessionBits
  rw [get_stray s s' (Nat.lt_of_lt_of_le (by decide) h)]

theorem withSessionBits_stray (h : Header.size ≤ m.size) (bits : UInt8) :
    @withSessionBits s m bits = @withSessionBits s' m bits := by
  have hlt : flags2At < m.size := Nat.lt_of_lt_of_le (by decide) h
  unfold withSessionBits
  rw [get_stray s s' hlt, put_stray s s' hlt]

theorem clearInterpreterFields_stray (h : Header.size ≤ m.size) :
    @clearInterpreterFields s m = @clearInterpreterFields s' m := by
  have hput {k : Memory} {n : Nat} (hsize : k.size = m.size) (hn : n < Header.size) (v : UInt8) :
      @put s k n v = @put s' k n v ∧ (@put s' k n v).size = m.size := by
    have hlt : n < k.size := hsize ▸ Nat.lt_of_lt_of_le hn h
    exact ⟨put_stray s s' hlt v, (size_put_of_lt s' hlt v).trans hsize⟩
  have hget {k : Memory} {n : Nat} (hsize : k.size = m.size) (hn : n < Header.size) :
      @get s k n = @get s' k n :=
    get_stray s s' (hsize ▸ Nat.lt_of_lt_of_le hn h)
  unfold clearInterpreterFields flags1
  dsimp only
  rw [hget rfl (by decide), (hput rfl (by decide) _).1]
  have h₁ := (hput (k := m) (n := flags1At) rfl (by decide)
    (@get s' m flags1At &&& ~~~flags1Mask)).2
  generalize @put s' m flags1At _ = m₁ at h₁ ⊢
  rw [hget h₁ (by decide), (hput h₁ (by decide) _).1]
  have h₂ := (hput h₁ (n := flags2At) (by decide) (@get s' m₁ flags2At &&& ~~~0x05)).2
  generalize @put s' m₁ flags2At _ = m₂ at h₂ ⊢
  obtain ⟨h₃, hsize⟩ := hput h₂ (n := 0x1E) (by decide) 0
  rw [h₃, (hput hsize (by decide) 0).1]

end Memory

/-! ## Loading a story -/

theorem Memory.checksum_stray (m : Memory) (fileLength : Address) :
    @Memory.checksum s m fileLength = @Memory.checksum s' m fileLength := by
  have hbytes {stop : Nat} (hstop : stop ≤ m.size) :
      (List.range' Header.size (stop - Header.size)).map (@Memory.get s m) =
        (List.range' Header.size (stop - Header.size)).map (@Memory.get s' m) := by
    refine List.map_congr_left fun n hn => Memory.get_stray s s' ?_
    have := List.mem_range'_1.1 hn
    omega
  unfold Memory.checksum
  dsimp only
  split
  · rw [hbytes (by omega)]
  · rw [hbytes (Nat.le_refl _)]

theorem Header.read_stray (m : Memory) : @Header.read s m = @Header.read s' m := by
  unfold Header.read
  split
  · rfl
  · rename_i hsize
    have hget {n : Nat} (hn : n < 64) : @Memory.get s m n = @Memory.get s' m n :=
      Memory.get_stray s s' (Nat.lt_of_lt_of_le hn (Nat.not_lt.1 hsize))
    have hword {n : Nat} (hn : n + 2 ≤ 64) : @Memory.getWord s m n = @Memory.getWord s' m n :=
      Memory.getWord_stray s s' (Nat.le_trans hn (Nat.not_lt.1 hsize))
    have hserial : (List.range 6).map (fun i => @Memory.get s m (0x12 + i)) =
        (List.range 6).map fun i => @Memory.get s' m (0x12 + i) :=
      List.map_congr_left fun i hi => hget (by have := List.mem_range.1 hi; omega)
    simp (disch := decide) only [hget, hword, hserial]

namespace Dictionary

theorem readKeys_stray (m : Memory) (length : Address) (n : Nat) (entry : Address)
    (keys : Array UInt32) :
    @readKeys s m length n entry keys = @readKeys s' m length n entry keys := by
  induction n generalizing entry keys with
  | zero => rfl
  | succ n ih =>
    unfold readKeys
    split
    · rfl
    · rw [Memory.getLong_stray s s' (Nat.not_lt.1 ‹_›), ih]

theorem read_stray (m : Memory) (a : Address) : @read s m a = @read s' m a := by
  unfold read
  simp only [Memory.byte_stray s s', Memory.word_stray s s', readKeys_stray s s']

end Dictionary

theorem ObjectTable.locate_stray (m : Memory) (a : Address) : @locate s m a = @locate s' m a := by
  unfold locate countObjects
  dsimp only
  split
  · rfl
  · rw [Memory.getWord_stray s s' (by simp only [entrySize] at *; omega)]

/-- **Loading looks at nothing that is not there**, whether the image is accepted or not. -/
theorem Story.load_stray (image : Memory) : @load s image = @load s' image := by
  unfold load
  simp only [Header.read_stray s s', Memory.checksum_stray s s', Dictionary.read_stray s s',
    ObjectTable.locate_stray s s']

/-! ## The protected view -/

namespace Protection

variable (p : Protection)

theorem readByte_stray (m : Memory) (a : Address) : @readByte s p m a = @readByte s' p m a := by
  unfold readByte
  rw [Memory.byte_stray s s']

theorem readWord_stray (m : Memory) (a : Address) : @readWord s p m a = @readWord s' p m a := by
  unfold readWord
  rw [Memory.word_stray s s']

theorem checkWrite_stray (m : Memory) (a : Address) (v : UInt8) :
    @checkWrite s p m a v = @checkWrite s' p m a v := by
  unfold checkWrite
  rw [Memory.byte_stray s s']

theorem writeByte_stray (a : Address) (v : UInt8) : @writeByte s p a v = @writeByte s' p a v := by
  unfold writeByte
  simp only [checkWrite_stray s s', Memory.setByte_stray s s']

theorem writeWord_stray (a : Address) (w : UInt16) : @writeWord s p a w = @writeWord s' p a w := by
  unfold writeWord
  simp only [checkWrite_stray s s', Memory.setWord_stray s s']

end Protection

/-! ## Text -/

theorem Memory.textWordsOnto_stray (m : Memory) (seen : List UInt16) (n : Nat) :
    @textWordsOnto s m seen n = @textWordsOnto s' m seen n := by
  induction hk : m.size - n using Nat.strongRecOn generalizing seen n with
  | ind k ih =>
    unfold textWordsOnto
    split
    · rename_i hn
      rw [Memory.getWord_stray s s' hn]
      dsimp only
      split
      · rfl
      · exact ih (m.size - (n + 2)) (by omega) _ _ rfl
    · rfl

theorem Memory.textWords_stray (m : Memory) (a : Address) : @textWords s m a = @textWords s' m a :=
  textWordsOnto_stray s s' m [] a.toNat

/-- Every Z-character from 6 on has its letter in every alphabet. -/
theorem Alphabet.letter_stray (a : Alphabet) (version : UInt8) (z : ZChar) :
    @letter s a version z = @letter s' a version z := by
  have hlt : z.val - 6 < (a.letters version).length := by
    rw [length_letters]
    omega
  unfold letter
  rw [List.getD_eq_getElem?_getD, List.getD_eq_getElem?_getD, List.getElem?_eq_getElem hlt]
  rfl

namespace Reading

variable {version : UInt8} {expand : Option (Nat → Except Fault (List Char))} {r r' : Reading}
  {z : ZChar}

/-- Without a table of abbreviations no special Z-character starts one. -/
theorem special_none (h : r.special version none z = .ok r') : r'.pending = r.pending := by
  have hstart : ∀ w, r.startAbbreviation none z ≠ .ok w := nofun
  unfold special at h
  repeat' split at h
  all_goals first | exact absurd h (hstart _) | (cases h; rfl)

/-- Without a table of abbreviations no text waits for the number of one. -/
theorem feed_none (hr : ∀ bank, r.pending ≠ .abbreviation bank)
    (h : @feed s version none r z = .ok r') (bank : ZChar) : r'.pending ≠ .abbreviation bank := by
  unfold feed at h
  cases hp : r.pending with
  | abbreviation b => exact absurd hp (hr b)
  | wideHigh => rw [hp] at h; cases h; nofun
  | wideLow high =>
    rw [hp] at h
    obtain ⟨chars, -, h⟩ := bind_eq_ok_iff.1 h
    cases h
    nofun
  | fresh =>
    rw [hp] at h
    dsimp only at h
    split at h
    · cases h; nofun
    split at h
    · rw [special_none h]; nofun
    split at h
    · cases h; nofun
    · cases h; nofun

theorem feed_stray (hr : expand.isSome = true ∨ ∀ bank, r.pending ≠ .abbreviation bank) :
    @feed s version expand r z = @feed s' version expand r z := by
  unfold feed
  cases hp : r.pending with
  | abbreviation bank =>
    rcases hr with hsome | hne
    · obtain ⟨textOf, rfl⟩ := Option.isSome_iff_exists.1 hsome
      rfl
    · exact absurd hp (hne bank)
  | wideHigh | wideLow high => rfl
  | fresh => simp only [Alphabet.letter_stray s s']

/-- Reading on, the number of an abbreviation is waited for only where there is a table. -/
theorem foldlM_feed_stray (zs : List ZChar)
    (hr : expand.isSome = true ∨ ∀ bank, r.pending ≠ .abbreviation bank) :
    zs.foldlM (@feed s version expand) r = zs.foldlM (@feed s' version expand) r := by
  induction zs generalizing r with
  | nil => rfl
  | cons z zs ih =>
    rw [List.foldlM_cons, List.foldlM_cons, feed_stray s s' hr]
    refine bind_congr_of_ok fun r' hr' => ih ?_
    cases expand with
    | some textOf => exact .inl rfl
    | none => exact .inr (feed_none s' (hr.resolve_left nofun) hr')

end Reading

theorem readZChars_stray (version : UInt8) (expand : Option (Nat → Except Fault (List Char)))
    (zs : List ZChar) : @readZChars s version expand zs = @readZChars s' version expand zs := by
  unfold readZChars
  rw [Reading.foldlM_feed_stray s s' zs (.inr (by rintro bank ⟨⟩))]

namespace Script

variable (script : Script) (m : Memory)

theorem abbreviation_stray (table : Address) (index : Nat) :
    @abbreviation s script m table index = @abbreviation s' script m table index := by
  unfold abbreviation
  simp only [Memory.word_stray s s', Memory.textWords_stray s s', readZChars_stray s s']

theorem decodeZChars_stray (zs : List ZChar) :
    @decodeZChars s script m zs = @decodeZChars s' script m zs := by
  unfold decodeZChars
  rw [readZChars_stray s s', funext fun table => funext (abbreviation_stray s s' script m table)]

theorem decode_stray (a : Address) : @decode s script m a = @decode s' script m a := by
  unfold decode
  simp only [Memory.textWords_stray s s', decodeZChars_stray s s']

end Script

/-! ## Instructions -/

namespace Reader

variable (m : Memory)

theorem byte_stray : @byte s m = @byte s' m := by
  funext a
  unfold byte
  rw [Memory.byte_stray s s']

theorem operand_stray (kind : OperandKind) : @operand s m kind = @operand s' m kind := by
  unfold operand word
  rw [byte_stray s s']

theorem operands_stray (kinds : List OperandKind) : @operands s m kinds = @operands s' m kinds := by
  induction kinds with
  | nil => rfl
  | cons kind kinds ih =>
    unfold operands
    rw [operand_stray s s', ih]

theorem branch_stray : @branch s m = @branch s' m := by
  unfold branch
  rw [byte_stray s s']

theorem text_stray (script : Script) : @text s script m = @text s' script m :=
  funext (Script.decode_stray s s' script m)

end Reader

namespace Instruction

/-- **Decoding looks at nothing that is not there.** -/
theorem decode_stray (script : Script) (m : Memory) (a : Address) :
    @decode s script m a = @decode s' script m a := by
  have hhead (opcode : UInt8) : @readHead s m opcode = @readHead s' m opcode := by
    unfold readHead
    simp only [Reader.byte_stray s s', Reader.operand_stray s s', Reader.operands_stray s s']
  have htail (address : Address) (head : Head) (op : Op) :
      @readTail s script m address head op = @readTail s' script m address head op := by
    unfold readTail
    simp only [Reader.text_stray s s', Reader.byte_stray s s', Reader.branch_stray s s']
  unfold decode read
  simp only [Reader.byte_stray s s', hhead, htail]

theorem branchOn_stray {i : Instruction} (h : i.branch.isSome = true) (condition : Bool) :
    @branchOn s i condition = @branchOn s' i condition := by
  obtain ⟨b, hb⟩ := Option.isSome_iff_exists.1 h
  unfold branchOn
  rw [hb]
  rfl

end Instruction

/-! ## Frames -/

namespace Frame

variable {f : Frame} {n : UInt8}

/-- A local that passes its check is there. -/
theorem local_there (h : f.checkLocal n = .ok ()) : n.toNat - 1 < f.locals.length := by
  unfold checkLocal at h
  split at h
  · cases h
  split at h
  · cases h
  · rename_i h1 h2
    have : ¬ n.toNat < 1 := fun hn => h1 (.inl (UInt8.lt_iff_toNat_lt.2 hn))
    omega

theorem getLocal_stray (f : Frame) (n : UInt8) : @getLocal s f n = @getLocal s' f n := by
  refine bind_congr_of_ok fun _ h => ?_
  rw [List.getD_eq_getElem?_getD, List.getD_eq_getElem?_getD, List.getElem?_eq_getElem (local_there h)]
  rfl

theorem setLocal_stray (f : Frame) (n : UInt8) (v : UInt16) :
    @setLocal s f n v = @setLocal s' f n v := by
  refine bind_congr_of_ok fun _ h => ?_
  have hlt := local_there h
  unfold putLocal
  rw [if_pos hlt, if_pos hlt]

end Frame

theorem CallStack.ofFrames_stray {frames : List Frame} (h : frames ≠ []) :
    @ofFrames s frames = @ofFrames s' frames := by
  unfold ofFrames
  split
  · exact absurd (List.reverse_eq_nil_iff.1 ‹_›) h
  · rfl

/-! ## The object table -/

namespace ObjectTable

variable {t : ObjectTable} {m : Memory} {o : UInt16}

theorem Fits.get_stray (h : t.Fits m.size) {e : Address} (he : t.entry o = .ok e) {i : Address}
    (hi : i.toNat < entrySize) : @Memory.get s m (e + i).toNat = @Memory.get s' m (e + i).toNat := by
  obtain ⟨hplace, hend⟩ := h.offset (isObject_of_entry he) he hi
  exact Memory.get_stray s s' (by omega)

theorem Fits.link_stray (h : t.Fits m.size) (l : Link) (o : UInt16) :
    @link s t m l o = @link s' t m l o := by
  unfold link
  split
  · rfl
  refine bind_congr_of_ok fun e he => ?_
  rw [h.get_stray s s' he (by cases l <;> decide)]

theorem Fits.testAttribute_stray (h : t.Fits m.size) (o n : UInt16) :
    @testAttribute s t m o n = @testAttribute s' t m o n := by
  unfold testAttribute
  dsimp only
  split
  · refine bind_congr_of_ok fun _ hthrow => ?_
    cases hthrow
  split
  · rfl
  refine bind_congr_of_ok fun e he => ?_
  obtain ⟨hplace, hend⟩ := h.offset (isObject_of_entry he) he (i := 0) (by decide)
  rw [Memory.getLong_stray s s']
  have hzero : e + 0 = e := by simp
  rw [hzero, UInt32.toNat_zero] at hplace
  unfold entrySize at hend
  omega

theorem Fits.findBefore_stray (h : t.Fits m.size) (o parent : UInt16) (steps : Nat)
    (before : UInt16) :
    @findBefore s t m o parent steps before = @findBefore s' t m o parent steps before := by
  induction steps generalizing before with
  | zero => rfl
  | succ steps ih =>
    unfold findBefore sibling
    simp only [h.link_stray s s', ih]

/-! ### Properties -/

theorem Fits.propertyTable_stray (h : t.Fits m.size) (o : UInt16) :
    @propertyTable s t m o = @propertyTable s' t m o := by
  refine bind_congr_of_ok fun e he => ?_
  obtain ⟨hplace, hend⟩ := h.offset (isObject_of_entry he) he (i := 7) (by decide)
  rw [Memory.getWord_stray s s']
  rw [hplace]
  exact hend

theorem findProperty_stray (m : Memory) (property : UInt16) (n : Nat) :
    @findProperty s m property n = @findProperty s' m property n := by
  induction hk : m.size - n using Nat.strongRecOn generalizing n with
  | ind k ih =>
    unfold findProperty
    split
    · rename_i hn
      rw [Memory.get_stray s s' hn]
      dsimp only
      split
      · rfl
      split
      · rfl
      · exact ih (m.size - _) (by omega) _ rfl
    · rfl

theorem Fits.firstProperty_stray (h : t.Fits m.size) (o : UInt16) :
    @firstProperty s t m o = @firstProperty s' t m o := by
  unfold firstProperty
  simp only [h.propertyTable_stray s s', Memory.byte_stray s s']

theorem Fits.propertyData_stray (h : t.Fits m.size) (o property : UInt16) :
    @propertyData s t m o property = @propertyData s' t m o property := by
  unfold propertyData
  simp only [h.firstProperty_stray s s', findProperty_stray s s']

theorem Fits.propertyAddress_stray (h : t.Fits m.size) (o property : UInt16) :
    @propertyAddress s t m o property = @propertyAddress s' t m o property := by
  unfold propertyAddress
  rw [h.propertyData_stray s s']

theorem propertyLength_stray (m : Memory) (a : Address) :
    @propertyLength s m a = @propertyLength s' m a := by
  unfold propertyLength
  rw [Memory.byte_stray s s']

theorem Fits.nextProperty_stray (h : t.Fits m.size) (o property : UInt16) :
    @nextProperty s t m o property = @nextProperty s' t m o property := by
  unfold nextProperty
  simp only [h.firstProperty_stray s s', h.propertyData_stray s s', Memory.byte_stray s s']

theorem Fits.property_stray (h : t.Fits m.size) (o n : UInt16) :
    @property s t m o n = @property s' t m o n := by
  unfold property defaultProperty
  simp only [h.propertyData_stray s s', Memory.byte_stray s s', Memory.word_stray s s']

/-! ### Changes -/

variable {size : Nat} (p : Protection)

theorem agrees_read {α : Type} {f g : Memory → Except Fault α}
    (h : ∀ m : Memory, m.size = size → f m = g m) :
    Agrees (fun m : Memory => m.size = size) (Edit.read f) (Edit.read g) := by
  intro m hm
  unfold Edit.read
  rw [h m hm]
  cases g m <;> exact ⟨rfl, hm⟩

/-- What does not come from memory is at hand for the rest of the change. -/
theorem agrees_given {α β : Type} {P : Memory → Prop} {x : Except Fault α} {f g : α → Edit β}
    (h : ∀ a, x = .ok a → Agrees P (f a) (g a)) :
    Agrees P (Edit.read (fun _ => x) >>= f) (Edit.read (fun _ => x) >>= g) := by
  cases x with
  | ok a => exact h a rfl
  | error fault => exact fun m hm => ⟨rfl, hm⟩

/-- Writes in the protected view leave the size of memory alone. -/
theorem agrees_writes {α : Type} {x y : Edit α} (h : x = y) (hy : Within p.Writes y) :
    Agrees (fun m : Memory => m.size = size) x y :=
  .of_eq h fun m hm => (hy m).eqOutside.size ▸ hm

theorem agrees_writeByte (a : Address) (v : UInt8) : Agrees (fun m : Memory => m.size = size)
    (@Protection.writeByte s p a v) (@Protection.writeByte Stray.usual p a v) :=
  agrees_writes p (Protection.writeByte_stray s _ p a v) (p.within_writeByte a v)

theorem agrees_setLink (l : Link) (o v : UInt16) : Agrees (fun m : Memory => m.size = size)
    (@setLink s t p l o v) (@setLink Stray.usual t p l o v) :=
  (agrees_read fun _ _ => rfl).bind fun _ => agrees_writeByte s p _ _

theorem Fits.agrees_setAttribute (h : t.Fits size) (o n : UInt16) (on : Bool) :
    Agrees (fun m : Memory => m.size = size)
      (@setAttribute s t p o n on) (@setAttribute Stray.usual t p o n on) := by
  unfold setAttribute
  dsimp only
  split
  · exact .throw_bind _ _ _
  split
  · exact .pure _
  rename_i hn _
  refine agrees_given fun e he => (agrees_read fun m hm => ?_).bind fun b => agrees_writeByte s p _ _
  have hfit : t.Fits m.size := hm ▸ h
  have hlt : (n >>> 3).toUInt32.toNat < entrySize := by
    have hle := UInt16.le_iff_toNat_le.1 (UInt16.not_lt.1 hn)
    have hmax : maxAttribute.toNat = 31 := rfl
    rw [UInt16.toNat_toUInt32, UInt16.toNat_shiftRight]
    simp only [UInt16.reduceToNat, Nat.reduceMod, Nat.shiftRight_eq_div_pow, entrySize]
    omega
  rw [hfit.get_stray s Stray.usual he hlt]

theorem Fits.agrees_remove (h : t.Fits size) (o : UInt16) : Agrees (fun m : Memory => m.size = size)
    (@remove s t p o) (@remove Stray.usual t p o) := by
  have hlink (l : Link) (o : UInt16) (m : Memory) (hm : m.size = size) :
      @link s t m l o = @link Stray.usual t m l o :=
    Fits.link_stray s _ (hm ▸ h) l o
  have unlink : Agrees (fun m : Memory => m.size = size)
      (do @setLink s t p .parent o 0; @setLink s t p .sibling o 0)
      (do @setLink Stray.usual t p .parent o 0; @setLink Stray.usual t p .sibling o 0) :=
    (agrees_setLink s p _ _ _).bind fun _ => agrees_setLink s p _ _ _
  unfold remove
  split
  · exact .pure _
  refine (agrees_read (hlink .parent o)).bind fun parent => ?_
  split
  · exact .pure _
  refine (agrees_read (hlink .child parent)).bind fun first => ?_
  refine (agrees_read (hlink .sibling o)).bind fun sibling => ?_
  dsimp only
  split
  · exact (agrees_setLink s p _ _ _).bind fun _ => unlink
  · refine (agrees_read fun m hm => ?_).bind fun _ =>
      (agrees_setLink s p _ _ _).bind fun _ => unlink
    exact Fits.findBefore_stray s _ (hm ▸ h) o parent _ first

theorem Fits.agrees_insert (h : t.Fits size) (o q : UInt16) :
    Agrees (fun m : Memory => m.size = size) (@insert s t p o q) (@insert Stray.usual t p o q) := by
  unfold insert
  split
  · exact .pure _
  split
  · exact h.agrees_remove s p o
  dsimp only
  split
  · exact .throw_bind _ _ _
  refine (h.agrees_remove s p o).bind fun _ => (agrees_read fun m hm => ?_).bind fun first =>
    (agrees_setLink s p _ _ _).bind fun _ => (agrees_setLink s p _ _ _).bind fun _ =>
      agrees_setLink s p _ _ _
  exact Fits.link_stray s _ (hm ▸ h) .child q

theorem Fits.agrees_setProperty (h : t.Fits size) (o n v : UInt16) :
    Agrees (fun m : Memory => m.size = size)
      (@setProperty s t p o n v) (@setProperty Stray.usual t p o n v) := by
  have hdata (m : Memory) (hm : m.size = size) :
      @propertyData s t m o n = @propertyData Stray.usual t m o n :=
    Fits.propertyData_stray s _ (hm ▸ h) o n
  unfold setProperty
  refine (agrees_read hdata).bind fun data => ?_
  split
  · exact .throw _
  split
  · exact agrees_writeByte s p _ _
  split
  · exact agrees_writes p (Protection.writeWord_stray s _ p _ _) (p.within_writeWord _ _)
  · exact .throw _

end ObjectTable

/-! ## Stories -/

namespace Story

variable (story : Story) {m : Memory}

theorem freshMemory_stray (h : Header.size ≤ story.image.size) :
    @freshMemory s story = @freshMemory s' story :=
  Memory.clearInterpreterFields_stray s s' h

theorem readGlobal_stray (m : Memory) (x : UInt8) :
    @readGlobal s story m x = @readGlobal s' story m x :=
  Memory.word_stray s s' m _

theorem writeGlobal_stray (x : UInt8) (v : UInt16) :
    @writeGlobal s story x v = @writeGlobal s' story x v :=
  Protection.writeWord_stray s s' _ _ v

theorem textAt_stray (m : Memory) (a : Address) : @textAt s story m a = @textAt s' story m a :=
  Script.decode_stray s s' _ m a

theorem objectName_stray (h : story.objects.Fits m.size) (o : UInt16) :
    @objectName s story m o = @objectName s' story m o := by
  unfold objectName ObjectTable.nameAddress
  simp only [h.propertyTable_stray s s', Memory.byte_stray s s', textAt_stray s s']

end Story

/-! ## The machine -/

namespace Machine

theorem writeByte_stray (a : Address) (v : UInt8) : @writeByte s a v = @writeByte s' a v := by
  unfold writeByte
  simp only [Protection.writeByte_stray s s']

theorem writeWord_stray (a : Address) (w : UInt16) : @writeWord s a w = @writeWord s' a w := by
  unfold writeWord
  simp only [Protection.writeWord_stray s s']

theorem readByte_stray (a : Address) : @readByte s a = @readByte s' a := by
  unfold readByte
  simp only [Protection.readByte_stray s s']

theorem readWord_stray (a : Address) : @readWord s a = @readWord s' a := by
  unfold readWord
  simp only [Protection.readWord_stray s s']

/-! ### Variables -/

theorem readVariable_stray (v : UInt8) : @readVariable s v = @readVariable s' v := by
  unfold readVariable
  simp only [Frame.getLocal_stray s s', Story.readGlobal_stray s s']

theorem setVariable_stray (v : UInt8) (value : UInt16) :
    @setVariable s v value = @setVariable s' v value := by
  unfold setVariable
  simp only [Frame.setLocal_stray s s', Story.writeGlobal_stray s s']

theorem operandValues_stray (op : Op) (n : Nat) (operands : List Operand) :
    @operandValues s op n operands = @operandValues s' op n operands := by
  induction operands generalizing n with
  | nil => rfl
  | cons o operands ih =>
    unfold operandValues operandValue
    simp only [readVariable_stray s s', ih]

/-! ### Printing and reading -/

theorem printToTable_stray (text : List Char) : @printToTable s text = @printToTable s' text := by
  induction text with
  | nil => rfl
  | cons c text ih =>
    unfold printToTable
    simp only [writeByte_stray s s', ih]

theorem print_stray (text : List Char) : @print s text = @print s' text := by
  unfold print
  simp only [printToTable_stray s s']

theorem printAt_stray (a : Address) : @printAt s a = @printAt s' a := by
  unfold printAt
  simp only [Story.textAt_stray s s', print_stray s s']

theorem outputStream_stray (number : Int) (table : Option Int) :
    @outputStream s number table = @outputStream s' number table := by
  unfold outputStream deselectTable
  simp only [Memory.setTranscripting_stray s s', writeWord_stray s s']

theorem writeBytes_stray (a : Address) (bytes : List UInt8) :
    @writeBytes s a bytes = @writeBytes s' a bytes := by
  induction bytes generalizing a with
  | nil => rfl
  | cons b bytes ih =>
    unfold writeBytes
    simp only [writeByte_stray s s', ih]

theorem writeTokens_stray (block : Address) (tokens : List Token) :
    @writeTokens s block tokens = @writeTokens s' block tokens := by
  induction tokens generalizing block with
  | nil => rfl
  | cons t tokens ih =>
    unfold writeTokens
    simp only [writeWord_stray s s', writeByte_stray s s', ih]

theorem resumeRead_stray (r : PendingRead) : @resumeRead s r = @resumeRead s' r := by
  unfold resumeRead completeRead
  simp only [readByte_stray s s', writeBytes_stray s s', writeByte_stray s s',
    writeTokens_stray s s']

/-! ### Calls and returns -/

theorem enter_stray (c : Call) : @enter s c = @enter s' c := by
  unfold enter initialLocals
  simp only [setVariable_stray s s', Memory.byte_stray s s', Memory.word_stray s s']

theorem follow_stray (flow : Flow) : @follow s flow = @follow s' flow := by
  cases flow with
  | next | jump => rfl
  | ret value =>
    unfold follow leave
    simp only [setVariable_stray s s']

theorem fetch_stray (pc : Address) : @fetch s pc = @fetch s' pc := by
  unfold fetch
  simp only [Instruction.decode_stray s s']

end Machine

end ZCode
