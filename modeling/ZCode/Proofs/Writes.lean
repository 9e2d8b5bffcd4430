/-
  What a running story can do to memory.

  * `Protection.Write` is one byte written: through the protected view, or as one of the four header
    flags that the interpreter sets on behalf of the program or its host.
  * Every edit that a program can cause is a sequence of such writes (`Within p.Writes`), whether it
    faults on the way or not.
  * `Protection.looseBits` are the bits that such writes can reach (`Writes.eqOutside`).
-/
import ZCode.Proofs.Memory

namespace ZCode

open Relation

/-- The bits of a header byte that the program or its host may change. -/
def Memory.flagBits (n : Nat) : UInt8 :=
  if n = flags1At then flags1Mask else if n = flags2At then flags2Mask else 0

theorem Memory.flagBits_of_ne {n : Nat} (h1 : n ≠ flags1At) (h2 : n ≠ flags2At) :
    flagBits n = 0 := by
  rw [flagBits, if_neg h1, if_neg h2]

namespace Protection

/-- The header flags that the interpreter sets, by address and bit: transcript, status line, screen
split and variable pitch. -/
def ownFlags : List (Nat × Nat) := [(0x11, 0), (0x01, 4), (0x01, 5), (0x01, 6)]

/-- One byte of memory is written. -/
inductive Write (p : Protection) : Memory → Memory → Prop
  /-- Through the protected view. -/
  | byte {m : Memory} {a : Address} {v : UInt8} : p.checkWrite m a v = .ok () → a.toNat < m.size →
      Write p m (m.put a.toNat v)
  /-- By setting or clearing a flag of the header. -/
  | flag {m : Memory} {n i : Nat} (on : Bool) : (n, i) ∈ ownFlags → n < m.size →
      Write p m (m.put n (withBit (m.get n) i on))

/-- Any number of bytes is written, one after the other. -/
abbrev Writes (p : Protection) : Memory → Memory → Prop := ReflTransGen p.Write

/-- The bits of memory that writes can reach: the flags in the header, and all of dynamic memory
behind it. -/
def looseBits (p : Protection) (n : Nat) : UInt8 :=
  if n < Header.size then Memory.flagBits n else if n < p.staticBase.toNat then 0xFF else 0

theorem looseBits_header (p : Protection) {n : Nat} (h : n < Header.size) :
    p.looseBits n = Memory.flagBits n := if_pos h

theorem looseBits_static {p : Protection} {n : Nat} (h : Header.size ≤ n)
    (hs : p.staticBase.toNat ≤ n) : p.looseBits n = 0 := by
  rw [looseBits, if_neg (Nat.not_lt.2 h), if_neg (Nat.not_lt.2 hs)]

/-! ## What the protected view allows -/

theorem and_eq_of_headerAllows {a : Address} {old new : UInt8} (h : headerAllows a old new = true) :
    new &&& ~~~Memory.flagBits a.toNat = old &&& ~~~Memory.flagBits a.toNat := by
  unfold headerAllows at h
  split at h
  · rename_i ha
    have hm : Memory.flagBits a.toNat = Memory.flags1Mask := by rw [ha]; rfl
    rw [hm]
    exact (xor_and_eq_zero_iff.1 (by simpa using h)).symm
  split at h
  · have : old = new := by simpa using h
    rw [this]
  split at h
  · rename_i ha
    have hm : Memory.flagBits a.toNat = Memory.flags2Mask := by rw [ha]; rfl
    rw [hm]
    exact (xor_and_eq_zero_iff.1 (by simpa using h)).symm
  · cases h

theorem checkWrite_eq_ok_iff {p : Protection} {m : Memory} {a : Address} {v : UInt8} :
    p.checkWrite m a v = .ok () ↔ a.toNat < p.staticBase.toNat ∧
      (a.toNat < Header.size → a.toNat < m.size ∧ headerAllows a (m.get a.toNat) v = true) := by
  have hd : p.isDynamic a = decide (a.toNat < p.staticBase.toNat) := by
    simp [isDynamic, UInt32.lt_iff_toNat_lt]
  unfold checkWrite
  rw [hd, Memory.byte_eq]
  by_cases h1 : a.toNat < p.staticBase.toNat <;> by_cases h2 : a.toNat < Header.size <;>
    by_cases h3 : a.toNat < m.size <;> cases h4 : headerAllows a (m.get a.toNat) v <;>
      simp [h1, h2, h3, h4, bind, Except.bind, pure, Except.pure, throw, throwThe,
        MonadExceptOf.throw]

/-- Behind the header only static memory is kept from writing. -/
theorem checkWrite_of_le {p : Protection} {a : Address} (h : Header.size ≤ a.toNat) (m : Memory)
    (v : UInt8) : p.checkWrite m a v = if a.toNat < p.staticBase.toNat then .ok ()
      else .error (.access a (.staticMemory p.staticBase)) := by
  have hd : p.isDynamic a = decide (a.toNat < p.staticBase.toNat) := by
    simp [isDynamic, UInt32.lt_iff_toNat_lt]
  unfold checkWrite
  rw [hd]
  by_cases h1 : a.toNat < p.staticBase.toNat <;>
    simp [h1, Nat.not_lt.2 h, bind, Except.bind, pure, Except.pure, throw, throwThe,
      MonadExceptOf.throw]

/-- Whether a byte may be written depends on the bytes of the header only. -/
theorem checkWrite_put_of_ne {p : Protection} {m : Memory} {a : Address} {n : Nat}
    (h : n ≠ a.toNat) (u v : UInt8) : p.checkWrite (m.put n u) a v = p.checkWrite m a v := by
  simp only [checkWrite, Memory.byte_eq, Memory.size_put, Memory.get_put_of_ne h]

theorem writeByte_eq (p : Protection) (a : Address) (v : UInt8) (m : Memory) :
    p.writeByte a v m = match p.checkWrite m a v with
      | .ok _ => Memory.setByte a v m
      | .error fault => .error fault m := by
  cases h : p.checkWrite m a v with
  | ok => exact bind_ok (t := m) (a := ()) (by simp [Edit.read, h])
  | error fault => exact bind_error (by simp [Edit.read, h])

theorem writeWord_eq (p : Protection) (a : Address) (w : UInt16) (m : Memory) :
    p.writeWord a w m = match p.checkWrite m a (highByte w), p.checkWrite m (a + 1) (lowByte w) with
      | .error fault, _ => .error fault m
      | .ok _, .error fault => .error fault m
      | .ok _, .ok _ => Memory.setWord a w m := by
  cases h : p.checkWrite m a (highByte w) with
  | error fault => exact bind_error (by simp [Edit.read, h])
  | ok =>
    refine (bind_ok (t := m) (a := ()) (by simp [Edit.read, h])).trans ?_
    cases h' : p.checkWrite m (a + 1) (lowByte w) with
    | error fault => exact bind_error (by simp [Edit.read, h'])
    | ok => exact bind_ok (t := m) (a := ()) (by simp [Edit.read, h'])

theorem of_writeByte {p : Protection} {a : Address} {v : UInt8} {m m' : Memory}
    (h : p.writeByte a v m = .ok () m') : a.toNat < m.size ∧ m' = m.put a.toNat v := by
  rw [writeByte_eq] at h
  split at h
  · rw [Memory.setByte_eq] at h
    split at h
    · cases h
      exact ⟨‹_›, rfl⟩
    · cases h
  · cases h

theorem of_writeWord {p : Protection} {a : Address} {w : UInt16} {m m' : Memory}
    (h : p.writeWord a w m = .ok () m') :
    a.toNat + 2 ≤ m.size ∧ m' = m.putWord a.toNat w := by
  rw [writeWord_eq] at h
  split at h
  · cases h
  · cases h
  · rw [Memory.setWord_eq] at h
    split at h
    · cases h
      exact ⟨‹_›, rfl⟩
    · cases h

/-! ## Edits as sequences of writes -/

/-- Reading writes nothing. -/
theorem within_read {α : Type} (p : Protection) (f : Memory → Except Fault α) :
    Within p.Writes (Edit.read f) := by
  intro m
  unfold Edit.read
  cases f m <;> exact .refl

theorem within_writeByte (p : Protection) (a : Address) (v : UInt8) :
    Within p.Writes (p.writeByte a v) := by
  intro m
  rw [writeByte_eq]
  cases h : p.checkWrite m a v with
  | error fault => exact .refl
  | ok =>
    simp only [Memory.setByte_eq]
    split
    · exact .single (.byte h ‹_›)
    · exact .refl

theorem within_writeWord (p : Protection) (a : Address) (w : UInt16) :
    Within p.Writes (p.writeWord a w) := by
  intro m
  rw [writeWord_eq]
  cases h : p.checkWrite m a (highByte w) with
  | error fault => exact .refl
  | ok =>
    cases h' : p.checkWrite m (a + 1) (lowByte w) with
    | error fault => exact .refl
    | ok =>
      simp only [Memory.setWord_eq]
      split
      · rename_i hs
        -- dynamic addresses are far from wrapping around
        have ha := (checkWrite_eq_ok_iff.1 h).1
        have hn : (a + 1).toNat = a.toNat + 1 := by
          have := p.staticBase.toNat_lt
          rw [UInt32.toNat_add, Nat.mod_eq_of_lt]
          · rfl
          · simp
            omega
        refine (ReflTransGen.single (.byte h (by omega))).tail ?_
        rw [reached_ok, Memory.putWord, ← hn]
        refine .byte ?_ (by simp; omega)
        rw [checkWrite_put_of_ne (by omega), h']
      · exact .refl

theorem within_setFlag (p : Protection) {a : Address} {i : Nat} (on : Bool)
    (h : (a.toNat, i) ∈ ownFlags) (hi : i ≤ 7) : Within p.Writes (Memory.setFlag a i on) := by
  intro m
  rw [Memory.setFlag_eq hi]
  split
  · exact .single (.flag on h ‹_›)
  · exact .refl

/-! ## The reach of writes -/

theorem Write.eqOutside {p : Protection} {m m' : Memory} (h : p.Write m m') :
    m.EqOutside p.looseBits m' := by
  cases h with
  | @byte a v hc hs =>
    obtain ⟨hd, hh⟩ := checkWrite_eq_ok_iff.1 hc
    apply Memory.EqOutside.put
    unfold looseBits
    rw [if_pos hd]
    split
    · rename_i hlt; exact and_eq_of_headerAllows (hh hlt).2
    · have : ~~~(0xFF : UInt8) = 0 := rfl
      simp [this]
  | @flag n i on hf hs =>
    apply Memory.EqOutside.put
    simp only [ownFlags, List.mem_cons, Prod.mk.injEq, List.not_mem_nil, or_false] at hf
    rcases hf with ⟨rfl, rfl⟩ | ⟨rfl, rfl⟩ | ⟨rfl, rfl⟩ | ⟨rfl, rfl⟩ <;>
      exact withBit_and_not (by rw [looseBits, if_pos (by decide)]; decide) _ _

/-- **Writes stay within the loose bits.** -/
theorem Writes.eqOutside {p : Protection} {m m' : Memory} (h : p.Writes m m') :
    m.EqOutside p.looseBits m' := by
  induction h with
  | refl => exact .refl _ _
  | tail _ hw ih => exact ih.trans hw.eqOutside

end Protection

/-! ## The object table -/

namespace ObjectTable

open Protection

variable (t : ObjectTable) (p : Protection)

theorem within_setLink (l : Link) (o v : UInt16) : Within p.Writes (t.setLink p l o v) :=
  (within_read p _).bind fun _ => within_writeByte p _ _

theorem within_setAttribute (o n : UInt16) (on : Bool) :
    Within p.Writes (t.setAttribute p o n on) := by
  unfold setAttribute
  dsimp only
  split
  · exact .throw_bind _ _
  split
  · exact .pure _
  exact (within_read p _).bind fun _ => (within_read p _).bind fun _ => within_writeByte p _ _

theorem within_remove (o : UInt16) : Within p.Writes (t.remove p o) := by
  unfold remove
  split
  · exact .pure _
  refine (within_read p _).bind fun parent => ?_
  split
  · exact .pure _
  refine (within_read p _).bind fun first => (within_read p _).bind fun sibling => ?_
  -- both branches end with the links of the object itself
  have unlink : Within p.Writes (do t.setLink p .parent o 0; t.setLink p .sibling o 0) :=
    (t.within_setLink p _ _ _).bind fun _ => t.within_setLink p _ _ _
  dsimp only
  split
  · exact (t.within_setLink p _ _ _).bind fun _ => unlink
  · exact (within_read p _).bind fun _ => (t.within_setLink p _ _ _).bind fun _ => unlink

theorem within_insert (o q : UInt16) : Within p.Writes (t.insert p o q) := by
  unfold insert
  split
  · exact .pure _
  split
  · exact t.within_remove p o
  dsimp only
  split
  · exact .throw_bind _ _
  exact (t.within_remove p o).bind fun _ => (within_read p _).bind fun _ =>
    (t.within_setLink p _ _ _).bind fun _ => (t.within_setLink p _ _ _).bind fun _ =>
      t.within_setLink p _ _ _

theorem within_setProperty (o n v : UInt16) : Within p.Writes (t.setProperty p o n v) := by
  unfold setProperty
  refine (within_read p _).bind fun data => ?_
  split
  · exact .throw _
  split
  · exact within_writeByte p _ _
  split
  · exact within_writeWord p _ _
  · exact .throw _

end ObjectTable
end ZCode
