/-
  Variables as independent cells.

  * `Protection.WordLoose` says which words the program may write (`writeWord_cases`).
  * `Machine.cell` is what a variable holds in place, and `Machine.assigned` the machine in which it holds
    another word.  Writing gives that machine where the variable is `Writable`, and else changes nothing
    (`setInPlace_cases`).
  * `Machine.variable_cells` says that a variable holds what was last written to it, and that no other
    one, no other frame and no other byte of memory has changed.
-/
import ZCode.Proofs.Evaluation
import ZCode.Proofs.Streams

namespace ZCode

/-! ## Words that may be written -/

namespace Protection

theorem headerAllows_iff {a : Address} {old new : UInt8} : headerAllows a old new = true ↔
    a.toNat = 0x01 ∧ old &&& ~~~Memory.flags1Mask = new &&& ~~~Memory.flags1Mask ∨
    a.toNat = 0x10 ∧ old = new ∨
    a.toNat = 0x11 ∧ old &&& ~~~Memory.flags2Mask = new &&& ~~~Memory.flags2Mask := by
  have hat : ∀ k : UInt32, a = k ↔ a.toNat = k.toNat := fun k => UInt32.toNat_inj.symm
  unfold headerAllows
  simp only [hat, UInt32.reduceToNat]
  split
  · simp_all [xor_and_eq_zero_iff]
  split
  · simp_all
  split
  · simp_all [xor_and_eq_zero_iff]
  · simp_all

/-- The program may write `w` at `n`.  In the header that is so of the second flag word alone, and of its
two bits that are not fixed. -/
def WordLoose (p : Protection) (m : Memory) (n : Nat) (w : UInt16) : Prop :=
  Header.size ≤ n ∧ n + 1 < p.staticBase.toNat ∨
    n = 0x10 ∧ m.get 0x10 = highByte w ∧
      m.get 0x11 &&& ~~~Memory.flags2Mask = lowByte w &&& ~~~Memory.flags2Mask

instance (p : Protection) (m : Memory) (n : Nat) (w : UInt16) : Decidable (p.WordLoose m n w) :=
  inferInstanceAs (Decidable (_ ∨ _))

variable {p : Protection} {m : Memory} {a : Address} {w : UInt16}

theorem WordLoose.fits (h : p.WordLoose m a.toNat w) (hhead : Header.size ≤ p.staticBase.toNat)
    (hinside : p.staticBase.toNat ≤ m.size) : a.toNat + 2 ≤ m.size := by
  have hsize : Header.size = 64 := rfl
  rcases h with ⟨-, hlt⟩ | ⟨ha, -⟩ <;> omega

theorem checkWrite_word_iff (hhead : Header.size ≤ p.staticBase.toNat)
    (hshort : p.staticBase.toNat < 65536) (hinside : p.staticBase.toNat ≤ m.size) :
    (p.checkWrite m a (highByte w) = .ok () ∧ p.checkWrite m (a + 1) (lowByte w) = .ok ()) ↔
      p.WordLoose m a.toNat w := by
  have hsize : Header.size = 64 := rfl
  have hnext : a.toNat < 65536 → (a + 1).toNat = a.toNat + 1 := by
    intro h
    rw [UInt32.toNat_add]
    exact Nat.mod_eq_of_lt (by simp; omega)
  simp only [checkWrite_eq_ok_iff, headerAllows_iff]
  constructor
  · rintro ⟨⟨hlt, hhigh⟩, hlt', hlow⟩
    rw [hnext (by omega)] at hlt' hlow
    rcases Nat.lt_or_ge a.toNat 64 with h | h
    · obtain ⟨-, hhigh⟩ := hhigh h
      -- Two neighbours that the header allows can only be those of the second flag word.
      have ha : a.toNat = 0x10 := by
        rcases Nat.lt_or_ge (a.toNat + 1) 64 with h' | h'
        · have := (hlow h').2
          omega
        · omega
      rw [ha] at hhigh hlow
      refine .inr ⟨ha, ?_, ?_⟩
      · simpa using hhigh
      · simpa using (hlow (by omega)).2
    · exact .inl ⟨h, hlt'⟩
  · rintro (⟨hlow, hhigh⟩ | ⟨ha, hhigh, hlow⟩)
    · rw [hnext (by omega)]
      exact ⟨⟨by omega, by omega⟩, by omega, by omega⟩
    · rw [hnext (by omega), ha]
      exact ⟨⟨by omega, fun _ => ⟨by omega, .inr (.inl ⟨rfl, hhigh⟩)⟩⟩, by omega,
        fun _ => ⟨by omega, .inr (.inr ⟨rfl, hlow⟩)⟩⟩

/-- A word is written whole or not at all. -/
theorem writeWord_cases (hhead : Header.size ≤ p.staticBase.toNat)
    (hshort : p.staticBase.toNat < 65536) (hinside : p.staticBase.toNat ≤ m.size) :
    p.WordLoose m a.toNat w ∧ p.writeWord a w m = .ok () (m.putWord a.toNat w) ∨
      ¬ p.WordLoose m a.toNat w ∧ ∃ fault, p.writeWord a w m = .error fault m := by
  rw [← checkWrite_word_iff hhead hshort hinside, writeWord_eq]
  cases h : p.checkWrite m a (highByte w) with
  | error fault => exact .inr ⟨by simp, fault, rfl⟩
  | ok =>
    cases h' : p.checkWrite m (a + 1) (lowByte w) with
    | error fault => exact .inr ⟨by simp, fault, rfl⟩
    | ok =>
      have hloose := (checkWrite_word_iff hhead hshort hinside).1 ⟨h, h'⟩
      refine .inl ⟨⟨rfl, rfl⟩, ?_⟩
      dsimp only
      rw [Memory.setWord_eq, if_pos (hloose.fits hhead hinside)]

end Protection

/-! ## Cells of a frame -/

namespace Frame

variable {f : Frame} {v : UInt8}

theorem toNat_pos (h0 : v ≠ 0) : 0 < v.toNat :=
  Nat.pos_of_ne_zero fun h => h0 (UInt8.toNat_inj.1 h)

theorem checkLocal_eq (h0 : v ≠ 0) (hlocal : v < 0x10) : f.checkLocal v =
    if v.toNat ≤ f.locals.length then .ok ()
    else .error (.machine (.undeclaredLocal v f.locals.length)) := by
  have hpos : ¬ v < 1 := by
    rw [UInt8.lt_iff_toNat_lt]
    exact Nat.not_lt.2 (toNat_pos h0)
  have hmax : ¬ maxLocals < v.toNat := by
    rw [UInt8.lt_iff_toNat_lt] at hlocal
    exact Nat.not_lt.2 (Nat.le_of_lt_succ hlocal)
  unfold checkLocal
  rw [if_neg (not_or.2 ⟨hpos, hmax⟩)]
  by_cases h : v.toNat ≤ f.locals.length
  · rw [if_pos h, if_neg (Nat.not_lt.2 h)]
  · rw [if_neg h, if_pos (Nat.not_le.1 h)]

theorem setTop_cases (f : Frame) (x : UInt16) :
    f.stack ≠ [] ∧ f.setTop x = .ok (f.assigned 0 x) ∨
      ¬ f.stack ≠ [] ∧ ∃ fault, f.setTop x = .error fault := by
  unfold setTop assigned
  cases f.stack with
  | nil => exact .inr ⟨by simp, _, rfl⟩
  | cons top rest => exact .inl ⟨by simp, rfl⟩

theorem setLocal_cases (h0 : v ≠ 0) (hlocal : v < 0x10) (f : Frame) (x : UInt16) :
    v.toNat ≤ f.locals.length ∧ f.setLocal v x = .ok (f.assigned v x) ∨
      ¬ v.toNat ≤ f.locals.length ∧ ∃ fault, f.setLocal v x = .error fault := by
  unfold setLocal assigned
  rw [checkLocal_eq h0 hlocal, if_neg h0, if_pos hlocal]
  split
  · rename_i h
    exact .inl ⟨h, by rw [putLocal_eq]; rfl⟩
  · rename_i h
    exact .inr ⟨h, _, rfl⟩

theorem length_locals_assigned (f : Frame) (v : UInt8) (x : UInt16) :
    (f.assigned v x).locals.length = f.locals.length := by
  unfold assigned
  split
  · rfl
  · split
    · exact List.length_set
    · rfl

theorem peek_congr {g : Frame} (h : g.stack = f.stack) : g.peek = f.peek := by
  unfold peek
  rw [h]

theorem getLocal_congr {g : Frame} (h0 : v ≠ 0) (hlocal : v < 0x10)
    (hlength : g.locals.length = f.locals.length)
    (hat : g.locals[v.toNat - 1]? = f.locals[v.toNat - 1]?) : g.getLocal v = f.getLocal v := by
  unfold getLocal
  rw [checkLocal_eq h0 hlocal, checkLocal_eq h0 hlocal, hlength, List.getD_eq_getElem?_getD,
    List.getD_eq_getElem?_getD, hat]

end Frame

namespace Machine

variable {α : Type} {z w : Machine} {v : UInt8} {x : UInt16}

/-! ## Reading -/

/-- Where the global of a variable number from 16 on stands. -/
def globalPlace (z : Machine) (v : UInt8) : Nat := z.story.header.globals.toNat + 2 * (v.toNat - 16)

/-- What the variable holds, or why it holds nothing. -/
def cell (z : Machine) (v : UInt8) : Except Fault UInt16 :=
  if v = 0 then z.calls.current.peek
  else if v < 0x10 then z.calls.current.getLocal v
  else z.story.readGlobal z.memory (globalOf v)

theorem readInPlace_eq (v : UInt8) : readInPlace v = look (·.cell v) := by
  unfold readInPlace readVariable cell
  split
  · rfl
  · split <;> rfl

/-- The value of an outcome, or its fault. -/
def answer {ε σ : Type} : EStateM.Result ε σ α → Except ε α
  | .ok a _ => .ok a
  | .error fault _ => .error fault

theorem answer_look (f : Machine → Except Fault α) (z : Machine) : answer (look f z) = f z := by
  unfold look
  cases f z <;> rfl

theorem reached_look (f : Machine → Except Fault α) (z : Machine) : reached (look f z) = z := by
  unfold look
  cases f z <;> rfl

theorem readInPlace_eq_ok_iff : readInPlace v z = .ok x z ↔ z.cell v = .ok x := by
  rw [readInPlace_eq]
  unfold look
  dsimp only
  cases z.cell v <;> simp

/-! ## Writing -/

/-- What the loader has checked of the tables: dynamic memory ends behind the header, and the globals
start at an address that a word can hold. -/
structure Laid (z : Machine) : Prop extends z.Roomy where
  behind : Header.size ≤ z.story.protection.staticBase.toNat
  globals : z.story.header.globals.toNat < 65536

theorem Reachable.laid {image : Memory} {story : Story} (hload : Story.load image = .ok story)
    (hz : Reachable story z) : z.Laid := by
  obtain ⟨-, hread, -⟩ := Story.load_ok hload
  obtain ⟨-, hbehind, -⟩ := Header.read_ok hread
  refine ⟨hz.roomy hload, ?_, ?_⟩
  · rw [hz.bounded.runs]
    exact hbehind
  · rw [hz.bounded.runs]
    exact Header.tables_lt hread _ (by simp)

/-- The machine with a word in the place of a variable. -/
def assigned (z : Machine) (v : UInt8) (x : UInt16) : Machine :=
  { z with
    calls := z.framed (z.calls.current.assigned v x)
    memory := if v < 0x10 then z.memory else z.memory.putWord (z.globalPlace v) x }

/-- The variable may be given `x`: the stack has a top, the local is declared, and the global stands
where the program may write. -/
def Writable (z : Machine) (v : UInt8) (x : UInt16) : Prop :=
  if v = 0 then z.calls.current.stack ≠ []
  else if v < 0x10 then v.toNat ≤ z.calls.current.locals.length
  else z.story.protection.WordLoose z.memory (z.globalPlace v) x

instance (z : Machine) (v : UInt8) (x : UInt16) : Decidable (z.Writable v x) := by
  unfold Writable
  infer_instance

theorem setFrame_eq (g : Frame → Except Fault Frame) (z : Machine) :
    setFrame g z = match g z.calls.current with
      | .ok f => .ok () { z with calls := z.framed f }
      | .error fault => .error fault z := by
  unfold setFrame onFrame
  dsimp only
  cases g z.calls.current <;> rfl

theorem lt_sixteen_iff : v < 0x10 ↔ v.toNat < 16 := UInt8.lt_iff_toNat_lt

theorem toNat_address (hz : z.Laid) (hglobal : ¬ v < 0x10) :
    (z.story.globalAddress (globalOf v)).toNat = z.globalPlace v :=
  toNat_globalAddress hz.globals (by rw [lt_sixteen_iff] at hglobal; omega)

/-- A write in place gives the variable its word or changes nothing. -/
theorem setInPlace_cases (hz : z.Laid) (v : UInt8) (x : UInt16) :
    z.Writable v x ∧ setInPlace v x z = .ok () (z.assigned v x) ∨
      ¬ z.Writable v x ∧ ∃ fault, setInPlace v x z = .error fault z := by
  unfold Writable setInPlace setVariable
  by_cases h0 : v = 0
  · subst h0
    simp only [if_true, setFrame_eq]
    rcases z.calls.current.setTop_cases x with ⟨h, hset⟩ | ⟨h, fault, hset⟩
    · exact .inl ⟨h, by rw [hset]; rfl⟩
    · exact .inr ⟨h, fault, by rw [hset]⟩
  simp only [if_neg h0]
  by_cases hlocal : v < 0x10
  · simp only [if_pos hlocal, setFrame_eq]
    rcases Frame.setLocal_cases h0 hlocal z.calls.current x with ⟨h, hset⟩ | ⟨h, fault, hset⟩
    · exact .inl ⟨h, by rw [hset, assigned, if_pos hlocal]⟩
    · exact .inr ⟨h, fault, by rw [hset]⟩
  · simp only [if_neg hlocal]
    have hcases := Protection.writeWord_cases (m := z.memory) (w := x)
      (a := z.story.globalAddress (globalOf v)) hz.behind hz.short hz.inside
    rw [toNat_address hz hlocal] at hcases
    rcases hcases with ⟨h, hwrite⟩ | ⟨h, fault, hwrite⟩
    · refine .inl ⟨h, ?_⟩
      rw [edit_ok hwrite, assigned, if_neg hlocal, Frame.assigned, if_neg h0, if_neg hlocal]
      rfl
    · refine .inr ⟨h, fault, ?_⟩
      simp only [edit, Story.writeGlobal, hwrite]

theorem setInPlace_eq_ok_iff (hz : z.Laid) :
    setInPlace v x z = .ok () w ↔ z.Writable v x ∧ w = z.assigned v x := by
  rcases setInPlace_cases hz v x with ⟨h, hset⟩ | ⟨h, fault, hset⟩
  · rw [hset]
    simp [h, eq_comm]
  · rw [hset]
    simp [h]

theorem eq_of_setInPlace_error (hz : z.Laid) {fault : Fault}
    (h : setInPlace v x z = .error fault w) : w = z := by
  rcases setInPlace_cases hz v x with ⟨-, hset⟩ | ⟨-, _, hset⟩
  · rw [hset] at h
    cases h
  · rw [hset] at h
    cases h
    rfl

theorem setVariable_of_ne (h0 : v ≠ 0) : setVariable v x = setInPlace v x := by
  unfold setInPlace
  rw [if_neg h0]

/-! ## Cells after a write -/

theorem cell_assigned_self (hz : z.Laid) (h : z.Writable v x) : (z.assigned v x).cell v = .ok x := by
  unfold Writable at h
  unfold cell
  by_cases h0 : v = 0
  · subst h0
    rfl
  simp only [if_neg h0] at h ⊢
  by_cases hlocal : v < 0x10
  · simp only [if_pos hlocal] at h ⊢
    have hpos := Frame.toNat_pos h0
    have hframe : (z.assigned v x).calls.current.locals =
        z.calls.current.locals.set (v.toNat - 1) x := by
      show (z.calls.current.assigned v x).locals = _
      rw [Frame.assigned, if_neg h0, if_pos hlocal]
    unfold Frame.getLocal
    rw [Frame.checkLocal_eq h0 hlocal, hframe, List.length_set, if_pos h,
      List.getD_eq_getElem?_getD, List.getElem?_set_self (by omega)]
    rfl
  · simp only [if_neg hlocal] at h ⊢
    have hmemory : (z.assigned v x).memory = z.memory.putWord (z.globalPlace v) x := if_neg hlocal
    have haddress := toNat_address hz hlocal
    rw [← haddress] at h hmemory
    have hfits := h.fits hz.behind hz.inside
    show (z.assigned v x).memory.word (z.story.globalAddress (globalOf v)) = _
    rw [hmemory, Memory.word_eq, Memory.size_putWord, if_pos hfits, Memory.getWord_putWord hfits]

theorem cell_assigned_of_ne (hz : z.Laid) {u : UInt8} (hne : u ≠ v) :
    (z.assigned v x).cell u = z.cell u := by
  have hnum : u.toNat ≠ v.toNat := fun h => hne (UInt8.toNat_inj.1 h)
  unfold cell
  by_cases h0 : u = 0
  · simp only [if_pos h0]
    refine Frame.peek_congr ?_
    show (z.calls.current.assigned v x).stack = _
    rw [Frame.assigned_stack, if_neg fun h => hne (h0.trans h.symm)]
  simp only [if_neg h0]
  by_cases hlocal : u < 0x10
  · simp only [if_pos hlocal]
    have hpos := Frame.toNat_pos h0
    exact Frame.getLocal_congr h0 hlocal (Frame.length_locals_assigned _ v x)
      (Frame.assigned_local (by omega) x)
  · simp only [if_neg hlocal]
    show (z.assigned v x).memory.word (z.story.globalAddress (globalOf u)) = z.memory.word _
    by_cases hv : v < 0x10
    · rw [show (z.assigned v x).memory = z.memory from if_pos hv]
    · have hmemory : (z.assigned v x).memory = z.memory.putWord (z.globalPlace v) x := if_neg hv
      rw [hmemory, Memory.word_eq, Memory.word_eq, Memory.size_putWord, toNat_address hz hlocal]
      rw [lt_sixteen_iff] at hv hlocal
      -- Different globals stand two bytes or more apart.
      have hapart : z.globalPlace u + 2 ≤ z.globalPlace v ∨ z.globalPlace v + 2 ≤ z.globalPlace u := by
        unfold globalPlace
        omega
      unfold Memory.getWord
      rw [Memory.get_putWord_of_spared (by omega), Memory.get_putWord_of_spared (by omega)]

theorem memory_assigned_of_lt (hv : v.toNat < 16) (z : Machine) (x : UInt16) :
    (z.assigned v x).memory = z.memory := if_pos (lt_sixteen_iff.2 hv)

theorem size_assigned (z : Machine) (v : UInt8) (x : UInt16) :
    (z.assigned v x).memory.size = z.memory.size := by
  show (if v < 0x10 then z.memory else z.memory.putWord (z.globalPlace v) x).size = _
  split
  · rfl
  · exact Memory.size_putWord _ _ _

theorem get_assigned {n : Nat} (h : (z.assigned v x).memory.get n ≠ z.memory.get n) :
    n = z.globalPlace v ∨ n = z.globalPlace v + 1 := by
  by_contra hn
  refine h ?_
  show (if v < 0x10 then z.memory else z.memory.putWord (z.globalPlace v) x).get n = _
  split
  · rfl
  · exact Memory.get_putWord_of_spared (by omega) x

/-- The second machine is the first with `x` in the variable, and with nothing else changed. -/
structure Assigns (v : UInt8) (x : UInt16) (z w : Machine) : Prop where
  same : readInPlace v w = .ok x w
  /-- Another variable gives the value that it gave, or the fault. -/
  others : ∀ u ≠ v, answer (readInPlace u w) = answer (readInPlace u z)
  depth : w.calls.current.stack.length = z.calls.current.stack.length
  /-- Below its top, the evaluation stack is as it was. -/
  deeper : w.calls.current.stack.tail = z.calls.current.stack.tail
  returns : w.calls.current.returnTo = z.calls.current.returnTo ∧
    w.calls.current.store = z.calls.current.store
  callers : w.calls.callers = z.calls.callers
  /-- Memory is left alone, but for the two bytes of a global. -/
  memory : v.toNat < 16 → w.memory = z.memory
  size : w.memory.size = z.memory.size
  bytes : ∀ n, w.memory.get n ≠ z.memory.get n → n = z.globalPlace v ∨ n = z.globalPlace v + 1
  rest : w = { z with calls := w.calls, memory := w.memory }

theorem assigns_assigned (hz : z.Laid) (h : z.Writable v x) : Assigns v x z (z.assigned v x) where
  same := readInPlace_eq_ok_iff.2 (cell_assigned_self hz h)
  others u hu := by
    rw [readInPlace_eq, answer_look, answer_look, cell_assigned_of_ne hz hu]
  depth := by
    refine Frame.length_assigned (fun h0 => ?_) x
    unfold Writable at h
    rwa [if_pos h0] at h
  deeper := by
    show (z.calls.current.assigned v x).stack.tail = _
    rw [Frame.assigned_stack]
    split <;> rfl
  returns := by
    show (z.calls.current.assigned v x).returnTo = _ ∧ (z.calls.current.assigned v x).store = _
    unfold Frame.assigned
    split
    · exact ⟨rfl, rfl⟩
    · split <;> exact ⟨rfl, rfl⟩
  callers := rfl
  memory hv := memory_assigned_of_lt hv z x
  size := size_assigned z v x
  bytes _ := get_assigned
  rest := rfl

/-! ## Pushing and popping -/

/-- What is pushed is popped, and nothing else has changed in between. -/
theorem push_cases (z : Machine) (x : UInt16) :
    z.calls.current.stack.length < Frame.maxStack ∧
        (∃ w, setVariable 0 x z = .ok () w ∧ readVariable 0 w = .ok x z) ∨
      ¬ z.calls.current.stack.length < Frame.maxStack ∧
        ∃ fault, setVariable 0 x z = .error fault z := by
  unfold setVariable readVariable
  simp only [if_true, setFrame_eq, Frame.push]
  by_cases h : z.calls.current.stack.length < Frame.maxStack
  · rw [if_neg (Nat.not_le.2 h)]
    exact .inl ⟨h, _, rfl, rfl⟩
  · rw [if_pos (Nat.not_lt.1 h)]
    exact .inr ⟨h, _, rfl⟩

theorem eq_of_setVariable_error (hz : z.Laid) {fault : Fault}
    (h : setVariable v x z = .error fault w) : w = z := by
  by_cases h0 : v = 0
  · subst h0
    rcases push_cases z x with ⟨-, _, hpush, -⟩ | ⟨-, _, hpush⟩
    · rw [hpush] at h
      cases h
    · rw [hpush] at h
      cases h
      rfl
  · rw [setVariable_of_ne h0] at h
    exact eq_of_setInPlace_error hz h

/-! ## Adding -/

theorem eq_ofInt_iff {n : UInt16} {i : Int} : n = UInt16.ofInt i ↔ (n.toNat : Int) = i % 65536 := by
  have hlt := n.toNat_lt
  have hsum : (UInt16.ofInt i).toNat = (i % 65536).toNat := by
    rw [UInt16.ofInt, UInt16.toNat_ofNat']
    omega
  rw [← UInt16.toNat_inj, hsum]
  omega

/-- Adding reads the variable and writes the sum. -/
theorem addToVariable_eq_ok_iff {d : Int} : addToVariable v d z = .ok x w ↔
    ∃ old, z.cell v = .ok old ∧ x = UInt16.ofInt (old.toNat + d) ∧ setInPlace v x z = .ok () w := by
  constructor
  · intro h
    obtain ⟨old, u, hread, hrest⟩ := ok_of_bind h
    obtain ⟨rfl, -⟩ := readInPlace_ok hread
    obtain ⟨_, u', hset, hpure⟩ := ok_of_bind hrest
    cases hpure
    exact ⟨old, readInPlace_eq_ok_iff.1 hread, rfl, hset⟩
  · rintro ⟨old, hcell, rfl, hset⟩
    unfold addToVariable
    rw [bind_ok (readInPlace_eq_ok_iff.2 hcell)]
    exact bind_ok hset

theorem eq_of_addToVariable_error (hz : z.Laid) {d : Int} {fault : Fault}
    (h : addToVariable v d z = .error fault w) : w = z := by
  unfold addToVariable at h
  cases hread : readInPlace v z with
  | error fault' u =>
    rw [bind_error hread] at h
    cases h
    have hreached := reached_look (·.cell v) z
    rwa [← readInPlace_eq, hread] at hreached
  | ok old u =>
    obtain ⟨rfl, -⟩ := readInPlace_ok hread
    rw [bind_ok hread] at h
    cases hset : setInPlace v (UInt16.ofInt (old.toNat + d)) u with
    | error fault' u' =>
      rw [bind_error hset] at h
      cases h
      exact eq_of_setInPlace_error hz hset
    | ok _ u' =>
      rw [bind_ok hset] at h
      cases h

/-! ## Independent cells -/

/-- **Variables are independent cells.**  In every state that a host can reach, a word that is written
to a variable in place stands there afterwards, and no other variable, no other frame and no other byte of
memory has changed; a write that fails has changed nothing at all.  What is pushed is popped, and leaves
the machine as it was.  Adding replaces a variable by the sum, modulo 65536, and gives that sum. -/
theorem variable_cells {image : Memory} {story : Story} (hload : Story.load image = .ok story)
    (hz : Reachable story z) (v : UInt8) (x : UInt16) :
    (∀ u, reached (readInPlace u z) = z) ∧
    ((∃ w, setInPlace v x z = .ok () w) ↔ z.Writable v x) ∧
    (∀ w, setInPlace v x z = .ok () w ∨ v ≠ 0 ∧ setVariable v x z = .ok () w → Assigns v x z w) ∧
    (∀ fault w, setInPlace v x z = .error fault w ∨ setVariable v x z = .error fault w → w = z) ∧
    ((∃ w, setVariable 0 x z = .ok () w) ↔ z.calls.current.stack.length < Frame.maxStack) ∧
    (∀ w, setVariable 0 x z = .ok () w → readVariable 0 w = .ok x z) ∧
    ∀ d : Int,
      (∀ sum w, addToVariable v d z = .ok sum w ↔ ∃ old, readInPlace v z = .ok old z ∧
        (sum.toNat : Int) = (old.toNat + d) % 65536 ∧ setInPlace v sum z = .ok () w ∧
          Assigns v sum z w) ∧
      ∀ fault w, addToVariable v d z = .error fault w → w = z := by
  have hlaid := hz.laid hload
  have hassigns : ∀ {x w}, setInPlace v x z = .ok () w → Assigns v x z w := by
    intro x w h
    obtain ⟨hwritable, rfl⟩ := (setInPlace_eq_ok_iff hlaid).1 h
    exact assigns_assigned hlaid hwritable
  refine ⟨fun u => ?_, ?_, ?_, ?_, ?_, ?_, fun d => ⟨fun sum w => ?_, fun fault w => ?_⟩⟩
  · rw [readInPlace_eq, reached_look]
  · simp [setInPlace_eq_ok_iff hlaid]
  · rintro w (h | ⟨h0, h⟩)
    · exact hassigns h
    · rw [setVariable_of_ne h0] at h
      exact hassigns h
  · rintro fault w (h | h)
    · exact eq_of_setInPlace_error hlaid h
    · exact eq_of_setVariable_error hlaid h
  · rcases push_cases z x with ⟨hroom, w, hpush, -⟩ | ⟨hfull, fault, hpush⟩
    · exact iff_of_true ⟨w, hpush⟩ hroom
    · refine iff_of_false ?_ hfull
      rintro ⟨w, h⟩
      rw [hpush] at h
      cases h
  · intro w h
    rcases push_cases z x with ⟨-, w', hpush, hpop⟩ | ⟨-, fault, hpush⟩
    · rw [hpush] at h
      cases h
      exact hpop
    · rw [hpush] at h
      cases h
  · simp only [addToVariable_eq_ok_iff, readInPlace_eq_ok_iff, eq_ofInt_iff]
    constructor
    · rintro ⟨old, hcell, hsum, hset⟩
      exact ⟨old, hcell, hsum, hset, hassigns hset⟩
    · rintro ⟨old, hcell, hsum, hset, -⟩
      exact ⟨old, hcell, hsum, hset⟩
  · exact eq_of_addToVariable_error hlaid

/-- The first global of the small story stands in dynamic memory and holds 0.  It takes a word, and one
less than 0 is 65535. -/
theorem variable_cells_small :
    let z := { Machine.start smallStory (Random.ofEntropy 1) with tracing := false }
    Story.load smallImage = .ok smallStory ∧ Reachable smallStory z ∧
      (∃ w, setInPlace 16 0x1234 z = .ok () w ∧ Assigns 16 0x1234 z w) ∧
      ∃ w, addToVariable 16 (-1) z = .ok 0xFFFF w ∧ Assigns 16 0xFFFF z w := by
  intro z
  have hz : Reachable smallStory z := .start _ _
  have hwritable : z.Writable 16 0x1234 ∧ z.Writable 16 0xFFFF ∧ z.cell 16 = .ok 0 := by
    decide +kernel
  obtain ⟨-, hwrites, hassigns, -⟩ := variable_cells load_small hz 16 0x1234
  obtain ⟨-, hwrites', hassigns', -, -, -, hadds⟩ := variable_cells load_small hz 16 0xFFFF
  obtain ⟨w, hw⟩ := hwrites.2 hwritable.1
  obtain ⟨w', hw'⟩ := hwrites'.2 hwritable.2.1
  have hsum := ((hadds (-1)).1 0xFFFF w').2 ⟨0, readInPlace_eq_ok_iff.2 hwritable.2.2, by decide, hw',
    hassigns' w' (.inl hw')⟩
  exact ⟨load_small, hz, ⟨w, hw, hassigns w (.inl hw)⟩, w', hsum, hassigns' w' (.inl hw')⟩

end Machine

end ZCode
