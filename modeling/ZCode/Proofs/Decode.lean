/-
  Decoded instructions.

  * `Instruction.decode_ok_iff` takes a successful decoding apart: the first byte, the head, the opcode
    and the tail.
  * `Instruction.Complete` says that an instruction has what its opcode needs, as every decoded one
    does (`decode_complete`).
-/
import ZCode.Proofs.Reached

namespace ZCode

namespace Reader

variable {α β : Type}

theorem bind_eq_ok_iff {x : Reader α} {f : α → Reader β} {a : Address} {r : β × Address} :
    (x >>= f) a = .ok r ↔ ∃ b a', x a = .ok (b, a') ∧ f b a' = .ok r := by
  show (x a >>= fun p => f p.1 p.2) = .ok r ↔ _
  rw [ZCode.bind_eq_ok_iff]
  constructor
  · rintro ⟨⟨b, a'⟩, hx, hf⟩
    exact ⟨b, a', hx, hf⟩
  · rintro ⟨b, a', hx, hf⟩
    exact ⟨(b, a'), hx, hf⟩

theorem byte_ok_iff {m : Memory} {a a' : Address} {b : UInt8} :
    byte m a = .ok (b, a') ↔ m.byte a = .ok b ∧ a' = a + 1 := by
  show (m.byte a >>= fun b => pure (b, a + 1)) = _ ↔ _
  rw [ZCode.bind_eq_ok_iff]
  constructor
  · rintro ⟨c, hc, ⟨⟩⟩
    exact ⟨hc, rfl⟩
  · rintro ⟨hb, rfl⟩
    exact ⟨b, hb, rfl⟩

theorem lift_ok {x : Except Fault α} {a a' : Address} {b : α}
    (h : (liftM x : Reader α) a = .ok (b, a')) : x = .ok b ∧ a' = a := by
  cases x with
  | error fault => cases h
  | ok c => cases h; exact ⟨rfl, rfl⟩

theorem map_ok {x : Reader α} {f : α → β} {a a' : Address} {c : β}
    (h : (f <$> x) a = .ok (c, a')) : ∃ b, x a = .ok (b, a') ∧ c = f b := by
  cases hx : x a with
  | error fault =>
    have : (f <$> x) a = .error fault := by
      show (x a >>= fun p => pure (f p.1, p.2)) = _
      rw [hx]
      rfl
    rw [this] at h
    cases h
  | ok r =>
    have : (f <$> x) a = .ok (f r.1, r.2) := by
      show (x a >>= fun p => pure (f p.1, p.2)) = _
      rw [hx]
      rfl
    rw [this] at h
    cases h
    exact ⟨r.1, rfl, rfl⟩

end Reader

namespace Instruction

variable {s : Script} {m : Memory} {a : Address} {i : Instruction}

theorem decode_eq_ok_iff : decode s m a = .ok i ↔ ∃ a', read s m a = .ok (i, a') := by
  show (read s m a >>= fun p => pure p.1) = .ok i ↔ _
  rw [bind_eq_ok_iff]
  constructor
  · rintro ⟨⟨j, a'⟩, hr, ⟨⟩⟩
    exact ⟨a', hr⟩
  · rintro ⟨a', hr⟩
    exact ⟨(i, a'), hr, rfl⟩

theorem opOf_ok {opcode : UInt8} {head : Head} {op : Op} (h : opOf s opcode head = .ok op) :
    Op.ofNumber? head.family head.number = some op ∧ ¬ s.version < op.info.minVersion ∧
      op.info.minOperands ≤ head.operands.length := by
  unfold opOf at h
  dsimp only at h
  split at h
  · cases h
  split at h
  · cases h
  split at h
  · cases h
  · cases h
    exact ⟨‹_›, ‹_›, Nat.not_lt.1 ‹_›⟩

theorem readTail_ok {address a₁ a₂ : Address} {head : Head} {op : Op}
    (h : readTail s m address head op a₁ = .ok (i, a₂)) :
    i.address = address ∧ i.op = op ∧ i.operands = head.operands ∧
      i.branch.isSome = op.info.branches := by
  obtain ⟨text, b₁, -, h⟩ := Reader.bind_eq_ok_iff.1 h
  obtain ⟨storeTo, b₂, -, h⟩ := Reader.bind_eq_ok_iff.1 h
  obtain ⟨branch, b₃, hbranch, h⟩ := Reader.bind_eq_ok_iff.1 h
  obtain ⟨_, _, ⟨⟩, h⟩ := Reader.bind_eq_ok_iff.1 h
  cases h
  refine ⟨rfl, rfl, rfl, ?_⟩
  unfold Reader.part at hbranch
  split at hbranch
  · obtain ⟨b, -, rfl⟩ := Reader.map_ok hbranch
    exact ‹op.info.branches = true›.symm
  · cases hbranch
    exact (Bool.eq_false_iff.2 ‹_›).symm

/-- A decoded instruction, taken apart. -/
theorem decode_ok_iff : decode s m a = .ok i ↔ ∃ opcode head a₁ a₂,
    m.byte a = .ok opcode ∧ opcode ≠ extendedOpcode ∧ readHead m opcode (a + 1) = .ok (head, a₁) ∧
      opOf s opcode head = .ok i.op ∧ readTail s m a head i.op a₁ = .ok (i, a₂) := by
  rw [decode_eq_ok_iff]
  constructor
  · rintro ⟨a₂, h⟩
    obtain ⟨_, _, ⟨⟩, h⟩ := Reader.bind_eq_ok_iff.1 h
    obtain ⟨opcode, a₀, hb, h⟩ := Reader.bind_eq_ok_iff.1 h
    obtain ⟨hbyte, rfl⟩ := Reader.byte_ok_iff.1 hb
    split at h
    · cases h
    obtain ⟨head, a₁, hhead, h⟩ := Reader.bind_eq_ok_iff.1 h
    obtain ⟨op, a₁', hlift, htail⟩ := Reader.bind_eq_ok_iff.1 h
    obtain ⟨hop, rfl⟩ := Reader.lift_ok hlift
    obtain rfl := (readTail_ok htail).2.1
    exact ⟨opcode, head, a₁', a₂, hbyte, ‹_›, hhead, hop, htail⟩
  · rintro ⟨opcode, head, a₁, a₂, hbyte, hext, hhead, hop, htail⟩
    refine ⟨a₂, Reader.bind_eq_ok_iff.2 ⟨a, a, rfl, Reader.bind_eq_ok_iff.2 ⟨opcode, a + 1, ?_, ?_⟩⟩⟩
    · exact Reader.byte_ok_iff.2 ⟨hbyte, rfl⟩
    · refine (congrFun (if_neg hext) _).trans (Reader.bind_eq_ok_iff.2 ⟨head, a₁, hhead, ?_⟩)
      exact Reader.bind_eq_ok_iff.2 ⟨i.op, a₁, by rw [hop]; rfl, htail⟩

/-- The instruction has the operands and the branch that its opcode needs. -/
structure Complete (i : Instruction) : Prop where
  operands : i.op.info.minOperands ≤ i.operands.length
  branch : i.branch.isSome = i.op.info.branches

theorem decode_complete (h : decode s m a = .ok i) : i.Complete := by
  obtain ⟨opcode, head, a₁, a₂, -, -, -, hop, htail⟩ := decode_ok_iff.1 h
  obtain ⟨-, -, hoperands, hbranch⟩ := readTail_ok htail
  exact ⟨hoperands ▸ (opOf_ok hop).2.2, hbranch⟩

/-! ## Saves and restores -/

theorem family_of_save {family : OpFamily} {number : Nat} {op : Op}
    (h : Op.ofNumber? family number = some op) (hop : op = .save ∨ op = .restore) :
    family = .zero := by
  unfold Op.ofNumber? at h
  split at h <;> first | rfl | (cases h <;> simp at hop)

/-- Without operands, a head is its first byte. -/
theorem readHead_zero {opcode : UInt8} {head : Head} {a₁ : Address}
    (h : readHead m opcode a = .ok (head, a₁)) (hf : head.family = .zero) :
    head.operands = [] ∧ a₁ = a ∧ ∀ m', readHead m' opcode a = .ok (head, a) := by
  unfold readHead at h
  split at h
  · obtain ⟨types, b₁, -, h⟩ := Reader.bind_eq_ok_iff.1 h
    obtain ⟨operands, b₂, -, h⟩ := Reader.bind_eq_ok_iff.1 h
    cases h
    dsimp only at hf
    split at hf <;> cases hf
  split at h
  · dsimp only at h
    split at h
    · rename_i hkind
      cases h
      refine ⟨rfl, rfl, fun m' => ?_⟩
      unfold readHead
      rw [if_neg ‹_›, if_pos ‹_›]
      exact congrFun (if_pos hkind) _
    · obtain ⟨operand, b₁, -, h⟩ := Reader.bind_eq_ok_iff.1 h
      cases h
      cases hf
  · obtain ⟨operands, b₁, -, h⟩ := Reader.bind_eq_ok_iff.1 h
    cases h
    cases hf

/-- A branch is read from one byte or two. -/
theorem branch_ok {b : Branch} {a' : Address} (h : Reader.branch m a = .ok (b, a')) :
    (a' = a + 1 ∧ ∀ m' : Memory, m'.byte a = m.byte a → Reader.branch m' a = .ok (b, a')) ∨
    (a' = a + 1 + 1 ∧ ∀ m' : Memory, m'.byte a = m.byte a → m'.byte (a + 1) = m.byte (a + 1) →
      Reader.branch m' a = .ok (b, a')) := by
  obtain ⟨first, a₁, hfirst, h⟩ := Reader.bind_eq_ok_iff.1 h
  obtain ⟨hb, rfl⟩ := Reader.byte_ok_iff.1 hfirst
  dsimp only at h
  split at h
  · rename_i hshort
    cases h
    refine .inl ⟨rfl, fun m' hm => Reader.bind_eq_ok_iff.2 ⟨first, a + 1, ?_, ?_⟩⟩
    · exact Reader.byte_ok_iff.2 ⟨hm.trans hb, rfl⟩
    · exact congrFun (if_pos hshort) _
  · rename_i hlong
    obtain ⟨low, a₂, hlow, h⟩ := Reader.bind_eq_ok_iff.1 h
    obtain ⟨hl, rfl⟩ := Reader.byte_ok_iff.1 hlow
    cases h
    refine .inr ⟨rfl, fun m' hm hm' => Reader.bind_eq_ok_iff.2 ⟨first, a + 1, ?_, ?_⟩⟩
    · exact Reader.byte_ok_iff.2 ⟨hm.trans hb, rfl⟩
    · refine (congrFun (if_neg hlong) _).trans ?_
      exact Reader.bind_eq_ok_iff.2
        ⟨low, a + 1 + 1, Reader.byte_ok_iff.2 ⟨hm'.trans hl, rfl⟩, rfl⟩

/-- The opcodes of the family without operands have none. -/
theorem operands_of_family (h : decode s m a = .ok i)
    (hfamily : ∀ family number, Op.ofNumber? family number = some i.op → family = .zero) :
    i.operands = [] := by
  obtain ⟨opcode, head, a₁, a₂, -, -, hhead, hopcode, htail⟩ := decode_ok_iff.1 h
  rw [(readTail_ok htail).2.2.1]
  exact (readHead_zero hhead (hfamily _ _ (opOf_ok hopcode).1)).1

/-- A save or a restore has no operands. -/
theorem operands_of_save (h : decode s m a = .ok i) (hop : i.op = .save ∨ i.op = .restore) :
    i.operands = [] :=
  operands_of_family h fun _ _ hnumber => family_of_save hnumber hop

theorem operands_of_restart (h : decode s m a = .ok i) (hop : i.op = .restart) : i.operands = [] := by
  refine operands_of_family h fun family number hnumber => ?_
  rw [hop] at hnumber
  unfold Op.ofNumber? at hnumber
  split at hnumber <;> first | rfl | cases hnumber

/-- The instruction has a byte at `n`. -/
def Occupies (i : Instruction) (n : Nat) : Prop := i.address.toNat ≤ n ∧ n < i.next.toNat

instance (i : Instruction) (n : Nat) : Decidable (i.Occupies n) := inferInstanceAs (Decidable (_ ∧ _))

/-- A save is its opcode and its branch. -/
theorem readTail_save {address a₁ a₂ : Address} {head : Head} :
    readTail s m address head .save a₁ = .ok (i, a₂) ↔ ∃ b, Reader.branch m a₁ = .ok (b, a₂) ∧
      i = { address, form := head.form, family := head.family, number := head.number, op := .save,
            operands := head.operands, storeTo := 0, branch := some b, text := [], next := a₂ } := by
  have hbranches : Reader.part Op.save.info.branches (some <$> Reader.branch m) none =
      some <$> Reader.branch m := rfl
  constructor
  · intro h
    obtain ⟨text, b₁, htext, h₁⟩ := Reader.bind_eq_ok_iff.1 h
    obtain ⟨storeTo, b₂, hstore, h₂⟩ := Reader.bind_eq_ok_iff.1 h₁
    obtain ⟨branch, b₃, hbranch, h₃⟩ := Reader.bind_eq_ok_iff.1 h₂
    cases htext
    cases hstore
    cases h₃
    rw [hbranches] at hbranch
    obtain ⟨b, hb, rfl⟩ := Reader.map_ok hbranch
    exact ⟨b, hb, rfl⟩
  · rintro ⟨b, hb, rfl⟩
    refine Reader.bind_eq_ok_iff.2 ⟨[], a₁, rfl, Reader.bind_eq_ok_iff.2 ⟨0, a₁, rfl, ?_⟩⟩
    refine Reader.bind_eq_ok_iff.2 ⟨some b, a₂, ?_, rfl⟩
    rw [hbranches]
    show (Reader.branch m a₁ >>= fun p => pure (some p.1, p.2)) = _
    rw [hb]
    rfl

/-- Decoding a save looks at no bytes but its own. -/
theorem decode_save_congr (h : decode s m a = .ok i) (hop : i.op = .save) {m' : Memory} {n : Nat}
    (hn : 2 ≤ n) (hn' : n < 0x10000) (hfree : ¬ i.Occupies n)
    (hm : ∀ x : Address, x.toNat ≠ n → m'.byte x = m.byte x) : decode s m' a = .ok i := by
  obtain ⟨opcode, head, a₁, a₂, hbyte, hext, hhead, hopcode, htail⟩ := decode_ok_iff.1 h
  have hfamily := family_of_save (opOf_ok hopcode).1 (.inl hop)
  obtain ⟨-, rfl, hhead'⟩ := readHead_zero hhead hfamily
  have htail' := htail
  rw [hop, readTail_save] at htail'
  obtain ⟨b, hbranch, hi⟩ := htail'
  have haddress : i.address = a := by rw [hi]
  have hnext : i.next = a₂ := by rw [hi]
  unfold Occupies at hfree
  rw [haddress, hnext] at hfree
  have hsucc (x : Address) : (x + 1).toNat = (x.toNat + 1) % 0x100000000 := UInt32.toNat_add x 1
  have h₁ := hsucc a
  have h₂ := hsucc (a + 1)
  have h₃ := hsucc (a + 1 + 1)
  have hlt := a.toNat_lt
  -- the bytes of the save, none of which is the one at `n`
  have hsame : m'.byte a = m.byte a ∧ Reader.branch m' (a + 1) = .ok (b, a₂) := by
    rcases branch_ok hbranch with ⟨rfl, hm'⟩ | ⟨rfl, hm'⟩
    · refine ⟨hm a ?_, hm' m' (hm (a + 1) ?_)⟩ <;> omega
    · refine ⟨hm a ?_, hm' m' (hm (a + 1) ?_) (hm (a + 1 + 1) ?_)⟩ <;> omega
  refine decode_ok_iff.2 ⟨opcode, head, a + 1, a₂, hsame.1.trans hbyte, hext, hhead' m', hopcode, ?_⟩
  rw [hop]
  exact readTail_save.2 ⟨b, hsame.2, hi⟩

end Instruction

namespace Machine

theorem length_operandValues {op : Op} {n : Nat} {operands : List Operand} {z w : Machine}
    {args : List Int} (h : operandValues op n operands z = .ok args w) :
    args.length = operands.length := by
  induction operands generalizing n z args with
  | nil => cases h; rfl
  | cons o operands ih =>
    obtain ⟨v, u, -, h⟩ := ok_of_bind h
    obtain ⟨rest, u', hrest, h⟩ := ok_of_bind h
    cases h
    simp [ih hrest]

end Machine

end ZCode
