/-
  Signed arithmetic at the limits.

  * A number is stored modulo 65536, and read back as it was if it lies in -32768..32767
    (`signed_ofInt_iff`).  Of all quotients only that of -32768 and -1 does not (`tdiv_fits_iff`).
  * `Machine.TakesWords` says that two words are the first two operands of an instruction, wherever they come
    from.  Its opcode is then carried out on their values (`execute_of_takesWords`).
  * `Op.Stores`, `Op.Fails`, `Op.Branches` and `Op.Counts` say what every instruction of an opcode does
    with two words, and `Op.signed_arithmetic` says it of the opcodes for numbers.
-/
import ZCode.Proofs.Variables

namespace ZCode

/-! ## Numbers as words -/

theorem signed_bounds (w : UInt16) : -32768 ≤ signed w ∧ signed w ≤ 32767 := by
  have hlt := w.toNat_lt
  unfold signed
  split <;> omega

theorem signed_emod (w : UInt16) : signed w % 65536 = w.toNat := by
  have hlt := w.toNat_lt
  unfold signed
  split <;> omega

theorem toNat_ofInt (i : Int) : ((UInt16.ofInt i).toNat : Int) = i % 65536 :=
  Machine.eq_ofInt_iff.1 rfl

/-- The numbers that a word can hold. -/
theorem signed_ofInt_iff {i : Int} : signed (UInt16.ofInt i) = i ↔ -32768 ≤ i ∧ i ≤ 32767 := by
  have hnat := toNat_ofInt i
  unfold signed
  split <;> omega

theorem signed_ofInt_emod (i : Int) : signed (UInt16.ofInt i) % 65536 = i % 65536 := by
  rw [signed_emod, toNat_ofInt]

/-! ## Truncated division -/

section
variable {a b : Int}

/-- A quotient is no larger than the number that is divided, and at most half of it unless the divisor is
1 or -1. -/
theorem tdiv_fits_iff (ha : -32768 ≤ a ∧ a ≤ 32767) (hb : b ≠ 0) :
    (-32768 ≤ a.tdiv b ∧ a.tdiv b ≤ 32767) ↔ ¬ (a = -32768 ∧ b = -1) := by
  by_cases hone : b = -1
  · subst hone
    rw [Int.tdiv_neg, Int.tdiv_one]
    omega
  by_cases hone' : b = 1
  · subst hone'
    rw [Int.tdiv_one]
    omega
  have hhalf : (a.tdiv b).natAbs ≤ a.natAbs / 2 := by
    rw [Int.natAbs_tdiv]
    exact Nat.div_le_div_left (by omega) (by decide)
  omega

theorem natAbs_tmod_lt (hb : b ≠ 0) : (a.tmod b).natAbs < b.natAbs := by
  rw [Int.natAbs_tmod]
  exact Nat.mod_lt _ (Int.natAbs_pos.2 hb)

/-- A remainder has the sign of the number that is divided. -/
theorem tmod_eq_zero_or_sign (a b : Int) : a.tmod b = 0 ∨ (a.tmod b).sign = a.sign := by
  by_cases hr : a.tmod b = 0
  · exact .inl hr
  refine .inr ?_
  rcases Int.lt_trichotomy a 0 with ha | rfl | ha
  · have hnonneg := Int.tmod_nonneg b (a := -a) (by omega)
    rw [Int.neg_tmod] at hnonneg
    rw [Int.sign_eq_neg_one_of_neg ha, Int.sign_eq_neg_one_of_neg (by omega)]
  · exact absurd (Int.zero_tmod b) hr
  · have hnonneg := Int.tmod_nonneg b (Int.le_of_lt ha)
    rw [Int.sign_eq_one_of_pos ha, Int.sign_eq_one_of_pos (by omega)]

end

/-! ## Refused writes -/

namespace Protection

theorem checkWrite_cases (p : Protection) (m : Memory) (a : Address) (b : UInt8) :
    p.checkWrite m a b = .ok () ∨ ∃ cause, p.checkWrite m a b = .error (.access a cause) := by
  unfold checkWrite
  rw [Memory.byte_eq]
  by_cases hdynamic : p.isDynamic a = true <;> by_cases hheader : a.toNat < Header.size <;>
    by_cases hinside : a.toNat < m.size <;>
      cases hallows : headerAllows a (m.get a.toNat) b <;>
        simp [hdynamic, hheader, hinside, hallows, bind, Except.bind, pure, Except.pure, throw, throwThe,
          MonadExceptOf.throw]

/-- A word that cannot be written has been refused by memory. -/
theorem writeWord_fault {p : Protection} {m m' : Memory} {a : Address} {w : UInt16} {fault : Fault}
    (h : p.writeWord a w m = .error fault m') : ∃ b cause, fault = .access b cause := by
  rw [writeWord_eq, Memory.setWord_eq] at h
  rcases checkWrite_cases p m a (highByte w) with hhigh | ⟨cause, hhigh⟩
  · rcases checkWrite_cases p m (a + 1) (lowByte w) with hlow | ⟨cause, hlow⟩
    · rw [hhigh, hlow] at h
      dsimp only at h
      split at h
      · cases h
      · cases h
        exact ⟨_, _, rfl⟩
    · rw [hhigh, hlow] at h
      cases h
      exact ⟨_, _, rfl⟩
  · rw [hhigh] at h
    cases h
    exact ⟨_, _, rfl⟩

end Protection

/-! ## Operands -/

theorem Op.hint_succ {op : Op} {first : Hint} (h : op.info.hints = [first, .signed]) (j : Nat) :
    op.hint (j + 1) = .signed := by
  unfold hint
  rw [h]
  cases j <;> rfl

namespace Machine

variable {z : Machine} {i : Instruction} {op : Op} {x y : UInt16}

theorem meaning_of_range {hint : Hint} {raw : UInt16} (h : hint = .reference → raw ≤ 0xFF) :
    meaning hint raw z = .ok (hint.value raw) z := by
  cases hint with
  | signed | packed | plain | address => rfl
  | reference =>
    unfold meaning
    dsimp only
    rw [if_neg (UInt16.not_lt.2 (h rfl))]
    rfl

/-- A variable that has a value can be read. -/
theorem readVariable_of_word {n : UInt8} {raw : UInt16}
    (h : (if n = 0 then z.calls.current.stack[0]?
      else if n < 0x10 then z.calls.current.locals[n.toNat - 1]?
      else (z.story.readGlobal z.memory (globalOf n)).toOption) = some raw) :
    readVariable n z = .ok raw
      (z.withStack (z.calls.current.stack.drop (if n = 0 then 1 else 0))) := by
  unfold readVariable
  by_cases h0 : n = 0
  · rw [if_pos h0] at h
    rw [if_pos h0, if_pos h0]
    unfold onFrame Frame.pop
    cases hstack : z.calls.current.stack with
    | nil =>
      rw [hstack] at h
      cases h
    | cons top rest =>
      rw [hstack] at h
      cases h
      rfl
  rw [if_neg h0] at h
  rw [if_neg h0, if_neg h0]
  by_cases hlocal : n < 0x10
  · rw [if_pos hlocal] at h ⊢
    obtain ⟨hlt, -⟩ := List.getElem?_eq_some_iff.1 h
    have hpos := Frame.toNat_pos h0
    have hget : z.calls.current.getLocal n = .ok raw := by
      unfold Frame.getLocal
      rw [Frame.checkLocal_eq h0 hlocal, if_pos (by omega), List.getD_eq_getElem?_getD, h]
      rfl
    exact look_of_ok hget
  · rw [if_neg hlocal] at h ⊢
    cases hread : z.story.readGlobal z.memory (globalOf n) with
    | error fault =>
      rw [hread] at h
      cases h
    | ok value =>
      rw [hread] at h
      cases h
      exact look_of_ok hread

/-- An operand that stands for a word can be evaluated. -/
theorem operandValue_of_word {o : Operand} {hint : Hint} {raw : UInt16}
    (hnumber : o.kind = .var → o.value ≤ 0xFF) (hrange : hint = .reference → raw ≤ 0xFF)
    (hword : z.operandWord o z.calls.current.stack[0]? = some raw) :
    operandValue o hint z = .ok (hint.value raw)
      (z.withStack (z.calls.current.stack.drop (if o.fromStack then 1 else 0))) := by
  obtain ⟨kind, number⟩ := o
  cases kind with
  | omitted =>
    cases hword
    exact congrArg (EStateM.Result.ok · z) hint.value_zero.symm
  | large | small =>
    cases hword
    exact meaning_of_range hrange
  | var =>
    have hsmall := UInt16.not_lt.2 (hnumber rfl)
    have hread := readVariable_of_word hword
    dsimp only [operandValue]
    rw [if_neg (by decide), if_pos rfl, if_neg hsmall]
    refine (bind_ok hread).trans ((meaning_of_range hrange).trans ?_)
    simp [Operand.fromStack, toUInt8_eq_zero_iff hsmall]

/-- What operands that come next receive, and the first one. -/
theorem receives_cons {o : Operand} {operands : List Operand} {raw : UInt16}
    {raws : List UInt16} (h : z.Receives (o :: operands) (raw :: raws)) :
    z.operandWord o z.calls.current.stack[0]? = some raw ∧
      (z.withStack (z.calls.current.stack.drop (if o.fromStack then 1 else 0))).Receives
        operands raws := by
  refine ⟨(h.word 0 o rfl).symm, Nat.succ.inj h.length, fun j o' ho' => ?_⟩
  refine (h.word (j + 1) o' ho').trans ?_
  show _ = z.operandWord o' ((z.calls.current.stack.drop _)[_]?)
  rw [List.getElem?_drop, List.take_succ_cons, List.countP_cons, Nat.add_comm]

/-- Operands that stand for words can be evaluated, from left to right. -/
theorem operandValues_of_receives {operands : List Operand} {raws : List UInt16} {n : Nat}
    (hnumbers : ∀ o ∈ operands, o.kind = .var → o.value ≤ 0xFF)
    (hranges : ∀ j raw, raws[j]? = some raw → op.hint (n + j) = .reference → raw ≤ 0xFF)
    (h : z.Receives operands raws) :
    operandValues op n operands z = .ok (raws.mapIdx fun j raw => (op.hint (n + j)).value raw)
      (z.withStack (z.calls.current.stack.drop (operands.countP Operand.fromStack))) := by
  induction operands generalizing n raws z with
  | nil =>
    obtain rfl := List.length_eq_zero_iff.1 h.length
    rfl
  | cons o operands ih =>
    cases raws with
    | nil => exact absurd h.length (by simp)
    | cons raw raws =>
      obtain ⟨hword, hrest⟩ := receives_cons h
      have hvalue : operandValue o (op.hint n) z = _ :=
        operandValue_of_word (hnumbers o (by simp)) (hranges 0 raw rfl) hword
      have hvalues := ih (n := n + 1) (fun o' ho' => hnumbers o' (by simp [ho']))
        (fun j raw' hraw' => by
          rw [Nat.add_assoc, Nat.add_comm 1]
          exact hranges (j + 1) raw' hraw') hrest
      refine (bind_ok hvalue).trans ((bind_ok hvalues).trans ?_)
      rw [List.mapIdx_cons, List.countP_cons, Nat.add_comm (operands.countP _), ← List.drop_drop]
      simp only [Nat.add_assoc, Nat.add_comm 1]
      rfl

/-- The machine without the entries of the stack that the operands of an instruction take. -/
def taking (z : Machine) (i : Instruction) : Machine :=
  z.withStack (z.calls.current.stack.drop i.taken)

/-- The instruction is one of `op`, and `x` and `y` are the words of its first two operands.  All its
operands can be read; the numbers of variables are bytes, as they are in memory. -/
structure TakesWords (z : Machine) (i : Instruction) (op : Op) (x y : UInt16) : Prop where
  opcode : i.op = op
  numbers : ∀ o ∈ i.operands, o.kind = .var → o.value ≤ 0xFF
  words : ∃ rest, z.Receives i.operands (x :: y :: rest)

/-- An instruction is carried out on the values of the words it takes. -/
theorem execute_of_takesWords {first : Hint} {act : Run Action}
    (hhints : op.info.hints = [first, .signed]) (hrange : first = .reference → x ≤ 0xFF)
    (h : z.TakesWords i op x y)
    (hact : ∀ args c, performOn i args (first.value x) (signed y) c = act) :
    execute i z = act (z.taking i) := by
  obtain ⟨rfl, hnumbers, rest, hwords⟩ := h
  have hfirst : i.op.hint 0 = first := by
    unfold Op.hint
    rw [hhints]
    rfl
  have hranges (j : Nat) (raw : UInt16) (hraw : (x :: y :: rest)[j]? = some raw)
      (hhint : i.op.hint (0 + j) = .reference) : raw ≤ 0xFF := by
    rw [Nat.zero_add] at hhint
    cases j with
    | zero =>
      cases hraw
      exact hrange (hfirst ▸ hhint)
    | succ j =>
      rw [Op.hint_succ hhints] at hhint
      cases hhint
  have hvalues := operandValues_of_receives hnumbers hranges hwords
  simp only [Nat.zero_add] at hvalues
  have hperform (args : List Int) (ha : args.getD 0 Stray.number = first.value x)
      (hb : args.getD 1 Stray.number = signed y) : perform i args = act := by
    rw [perform, ha, hb]
    exact hact args _
  refine (bind_ok hvalues).trans (congrFun (hperform _ ?_ ?_) (z.taking i))
  · exact (getD_mapIdx_value ..).trans (by rw [hfirst]; rfl)
  · exact (getD_mapIdx_value ..).trans (by rw [Op.hint_succ hhints]; rfl)

theorem execute_of_signed {act : Run Action} (hhints : op.info.hints = [.signed, .signed])
    (h : z.TakesWords i op x y)
    (hact : ∀ args c, performOn i args (signed x) (signed y) c = act) :
    execute i z = act (z.taking i) :=
  execute_of_takesWords hhints nofun h hact

/-! ## Storing -/

theorem setFrame_fault {g : Frame → Except Fault Frame} {w : Machine} {fault : Fault}
    (h : setFrame g z = .error fault w) : g z.calls.current = .error fault := by
  rw [setFrame_eq] at h
  cases hg : g z.calls.current with
  | error fault' =>
    rw [hg] at h
    cases h
    rfl
  | ok f =>
    rw [hg] at h
    cases h

/-- Storing fails for want of a place, never because of the number that is stored. -/
theorem setVariable_ne_instruction (v : UInt8) (x : UInt16) (z w : Machine)
    (cause : InstructionCause) : setVariable v x z ≠ .error (.instruction cause) w := by
  intro h
  unfold setVariable at h
  split at h
  · have hpush := setFrame_fault h
    unfold Frame.push at hpush
    split at hpush <;> cases hpush
  rename_i h0
  split at h
  · rename_i hlocal
    have hset := setFrame_fault h
    unfold Frame.setLocal at hset
    rw [Frame.checkLocal_eq h0 hlocal] at hset
    split at hset <;> cases hset
  · unfold edit Story.writeGlobal at h
    dsimp only at h
    cases hwrite : z.story.protection.writeWord (z.story.globalAddress (globalOf v)) x z.memory with
    | ok _ m =>
      rw [hwrite] at h
      cases h
    | error fault m =>
      obtain ⟨a, cause', rfl⟩ := Protection.writeWord_fault hwrite
      rw [hwrite] at h
      cases h

end Machine

namespace Op

open Machine

/-! ## What opcodes do with two words -/

/-- Every instruction of the opcode that takes `x` and `y` stores `v`, and has no fault of its own. -/
def Stores (op : Op) (x y v : UInt16) : Prop :=
  ∀ (z : Machine) (i : Instruction), z.TakesWords i op x y →
    execute i z = storeResult i v (z.taking i) ∧
      ∀ cause w, execute i z ≠ .error (.instruction cause) w

/-- Every instruction of the opcode that takes `x` and `y` fails.  It stores nothing: all that it has
changed is the stack, if it took operands from there. -/
def Fails (op : Op) (x y : UInt16) (cause : InstructionCause) : Prop :=
  ∀ (z : Machine) (i : Instruction), z.TakesWords i op x y →
    execute i z = .error (.instruction cause) (z.taking i)

/-- Every instruction of the opcode that takes `x` and `y` branches on `condition`. -/
def Branches (op : Op) (x y : UInt16) (condition : Bool) : Prop :=
  ∀ (z : Machine) (i : Instruction), z.TakesWords i op x y →
    execute i z = .ok (.flow (i.branchOn condition)) (z.taking i)

/-- Every instruction of the opcode that takes the number of a variable and `y` adds `d` to the variable,
modulo 65536, and branches on the new value. -/
def Counts (op : Op) (d : Int) (condition : Int → Bool) (x y : UInt16) : Prop :=
  ∀ (z : Machine) (i : Instruction) (old : UInt16), z.TakesWords i op x y →
    (z.taking i).cell x.toUInt8 = .ok old →
      ∃ new, (new.toNat : Int) = (signed old + d) % 65536 ∧
        execute i z = (do
          setInPlace x.toUInt8 new
          branch i (condition (signed new))) (z.taking i)

variable {op : Op} {x y v : UInt16}

theorem stores_of_performOn (hhints : op.info.hints = [.signed, .signed])
    (h : ∀ i args c, i.op = op → performOn i args (signed x) (signed y) c = storeResult i v) :
    op.Stores x y v := by
  intro z i hz
  have hstore : execute i z = storeResult i v (z.taking i) :=
    execute_of_signed hhints hz fun args c => h i args c hz.opcode
  refine ⟨hstore, fun cause w hfault => ?_⟩
  rw [hstore] at hfault
  cases hset : setVariable i.storeTo v (z.taking i) with
  | ok _ u =>
    rw [storeResult, bind_ok hset] at hfault
    cases hfault
  | error fault u =>
    rw [storeResult, bind_error hset] at hfault
    cases hfault
    exact setVariable_ne_instruction _ _ _ _ _ hset

theorem counts_of_performOn {d : Int} {condition : Int → Bool} (hx : x ≤ 0xFF)
    (hhints : op.info.hints = [.reference, .signed])
    (h : ∀ i args c, i.op = op → performOn i args (x.toNat : Int) (signed y) c = do
      let new ← addToVariable (UInt8.ofInt x.toNat) d
      branch i (condition (signed new))) :
    op.Counts d condition x y := by
  intro z i old hz hold
  refine ⟨UInt16.ofInt (old.toNat + d), ?_, ?_⟩
  · rw [toNat_ofInt, Int.add_emod, Int.add_emod (signed old), signed_emod]
    omega
  · rw [execute_of_takesWords hhints (fun _ => hx) hz fun args c => h i args c hz.opcode, ofInt_target]
    cases hset : setInPlace x.toUInt8 (UInt16.ofInt (old.toNat + d)) (z.taking i) with
    | ok _ w => rw [bind_ok (addToVariable_eq_ok_iff.2 ⟨old, hold, rfl, hset⟩), bind_ok hset]
    | error fault w =>
      have hadd : addToVariable x.toUInt8 d (z.taking i) = .error fault w := by
        unfold addToVariable
        exact (bind_ok (readInPlace_eq_ok_iff.2 hold)).trans (bind_error hset)
      rw [bind_error hadd, bind_error hset]

/-! ## Opcodes for numbers -/

theorem add_stores (x y : UInt16) : Op.add.Stores x y (UInt16.ofInt (signed x + signed y)) :=
  stores_of_performOn rfl fun i args c hop => by simp only [performOn, hop]

theorem sub_stores (x y : UInt16) : Op.sub.Stores x y (UInt16.ofInt (signed x - signed y)) :=
  stores_of_performOn rfl fun i args c hop => by simp only [performOn, hop]

theorem mul_stores (h : -32768 ≤ signed x * signed y ∧ signed x * signed y ≤ 32767) :
    Op.mul.Stores x y (UInt16.ofInt (signed x * signed y)) :=
  stores_of_performOn rfl fun i args c hop => by
    simp only [performOn, hop]
    rw [if_neg (by omega)]

theorem mul_fails (h : ¬ (-32768 ≤ signed x * signed y ∧ signed x * signed y ≤ 32767)) :
    Op.mul.Fails x y (.multiplicationOverflow (signed x) (signed y)) :=
  fun _ _ hz => execute_of_signed rfl hz fun args c => by
    simp only [performOn, hz.opcode]
    rw [if_pos (by omega)]
    rfl

theorem div_stores (h : signed y ≠ 0) :
    Op.div.Stores x y (UInt16.ofInt ((signed x).tdiv (signed y))) :=
  stores_of_performOn rfl fun i args c hop => by
    simp only [performOn, hop]
    rw [if_neg h, quotient, if_neg h]

theorem div_fails (h : signed y = 0) : Op.div.Fails x y .divisionByZero :=
  fun _ _ hz => execute_of_signed rfl hz fun args c => by
    simp only [performOn, hz.opcode]
    rw [if_pos h]
    rfl

theorem mod_stores (h : signed y ≠ 0) :
    Op.mod.Stores x y (UInt16.ofInt ((signed x).tmod (signed y))) :=
  stores_of_performOn rfl fun i args c hop => by
    simp only [performOn, hop]
    rw [if_neg h, remainder, if_neg h]

theorem mod_fails (h : signed y = 0) : Op.mod.Fails x y .remainderByZero :=
  fun _ _ hz => execute_of_signed rfl hz fun args c => by
    simp only [performOn, hz.opcode]
    rw [if_pos h]
    rfl

/-- **Arithmetic on signed words is exact up to its limits.**  Sums and differences are stored modulo
65536.  A product is stored if a word can hold it, and else the instruction fails and stores nothing; so it
does on a division by 0, and only then.  The remainder is exact, and so is the quotient but for that of
-32768 and -1, and they give back the number that was divided.  Comparisons go by the signed order, and
those that count by the value of the variable after it has wrapped around. -/
theorem signed_arithmetic {x y : UInt16} {a b : Int} (ha : signed x = a) (hb : signed y = b) :
    (∃ sum difference, Op.add.Stores x y sum ∧ Op.sub.Stores x y difference ∧
      (sum.toNat : Int) = (a + b) % 65536 ∧ (difference.toNat : Int) = (a - b) % 65536) ∧
    (-32768 ≤ a * b ∧ a * b ≤ 32767 →
      ∃ product, Op.mul.Stores x y product ∧ signed product = a * b) ∧
    (¬ (-32768 ≤ a * b ∧ a * b ≤ 32767) → Op.mul.Fails x y (.multiplicationOverflow a b)) ∧
    (b = 0 → Op.div.Fails x y .divisionByZero ∧ Op.mod.Fails x y .remainderByZero) ∧
    (b ≠ 0 → ∃ q r, Op.div.Stores x y q ∧ Op.mod.Stores x y r ∧
      (q.toNat : Int) = a.tdiv b % 65536 ∧ (signed q = a.tdiv b ↔ ¬ (a = -32768 ∧ b = -1)) ∧
      signed r = a.tmod b ∧ (signed r).natAbs < b.natAbs ∧
      (signed r = 0 ∨ (signed r).sign = a.sign) ∧
      (signed q * b + signed r) % 65536 = a % 65536) ∧
    Op.jl.Branches x y (a < b) ∧ Op.jg.Branches x y (b < a) ∧
    (x ≤ 0xFF →
      Op.incChk.Counts 1 (fun new => b < new) x y ∧
      Op.decChk.Counts (-1) (fun new => new < b) x y) := by
  subst ha hb
  refine ⟨⟨_, _, add_stores x y, sub_stores x y, toNat_ofInt _, toNat_ofInt _⟩,
    fun hfits => ⟨_, mul_stores hfits, signed_ofInt_iff.2 hfits⟩, mul_fails,
    fun hzero => ⟨div_fails hzero, mod_fails hzero⟩, fun hne => ?_, ?_, ?_, fun hx => ⟨?_, ?_⟩⟩
  · have hsmall := natAbs_tmod_lt (a := signed x) hne
    have hexact : signed (UInt16.ofInt ((signed x).tmod (signed y))) = (signed x).tmod (signed y) := by
      have hy := signed_bounds y
      exact signed_ofInt_iff.2 (by omega)
    refine ⟨_, _, div_stores hne, mod_stores hne, toNat_ofInt _,
      signed_ofInt_iff.trans (tdiv_fits_iff (signed_bounds x) hne), hexact, ?_, ?_, ?_⟩
    · rw [hexact]
      exact hsmall
    · rw [hexact]
      exact tmod_eq_zero_or_sign _ _
    · calc (signed (UInt16.ofInt ((signed x).tdiv (signed y))) * signed y +
            signed (UInt16.ofInt ((signed x).tmod (signed y)))) % 65536
          = ((signed x).tdiv (signed y) * signed y + (signed x).tmod (signed y)) % 65536 := by
            rw [hexact, Int.add_emod, Int.mul_emod, signed_ofInt_emod, ← Int.mul_emod, ← Int.add_emod]
        _ = signed x % 65536 := by rw [Int.tdiv_mul_add_tmod]
  · exact fun _ _ hz => execute_of_signed rfl hz fun args c => by
      simp only [performOn, hz.opcode]
      rfl
  · exact fun _ _ hz => execute_of_signed rfl hz fun args c => by
      simp only [performOn, hz.opcode]
      rfl
  · exact counts_of_performOn hx rfl fun i args c hop => by simp only [performOn, hop]
  · exact counts_of_performOn hx rfl fun i args c hop => by simp only [performOn, hop]

/-- An instruction with two operands, which stores on the stack. -/
def withTwo (op : Op) (number : Nat) (first second : Operand) : Instruction :=
  { address := 0, form := .variadic, family := .two, number, op, operands := [first, second],
    storeTo := 0, branch := none, text := [], next := 0 }

theorem takesWords_withTwo {z : Machine} {number : Nat} {first second : Operand}
    (hfirst : z.operandWord first z.calls.current.stack[0]? = some x)
    (hsecond : z.operandWord second z.calls.current.stack[if first.fromStack then 1 else 0]? = some y)
    (hnumbers : ∀ o ∈ [first, second], o.kind = .var → o.value ≤ 0xFF) :
    z.TakesWords (op.withTwo number first second) op x y := by
  refine ⟨rfl, hnumbers, [], rfl, fun j o ho => ?_⟩
  match j, ho with
  | 0, rfl => exact hfirst.symm
  | 1, rfl =>
    rw [← List.countP_singleton] at hsecond
    exact hsecond.symm

/-- -32768 from the stack divided by -1 is -32768, their product is out of range, and nothing can be
divided by 0.  A global that holds 0 is less than 0 once it has been decremented. -/
theorem signed_arithmetic_limits :
    let z := (Machine.start smallStory (Random.ofEntropy 1)).withStack [0x8000]
    let quotient := Op.div.withTwo 0x17 ⟨.var, 0⟩ ⟨.large, 0xFFFF⟩
    let product := Op.mul.withTwo 0x16 ⟨.var, 0⟩ ⟨.large, 0xFFFF⟩
    let square := Op.mul.withTwo 0x16 ⟨.small, 181⟩ ⟨.small, 181⟩
    let remainder := Op.mod.withTwo 0x18 ⟨.var, 0⟩ ⟨.small, 0⟩
    let count := Op.decChk.withTwo 0x04 ⟨.small, 16⟩ ⟨.small, 0⟩
    execute quotient z = storeResult quotient 0x8000 (z.taking quotient) ∧
    execute product z =
      .error (.instruction (.multiplicationOverflow (-32768) (-1))) (z.taking product) ∧
    execute square z = storeResult square 32761 (z.taking square) ∧
    execute remainder z = .error (.instruction .remainderByZero) (z.taking remainder) ∧
    execute count z = (do setInPlace 16 0xFFFF; branch count true) (z.taking count) := by
  intro z quotient product square remainder count
  obtain ⟨-, -, hproduct, -, hdivides, -⟩ := signed_arithmetic (x := 0x8000) (y := 0xFFFF) rfl rfl
  obtain ⟨-, hsquare, -⟩ := signed_arithmetic (x := 181) (y := 181) rfl rfl
  obtain ⟨-, -, -, hzero, -⟩ := signed_arithmetic (x := 0x8000) (y := 0) rfl rfl
  obtain ⟨-, -, -, -, -, -, -, hcounts⟩ := signed_arithmetic (x := 16) (y := 0) rfl rfl
  obtain ⟨q, r, hdiv, -, hq, -⟩ := hdivides (by decide)
  obtain ⟨p, hmul, hp⟩ := hsquare (by decide)
  obtain ⟨new, hnew, hcount⟩ := (hcounts (by decide)).2 z count 0
    (takesWords_withTwo rfl rfl (by decide)) (by decide +kernel)
  obtain rfl : q = 0x8000 := eq_ofInt_iff.2 hq
  obtain rfl : p = 32761 := (eq_ofInt_iff (i := 32761)).2 (by rw [← signed_emod, hp]; rfl)
  obtain rfl : new = 0xFFFF := eq_ofInt_iff.2 hnew
  exact ⟨(hdiv z quotient (takesWords_withTwo rfl rfl (by decide))).1,
    hproduct (by decide) z product (takesWords_withTwo rfl rfl (by decide)),
    (hmul z square (takesWords_withTwo rfl rfl (by decide))).1,
    (hzero rfl).2 z remainder (takesWords_withTwo rfl rfl (by decide)), hcount⟩

end Op

end ZCode
