/-
  The evaluation stack under an instruction.

  * `Machine.Receives` says which words the operands of an instruction are: those that come from the
    stack are its topmost entries, from left to right (`receives_of_operandValues`).
  * `Instruction.Acts` says what an opcode then does to the frame, its result apart.  A variable that an
    operand names is assigned in place (`Frame.assigned`), and for the result `Frame.stored` pushes.
  * `Machine.step_stack` puts this together for every step that stays in its frame.
-/
import ZCode.Proofs.Rereading

namespace ZCode

/-! ## Operands -/

/-- The value of a word as an opcode means it. -/
def Hint.value (hint : Hint) (raw : UInt16) : Int :=
  match hint with
  | .signed => ZCode.signed raw
  | .packed => 2 * raw.toNat
  | .reference | .plain | .address => raw.toNat

theorem Hint.value_zero (hint : Hint) : hint.value 0 = 0 := by
  cases hint <;> rfl

namespace Machine

variable {z w u : Machine} {i : Instruction} {answers : Answers}

/-- The machine with another stack. -/
def withStack (z : Machine) (stack : List UInt16) : Machine :=
  { z with calls := { z.calls with current := { z.calls.current with stack } } }

theorem withStack_stack (z : Machine) (stack : List UInt16) :
    (z.withStack stack).calls.current.stack = stack := rfl

/-- The word that an operand stands for, where `top` is the top of the stack. -/
def operandWord (z : Machine) (o : Operand) (top : Option UInt16) : Option UInt16 :=
  match o.kind with
  | .omitted => some 0
  | .large | .small => some o.value
  | .var =>
    if o.value.toUInt8 = 0 then top
    else if o.value.toUInt8 < 0x10 then z.calls.current.locals[o.value.toUInt8.toNat - 1]?
    else (z.story.readGlobal z.memory (globalOf o.value.toUInt8)).toOption

theorem meaning_value {hint : Hint} {raw : UInt16} {value : Int}
    (h : meaning hint raw z = .ok value u) :
    u = z ∧ value = hint.value raw ∧ (hint = .reference → raw ≤ 0xFF) := by
  cases hint with
  | signed | packed | plain | address =>
    cases h
    exact ⟨rfl, rfl, nofun⟩
  | reference =>
    unfold meaning at h
    dsimp only at h
    split at h
    · cases h
    · cases h
      exact ⟨rfl, rfl, fun _ => UInt16.not_lt.1 ‹_›⟩

/-- The value of a variable other than the stack. -/
theorem readVariable_word {n : UInt8} {raw : UInt16} (hn : n ≠ 0)
    (h : readVariable n z = .ok raw u) : u = z ∧
      (if n < 0x10 then z.calls.current.locals[n.toNat - 1]?
        else (z.story.readGlobal z.memory (globalOf n)).toOption) = some raw := by
  unfold readVariable at h
  rw [if_neg hn] at h
  split at h
  · rename_i hlocal
    obtain ⟨hget, rfl⟩ := eq_of_look h
    unfold Frame.getLocal at hget
    obtain ⟨_, hcheck, hraw⟩ := bind_eq_ok_iff.1 hget
    obtain ⟨hpos, -, hle⟩ := checkLocal_ok hcheck
    have hlt : n.toNat - 1 < u.calls.current.locals.length := by omega
    rw [if_pos hlocal, List.getElem?_eq_getElem hlt]
    rw [List.getD_eq_getElem?_getD, List.getElem?_eq_getElem hlt] at hraw
    exact ⟨rfl, congrArg some (Except.ok.inj hraw)⟩
  · rename_i hglobal
    obtain ⟨hget, rfl⟩ := eq_of_look h
    rw [if_neg hglobal, hget]
    exact ⟨rfl, rfl⟩

theorem readVariable_stack {raw : UInt16} (h : readVariable 0 z = .ok raw u) :
    z.calls.current.stack.head? = some raw ∧ u = z.withStack (z.calls.current.stack.drop 1) := by
  unfold readVariable at h
  rw [if_pos rfl] at h
  unfold onFrame Frame.pop at h
  cases hstack : z.calls.current.stack with
  | nil =>
    rw [hstack] at h
    cases h
  | cons top rest =>
    rw [hstack] at h
    cases h
    exact ⟨rfl, rfl⟩

/-- An operand receives the word it stands for, and leaves the machine but for the entry it took. -/
theorem operandValue_word {o : Operand} {hint : Hint} {value : Int}
    (h : operandValue o hint z = .ok value u) :
    ∃ raw, value = hint.value raw ∧ (hint = .reference → raw ≤ 0xFF) ∧
      z.operandWord o z.calls.current.stack[0]? = some raw ∧
      u = z.withStack (z.calls.current.stack.drop (if o.fromStack then 1 else 0)) := by
  obtain ⟨kind, number⟩ := o
  cases kind with
  | omitted =>
    cases h
    exact ⟨0, hint.value_zero.symm, fun _ => by decide, rfl, rfl⟩
  | large | small =>
    obtain ⟨rfl, hvalue, hrange⟩ := meaning_value h
    exact ⟨number, hvalue, hrange, rfl, rfl⟩
  | var =>
    dsimp only [operandValue] at h
    rw [if_neg (by decide), if_pos rfl] at h
    split at h
    · cases h
    rename_i hsmall
    obtain ⟨raw, t, hread, hmeaning⟩ := ok_of_bind h
    obtain ⟨rfl, hvalue, hrange⟩ := meaning_value hmeaning
    refine ⟨raw, hvalue, hrange, ?_⟩
    unfold operandWord Operand.fromStack
    dsimp only
    by_cases hnumber : number = 0
    · subst hnumber
      obtain ⟨htop, rfl⟩ := readVariable_stack hread
      exact ⟨by rw [← List.head?_eq_getElem?, htop]; rfl, rfl⟩
    · have hne : number.toUInt8 ≠ 0 := fun h => hnumber ((toUInt8_eq_zero_iff hsmall).1 h)
      obtain ⟨rfl, hword⟩ := readVariable_word hne hread
      refine ⟨by rw [if_neg hne, hword], ?_⟩
      simp [hnumber]
      rfl

/-- The words that operands receive: those from the stack are its topmost entries, in order. -/
structure Receives (z : Machine) (operands : List Operand) (raws : List UInt16) : Prop where
  length : raws.length = operands.length
  word : ∀ (j : Nat) (o : Operand), operands[j]? = some o → raws[j]? =
    z.operandWord o z.calls.current.stack[(operands.take j).countP Operand.fromStack]?

/-- Operands take their words from left to right. -/
theorem receives_of_operandValues {op : Op} {operands : List Operand} {n : Nat} {args : List Int}
    (h : operandValues op n operands z = .ok args u) :
    ∃ raws, z.Receives operands raws ∧
      args = raws.mapIdx (fun j raw => (op.hint (n + j)).value raw) ∧
      (∀ j raw, raws[j]? = some raw → op.hint (n + j) = .reference → raw ≤ 0xFF) ∧
      u = z.withStack (z.calls.current.stack.drop (operands.countP Operand.fromStack)) := by
  induction operands generalizing n args z with
  | nil =>
    cases h
    exact ⟨[], ⟨rfl, nofun⟩, rfl, nofun, rfl⟩
  | cons o operands ih =>
    obtain ⟨value, t, hvalue, htail⟩ := ok_of_bind h
    obtain ⟨values, t', hrest, hargs⟩ := ok_of_bind htail
    cases hargs
    obtain ⟨raw, rfl, hrange, hword, rfl⟩ := operandValue_word hvalue
    obtain ⟨raws, hreceives, rfl, hranges, rfl⟩ := ih hrest
    refine ⟨raw :: raws, ⟨?_, ?_⟩, ?_, ?_, ?_⟩
    · rw [List.length_cons, List.length_cons, hreceives.length]
    · intro j o' ho'
      cases j with
      | zero =>
        cases ho'
        exact hword.symm
      | succ j =>
        refine (hreceives.word j o' ho').trans ?_
        show z.operandWord o' ((z.calls.current.stack.drop _)[_]?) = _
        rw [List.getElem?_drop, List.take_succ_cons, List.countP_cons, Nat.add_comm]
    · rw [List.mapIdx_cons]
      simp only [Nat.add_assoc, Nat.add_comm 1]
      rfl
    · intro j raw' hraw' href
      cases j with
      | zero =>
        cases hraw'
        exact hrange href
      | succ j => exact hranges j raw' hraw' (by rwa [Nat.add_assoc, Nat.add_comm 1])
    · show withStack _ ((z.calls.current.stack.drop _).drop _) = _
      rw [List.drop_drop, List.countP_cons, Nat.add_comm]
      rfl

end Machine

/-! ## Variables of a frame -/

namespace Frame

/-- The frame with a value in the place of a variable that is named: the top of the stack, or a local.
Globals are not in the frame. -/
def assigned (f : Frame) (v : UInt8) (value : UInt16) : Frame :=
  if v = 0 then { f with stack := value :: f.stack.tail }
  else if v < 0x10 then { f with locals := f.locals.set (v.toNat - 1) value }
  else f

/-- The frame with a result: variable 0 is pushed. -/
def stored (f : Frame) (v : UInt8) (value : UInt16) : Frame :=
  if v = 0 then { f with stack := value :: f.stack } else f.assigned v value

theorem assigned_stack (f : Frame) (v : UInt8) (value : UInt16) :
    (f.assigned v value).stack = if v = 0 then value :: f.stack.tail else f.stack := by
  unfold assigned
  split
  · rfl
  · split <;> rfl

theorem length_assigned {f : Frame} {v : UInt8} (h : v = 0 → f.stack ≠ []) (value : UInt16) :
    (f.assigned v value).stack.length = f.stack.length := by
  rw [assigned_stack]
  split
  · rename_i h0
    have := List.length_pos_iff.2 (h h0)
    rw [List.length_cons, List.length_tail]
    omega
  · rfl

/-- Below the top, an assignment leaves the stack alone. -/
theorem drop_assigned (f : Frame) (v : UInt8) (value : UInt16) :
    f.stack.drop (if v = 0 then 1 else 0) <:+ (f.assigned v value).stack := by
  rw [assigned_stack]
  split
  · rw [List.drop_one]
    exact List.suffix_cons _ _
  · exact List.drop_suffix _ _

theorem assigned_local {f : Frame} {v : UInt8} {j : Nat} (h : v.toNat ≠ j + 1) (value : UInt16) :
    (f.assigned v value).locals[j]? = f.locals[j]? := by
  unfold assigned
  split
  · rfl
  rename_i h0
  split
  · have hpos : v.toNat ≠ 0 := fun h => h0 (UInt8.toNat_inj.1 h)
    exact List.getElem?_set_ne (by omega)
  · rfl

theorem stored_stack (f : Frame) (v : UInt8) (value : UInt16) :
    (f.stored v value).stack = if v = 0 then value :: f.stack else f.stack := by
  unfold stored
  split
  · rfl
  · rename_i h0
    rw [assigned_stack, if_neg h0]

theorem stored_local {f : Frame} {v : UInt8} {j : Nat} (h : v.toNat ≠ j + 1) (value : UInt16) :
    (f.stored v value).locals[j]? = f.locals[j]? := by
  unfold stored
  split
  · rfl
  · exact assigned_local h value

end Frame

namespace Machine

variable {α : Type} {z w u : Machine} {i : Instruction} {answers : Answers} {v : UInt8}
  {value : UInt16}

/-- The call stack with another current frame. -/
def framed (z : Machine) (f : Frame) : CallStack := { z.calls with current := f }

theorem calls_of_setVariable (h : setVariable v value z = .ok () w) :
    w.calls = z.framed (z.calls.current.stored v value) := by
  unfold setVariable at h
  unfold Frame.stored Frame.assigned
  split at h
  · rename_i h0
    obtain ⟨f, hpush, rfl⟩ := setFrame_ok h
    unfold Frame.push at hpush
    split at hpush
    · cases hpush
    · cases hpush
      rw [if_pos h0]
      rfl
  rename_i h0
  rw [if_neg h0, if_neg h0]
  split at h
  · rename_i hlocal
    obtain ⟨f, hset, rfl⟩ := setFrame_ok h
    obtain ⟨_, -, hf⟩ := bind_eq_ok_iff.1 hset
    cases hf
    rw [if_pos hlocal, Frame.putLocal_eq]
    rfl
  · rename_i hglobal
    have honly := onlyMemory_edit (·.writeGlobal (globalOf v) value) z
    rw [h] at honly
    rw [if_neg hglobal, show w = _ from honly]
    rfl

theorem calls_of_setInPlace (h : setInPlace v value z = .ok () w) :
    (v = 0 → z.calls.current.stack ≠ []) ∧
      w.calls = z.framed (z.calls.current.assigned v value) := by
  unfold setInPlace at h
  split at h
  · rename_i h0
    obtain ⟨f, hset, rfl⟩ := setFrame_ok h
    unfold Frame.setTop at hset
    split at hset
    · cases hset
    · rename_i top rest hstack
      cases hset
      refine ⟨fun _ => by rw [hstack]; exact List.cons_ne_nil _ _, ?_⟩
      unfold Frame.assigned
      rw [if_pos h0, hstack]
      rfl
  · rename_i h0
    refine ⟨fun h => absurd h h0, ?_⟩
    rw [calls_of_setVariable h, Frame.stored, if_neg h0]

theorem readInPlace_ok (h : readInPlace v z = .ok value w) :
    w = z ∧ (v = 0 → z.calls.current.stack.head? = some value) := by
  unfold readInPlace at h
  split at h
  · obtain ⟨hpeek, rfl⟩ := eq_of_look h
    refine ⟨rfl, fun _ => ?_⟩
    unfold Frame.peek at hpeek
    split at hpeek
    · cases hpeek
    · rename_i top rest hstack
      cases hpeek
      rw [hstack]
      rfl
  · rename_i h0
    exact ⟨(readVariable_word h0 h).1, fun h => absurd h h0⟩

theorem addToVariable_ok {delta : Int} (h : addToVariable v delta z = .ok value w) :
    ∃ old, (v = 0 → z.calls.current.stack.head? = some old) ∧
      value = UInt16.ofInt (old.toNat + delta) ∧
      w.calls = z.framed (z.calls.current.assigned v value) := by
  obtain ⟨old, t, hread, hrest⟩ := ok_of_bind h
  obtain ⟨rfl, htop⟩ := readInPlace_ok hread
  obtain ⟨_, t', hset, hpure⟩ := ok_of_bind hrest
  cases hpure
  exact ⟨old, htop, rfl, (calls_of_setInPlace hset).2⟩

/-! ## Actions that leave the frames alone -/

/-- The machines have the same frames. -/
def SameCalls (z w : Machine) : Prop := w.calls = z.calls

instance : IsPreorder Machine SameCalls where
  refl _ := rfl
  trans _ _ _ h h' := Eq.trans h' h

theorem sameCalls_edit (e : Story → Edit α) : Within SameCalls (edit e) := by
  intro z
  have honly := onlyMemory_edit e z
  show (reached (edit e z)).calls = _
  rw [show reached (edit e z) = _ from honly]

theorem sameCalls_modify {g : Machine → Machine} (h : ∀ z, (g z).calls = z.calls) :
    Within SameCalls (modify g : Run PUnit) := h

theorem sameCalls_printToTable (text : List Char) : Within SameCalls (printToTable text) := by
  induction text with
  | nil => exact .pure _
  | cons c text ih =>
    refine .bind_get fun z => ?_
    cases z.streams.tables with
    | nil => rfl
    | cons t outer =>
      refine reached_bind (sameCalls_edit _ z) fun _ w _ => ?_
      refine Within.bind (sameCalls_modify ?_) (fun _ => ih) w
      exact fun _ => rfl

theorem sameCalls_print (text : List Char) : Within SameCalls (print text) := by
  refine .bind_get fun z => ?_
  show SameCalls z (reached ((if z.streams.tables.isEmpty then _ else _ : Run Unit) z))
  split
  · split <;> rfl
  · exact sameCalls_printToTable text z

theorem sameCalls_showStatus : Within SameCalls showStatus :=
  (within_look _).bind fun _ => sameCalls_modify fun _ => rfl

theorem sameCalls_selectTable (table : Address) : Within SameCalls (selectTable table) := by
  refine .bind_get fun z => ?_
  by_cases h : Streams.maxTables ≤ z.streams.tables.length
  · simp only [h, if_true]
    rfl
  · simp only [h, if_false]
    rfl

theorem sameCalls_deselectTable : Within SameCalls deselectTable := by
  refine .bind_get fun z => ?_
  cases z.streams.tables with
  | nil => rfl
  | cons t outer =>
    refine reached_bind (x := modify _) ?_ fun _ w _ => sameCalls_edit _ w
    rfl

theorem sameCalls_outputStream (number : Int) (table : Option Int) :
    Within SameCalls (outputStream number table) := by
  unfold outputStream
  split
  · exact .pure _
  split
  · exact sameCalls_modify fun _ => rfl
  split
  · exact sameCalls_edit _
  split
  · split
    · exact .throw _
    · exact sameCalls_selectTable _
  split
  · exact sameCalls_deselectTable
  split
  · exact sameCalls_modify fun _ => rfl
  · exact .throw _

theorem Resumed.sameCalls {r : PendingRead} (h : Resumed r z w) : SameCalls z w := by
  cases h <;> rfl

theorem sameCalls_beginRead (r : PendingRead) : Within SameCalls (beginRead r) := by
  refine sameCalls_showStatus.bind fun _ => Within.bind (sameCalls_modify ?_) fun _ =>
    Within.bind (sameCalls_modify ?_) fun _ => fun z => (resumed_resumeRead r z).sameCalls
  · exact fun _ => rfl
  · exact fun _ => rfl

theorem calls_of_within {act : Run α} (h : Within SameCalls act) {a : α} (hact : act z = .ok a w) :
    w.calls = z.calls := by
  have hsame := h z
  rwa [hact] at hsame

end Machine

/-! ## What opcodes do to the frame -/

/-- The opcodes whose first operand names a variable. -/
def Op.naming : List Op := [.store, .inc, .dec, .incChk, .decChk, .load, .pull]

/-- The opcodes that change the frame, apart from taking operands and storing a result. -/
def Op.framing : List Op := [.push, .pop, .pull, .store, .inc, .dec, .incChk, .decChk]

/-- The opcodes that leave the frame alone once they have their operands. -/
def Op.Quiet (op : Op) : Prop :=
  op ∉ Op.framing ∧ op ≠ .retPopped ∧ (op.info.stores = false ∨ op = .call)

instance : DecidablePred Op.Quiet := fun _ => inferInstanceAs (Decidable (_ ∧ _ ∧ _))

namespace Instruction

variable {i : Instruction} {raws : List UInt16} {f g : Frame}

/-- The variable that the first operand names. -/
def target (raws : List UInt16) : UInt8 := (raws.getD 0 0).toUInt8

/-- What an opcode does to a frame whose operands are these words, apart from storing its result.
Variable 0 is assigned in place. -/
inductive Acts (i : Instruction) (raws : List UInt16) (f : Frame) : Frame → Prop
  | push : i.op = .push → Acts i raws f { f with stack := raws.getD 0 0 :: f.stack }
  | pop {top : UInt16} {rest : List UInt16} : i.op = .pop → f.stack = top :: rest →
      Acts i raws f { f with stack := rest }
  | pull {top : UInt16} {rest : List UInt16} : i.op = .pull → f.stack = top :: rest →
      (target raws = 0 → rest ≠ []) →
      Acts i raws f ({ f with stack := rest }.assigned (target raws) top)
  | store : i.op = .store → (target raws = 0 → f.stack ≠ []) →
      Acts i raws f (f.assigned (target raws) (raws.getD 1 0))
  | inc {old : UInt16} : i.op = .inc ∨ i.op = .incChk →
      (target raws = 0 → f.stack.head? = some old) →
      Acts i raws f (f.assigned (target raws) (old + 1))
  | dec {old : UInt16} : i.op = .dec ∨ i.op = .decChk →
      (target raws = 0 → f.stack.head? = some old) →
      Acts i raws f (f.assigned (target raws) (old - 1))
  | other : i.op ∉ Op.framing → Acts i raws f f

/-- The number of operands that are taken from the stack. -/
def taken (i : Instruction) : Nat := i.operands.countP Operand.fromStack

/-- The number of entries that the opcode pops or names, counted from the top. -/
def touched (i : Instruction) (raws : List UInt16) : Nat :=
  (if i.op = .pop ∨ i.op = .pull then 1 else 0) + if i.op ∈ Op.naming ∧ target raws = 0 then 1 else 0

theorem Acts.length (h : i.Acts raws f g) :
    g.stack.length + (if i.op = .pop ∨ i.op = .pull then 1 else 0) =
      f.stack.length + if i.op = .push then 1 else 0 := by
  cases h with
  | push hop => simp [hop]
  | pop hop hstack => simp [hop, hstack]
  | pull hop hstack htop =>
    rw [Frame.length_assigned htop]
    simp [hop, hstack]
  | store hop htop =>
    rw [Frame.length_assigned htop]
    simp [hop]
  | inc hop htop | dec hop htop =>
    rw [Frame.length_assigned fun h0 hnil => by simp [hnil] at htop; exact htop h0]
    rcases hop with hop | hop <;> simp [hop]
  | other hop =>
    simp only [Op.framing, List.mem_cons, not_or] at hop
    simp [hop]

/-- Below the entries that it pops or names, an opcode leaves the stack alone. -/
theorem Acts.deeper (h : i.Acts raws f g) : f.stack.drop (i.touched raws) <:+ g.stack := by
  cases h with
  | push hop => exact (List.drop_suffix _ _).trans (List.suffix_cons _ _)
  | pop hop hstack =>
    have htouched : i.touched raws = 1 := by simp [touched, hop, Op.naming]
    rw [htouched, hstack]
    exact List.suffix_refl _
  | pull hop hstack htop =>
    have htouched : i.touched raws = (if target raws = 0 then 1 else 0) + 1 := by
      simp [touched, hop, Op.naming, Nat.add_comm]
    rw [htouched, hstack, List.drop_succ_cons]
    exact Frame.drop_assigned { f with stack := _ } _ _
  | store hop htop =>
    have htouched : i.touched raws = if target raws = 0 then 1 else 0 := by
      simp [touched, hop, Op.naming]
    rw [htouched]
    exact Frame.drop_assigned f _ _
  | inc hop htop | dec hop htop =>
    have htouched : i.touched raws = if target raws = 0 then 1 else 0 := by
      rcases hop with hop | hop <;> simp [touched, hop, Op.naming]
    rw [htouched]
    exact Frame.drop_assigned f _ _
  | other hop => exact List.drop_suffix _ _

/-- The locals that an opcode does not name stay as they are. -/
theorem Acts.locals {j : Nat} (h : i.Acts raws f g)
    (hj : i.op ∈ Op.naming → (target raws).toNat ≠ j + 1) : g.locals[j]? = f.locals[j]? := by
  cases h with
  | push | pop | other => rfl
  | pull hop | store hop =>
    exact Frame.assigned_local (hj (by rw [hop]; decide)) _
  | inc hop | dec hop =>
    exact Frame.assigned_local (hj (by rcases hop with hop | hop <;> rw [hop] <;> decide)) _

end Instruction

namespace Machine

open Instruction

variable {z w u : Machine} {i : Instruction} {args : List Int} {raws : List UInt16}
  {action : Action}

/-- The opcode has acted on the frame.  A call stores its result later. -/
def Acted (i : Instruction) (raws : List UInt16) (z w : Machine) : Prop :=
  ∃ g result, i.Acts raws z.calls.current g ∧
    (i.op = .load → target raws = 0 → z.calls.current.stack.head? = some result) ∧
    w.calls = z.framed (if i.op.info.stores ∧ i.op ≠ .call then g.stored i.storeTo result else g)

theorem setVariable_of_stored {v : UInt8} {value : UInt16} {next : Action}
    (h : (do setVariable v value; return next : Run Action) z = .ok action w) :
    setVariable v value z = .ok () w := by
  obtain ⟨_, t, hset, hpure⟩ := ok_of_bind h
  cases hpure
  exact hset

theorem getD_mapIdx_value (op : Op) (raws : List UInt16) (j : Nat) :
    (raws.mapIdx fun j raw => (op.hint j).value raw).getD j 0 = (op.hint j).value (raws.getD j 0) := by
  rw [List.getD_eq_getElem?_getD, List.getElem?_mapIdx, List.getD_eq_getElem?_getD]
  cases raws[j]? with
  | none => exact (Hint.value_zero _).symm
  | some raw => rfl

theorem ofInt_target (raw : UInt16) : UInt8.ofInt (raw.toNat : Int) = raw.toUInt8 := by
  have hlt := raw.toNat_lt
  have hmod : ((raw.toNat : Int) % 2 ^ 8).toNat = raw.toNat % 256 := by omega
  apply UInt8.toNat_inj.1
  rw [UInt8.ofInt, hmod, UInt8.toNat_ofNat', UInt16.toNat_toUInt8]
  omega

theorem ofInt_succ (old : UInt16) : UInt16.ofInt ((old.toNat : Int) + 1) = old + 1 := by
  have hlt := old.toNat_lt
  have hmod : (((old.toNat : Int) + 1) % 2 ^ 16).toNat = (old.toNat + 1) % 65536 := by omega
  apply UInt16.toNat_inj.1
  rw [UInt16.ofInt, hmod, UInt16.toNat_ofNat', UInt16.toNat_add]
  simp

theorem ofInt_pred (old : UInt16) : UInt16.ofInt ((old.toNat : Int) + -1) = old - 1 := by
  have hlt := old.toNat_lt
  have hmod : (((old.toNat : Int) + -1) % 2 ^ 16).toNat = (65535 + old.toNat) % 65536 := by omega
  apply UInt16.toNat_inj.1
  rw [UInt16.ofInt, hmod, UInt16.toNat_ofNat', UInt16.toNat_sub]
  simp

/-- Only the pieces that work on the frame change it. -/
theorem Primitive.sameCalls {α : Type} {parts : List Part} {x y : Run α} (h : Primitive parts α x y)
    (hframe : .frame ∉ parts) : Within SameCalls y := by
  cases h with
  | look => exact within_look _
  | frame hmem => exact absurd hmem hframe
  | edit => exact sameCalls_edit _
  | print text => exact sameCalls_print text
  | outputStream number table => exact sameCalls_outputStream number table
  | draw | send | log => exact fun _ => rfl

theorem frame_not_mem_parts {op : Op} (h : op.Quiet) : .frame ∉ op.parts := by
  revert h
  cases op <;> decide

theorem sameCalls_performOn (hquiet : i.op.Quiet) (args : List Int) (a b c : Int) :
    Within SameCalls (performOn i args a b c) :=
  (composed_opcode i args a b c).lift (closed_within SameCalls) fun hpiece =>
    hpiece.sameCalls (frame_not_mem_parts hquiet)

/-- An opcode with a result stores it and does nothing else to the frame. -/
theorem result_of_performOn {a b c : Int} (hstores : i.op.info.stores = true) (hcall : i.op ≠ .call)
    (h : performOn i args a b c z = .ok action w) :
    ∃ v u, u.calls = z.calls ∧ setVariable i.storeTo v u = .ok () w ∧
      (i.op = .load → UInt8.ofInt a = 0 → z.calls.current.stack.head? = some v) := by
  unfold performOn at h
  cases hop : i.op with
  | bitOr | bitAnd | bitNot | add | sub =>
    simp only [hop] at h
    exact ⟨_, z, rfl, setVariable_of_stored h, nofun⟩
  | mul | div | mod =>
    simp only [hop] at h
    split at h
    · cases h
    · exact ⟨_, z, rfl, setVariable_of_stored h, nofun⟩
  | random =>
    simp only [hop] at h
    have hset : storeResult i _ { z with random := (z.random.draw (Int64.ofInt a)).2 } = _ := h
    refine ⟨_, _, ?_, setVariable_of_stored hset, nofun⟩
    rfl
  | load =>
    simp only [hop] at h
    obtain ⟨v, t, hread, hset⟩ := ok_of_bind h
    obtain ⟨rfl, htop⟩ := readInPlace_ok hread
    exact ⟨v, t, rfl, setVariable_of_stored hset, fun _ => htop⟩
  | loadw | loadb | getParent | getProp | getPropAddr | getNextProp | getPropLen | getSibling
  | getChild =>
    simp only [hop] at h
    obtain ⟨v, t, hlook, hset⟩ := ok_of_bind h
    obtain ⟨-, rfl⟩ := eq_of_look hlook
    exact ⟨_, _, rfl, setVariable_of_stored hset, nofun⟩
  | call => exact absurd hop hcall
  | _ =>
    rw [hop] at hstores
    exact absurd hstores (by decide)

theorem pop_ok {v : UInt16} (h : onFrame Frame.pop z = .ok v w) :
    ∃ rest, z.calls.current.stack = v :: rest ∧ w = z.withStack rest := by
  obtain ⟨hhead, rfl⟩ := readVariable_stack h
  obtain ⟨rest, hrest⟩ := List.head?_eq_some_iff.1 hhead
  exact ⟨rest, hrest, by rw [hrest]; rfl⟩

/-- The opcodes that change the frame by themselves. -/
theorem acts_of_performOn {a b c : Int} (hframing : i.op ∈ Op.framing)
    (ha : i.op.hint 0 = .reference → UInt8.ofInt a = target raws)
    (hwa : i.op.hint 0 = .plain → UInt16.ofInt a = raws.getD 0 0)
    (hwb : i.op.hint 1 = .plain → UInt16.ofInt b = raws.getD 1 0)
    (h : performOn i args a b c z = .ok action w) :
    ∃ g, i.Acts raws z.calls.current g ∧ w.calls = z.framed g := by
  unfold performOn at h
  cases hop : i.op with
  | push =>
    simp only [hop] at h hwa
    obtain ⟨_, t, hset, hpure⟩ := ok_of_bind h
    cases hpure
    obtain ⟨f, hpush, rfl⟩ := setFrame_ok hset
    unfold Frame.push at hpush
    split at hpush
    · cases hpush
    · cases hpush
      rw [hwa rfl]
      exact ⟨_, .push hop, rfl⟩
  | pop =>
    simp only [hop] at h
    obtain ⟨v, t, hpop, hpure⟩ := ok_of_bind h
    cases hpure
    obtain ⟨rest, hstack, rfl⟩ := pop_ok hpop
    exact ⟨_, .pop hop hstack, rfl⟩
  | pull =>
    simp only [hop] at h ha
    obtain ⟨v, t, hpop, hrest⟩ := ok_of_bind h
    obtain ⟨rest, hstack, rfl⟩ := pop_ok hpop
    obtain ⟨_, t, hset, hpure⟩ := ok_of_bind hrest
    cases hpure
    rw [ha rfl] at hset
    obtain ⟨htop, hcalls⟩ := calls_of_setInPlace hset
    exact ⟨_, .pull hop hstack htop, hcalls⟩
  | store =>
    simp only [hop] at h ha hwb
    obtain ⟨_, t, hset, hpure⟩ := ok_of_bind h
    cases hpure
    rw [ha rfl, hwb rfl] at hset
    obtain ⟨htop, hcalls⟩ := calls_of_setInPlace hset
    exact ⟨_, .store hop htop, hcalls⟩
  | inc | incChk =>
    simp only [hop] at h ha
    obtain ⟨_, t, hadd, hpure⟩ := ok_of_bind h
    cases hpure
    rw [ha rfl] at hadd
    obtain ⟨old, htop, rfl, hcalls⟩ := addToVariable_ok hadd
    rw [ofInt_succ] at hcalls
    exact ⟨_, .inc (by simp [hop]) htop, hcalls⟩
  | dec | decChk =>
    simp only [hop] at h ha
    obtain ⟨_, t, hadd, hpure⟩ := ok_of_bind h
    cases hpure
    rw [ha rfl] at hadd
    obtain ⟨old, htop, rfl, hcalls⟩ := addToVariable_ok hadd
    rw [ofInt_pred] at hcalls
    exact ⟨_, .dec (by simp [hop]) htop, hcalls⟩
  | _ =>
    rw [hop] at hframing
    exact absurd hframing (by decide)

/-- **What every opcode does to the frame**, if it neither fails nor returns. -/
theorem Acted.of_perform (hargs : args = raws.mapIdx fun j raw => (i.op.hint j).value raw)
    (hret : i.op ≠ .retPopped) (h : perform i args z = .ok action w) : Acted i raws z w := by
  have hvalue (j : Nat) : args.getD j 0 = (i.op.hint j).value (raws.getD j 0) := by
    rw [hargs, getD_mapIdx_value]
  have htarget (hhint : i.op.hint 0 = .reference) : UInt8.ofInt (args.getD 0 0) = target raws := by
    rw [hvalue, hhint]
    exact ofInt_target _
  have hplain (j : Nat) (hhint : i.op.hint j = .plain) :
      UInt16.ofInt (args.getD j 0) = raws.getD j 0 := by
    rw [hvalue, hhint]
    exact ofInt_toNat _
  by_cases hframing : i.op ∈ Op.framing
  · have hno : ∀ op ∈ Op.framing, op.info.stores = false ∧ op ≠ .load := by decide
    obtain ⟨g, hacts, hw⟩ := acts_of_performOn hframing htarget (hplain 0) (hplain 1) h
    refine ⟨g, 0, hacts, fun hload => absurd hload (hno _ hframing).2, ?_⟩
    rw [if_neg (by simp [(hno _ hframing).1]), hw]
  by_cases hstores : i.op.info.stores = true ∧ i.op ≠ .call
  · obtain ⟨v, u, hu, hset, hload⟩ := result_of_performOn hstores.1 hstores.2 h
    refine ⟨_, v, .other hframing, ?_, ?_⟩
    · intro hop
      rw [← htarget (by rw [hop]; rfl)]
      exact hload hop
    · rw [if_pos hstores, calls_of_setVariable hset]
      unfold framed
      rw [hu]
  · have hquiet : i.op.Quiet := ⟨hframing, hret, by simpa [imp_iff_or_not, or_comm] using hstores⟩
    refine ⟨_, 0, .other hframing, ?_, ?_⟩
    · intro hop
      rw [hop] at hstores
      exact absurd (by decide) hstores
    · rw [if_neg hstores]
      exact calls_of_within (sameCalls_performOn hquiet args _ _ _) h

/-! ## Steps that stay in their frame -/

/-- Going on without losing a frame is not a return. -/
theorem follow_stays {flow : Flow} (h : follow flow z = .ok () w)
    (hdepth : w.calls.depth = z.calls.depth) : w.calls = z.calls ∧ ∀ value, flow ≠ .ret value := by
  cases flow with
  | next a | jump base offset =>
    cases h
    exact ⟨rfl, nofun⟩
  | ret value =>
    have hleave : leave value z = .ok () w := h
    cases hcallers : z.calls.callers with
    | nil =>
      rw [leave_main hcallers] at hleave
      cases hleave
    | cons caller rest =>
      have hmoves := moves_leave hcallers value
      rw [hleave] at hmoves
      have hless := hmoves.depth
      simp only [reached_ok, left, CallStack.depth, hcallers, List.length_cons] at hless hdepth
      omega

/-- A call that enters no frame gives 0. -/
theorem enter_stays {c : Call} (h : enter c z = .ok () w) (hdepth : w.calls.depth = z.calls.depth) :
    w.calls = z.framed (z.calls.current.stored c.storeTo 0) := by
  by_cases h0 : c.routine = 0
  · unfold enter at h
    rw [if_pos h0] at h
    obtain ⟨_, t, hpc, hset⟩ := ok_of_bind h
    cases hpc
    have hcalls := calls_of_setVariable hset
    exact hcalls
  rcases enter_cases h0 z with ⟨fault, he⟩ | ⟨n, locals, -, -, -, he⟩
  · rw [h] at he
    cases he
  · rw [h] at he
    cases he
    simp [entered, CallStack.depth] at hdepth

/-- A step that stays in its frame leaves it as its instruction did, but for a call, which gives 0. -/
theorem action_stays (hi : z.Next i) (he : execute i (z.fetched z.pc i) = .ok action u)
    (hstep : step answers z = .ok () w) (hrestore : ∀ d, ¬ RestoresInStep answers z d)
    (hdepth : w.calls.depth = u.calls.depth) :
    (∃ c, action = .call c ∧ w.calls = u.framed (u.calls.current.stored i.storeTo 0)) ∨
      (∀ c, action ≠ .call c) ∧ (∀ value, action ≠ .flow (.ret value)) ∧ w.calls = u.calls := by
  cases action with
  | flow flow =>
    rw [step_of_plain hi he rfl] at hstep
    obtain ⟨hcalls, hret⟩ := follow_stays (ok_of_orHalt (ok_of_located hstep)) hdepth
    exact .inr ⟨nofun, fun value h => hret value (Action.flow.inj h), hcalls⟩
  | call c =>
    obtain ⟨-, hstore⟩ := op_of_execute he
    rw [step_of_plain hi he rfl] at hstep
    rw [← hstore]
    exact .inl ⟨c, rfl, enter_stays (ok_of_orHalt (ok_of_located hstep)) hdepth⟩
  | read r =>
    rw [step_of_plain hi he rfl] at hstep
    have hcalls := calls_of_within (sameCalls_beginRead r) (ok_of_orHalt (ok_of_located hstep))
    exact .inr ⟨nofun, nofun, hcalls⟩
  | quit | restart =>
    have hadvance := advance_of_execute hi he
    unfold step at hstep
    rw [bind_error hadvance] at hstep
    cases hstep
  | save j =>
    obtain ⟨rfl, hop⟩ := op_of_execute he
    have hu : u = z.fetched z.pc j := by
      have hadvance := (advance_of_execute hi he).symm.trans (advance_save hi hop)
      cases hadvance
      rfl
    subst hu
    refine .inr ⟨nofun, nofun, ?_⟩
    cases ha : answers.save with
    | ok =>
      rw [step_save hi hop ha] at hstep
      exact (follow_stays (ok_of_orHalt (ok_of_located hstep)) hdepth).1
    | error cause =>
      rw [step_unsaved hi hop ha] at hstep
      exact (follow_stays (ok_of_orHalt (ok_of_located hstep)) hdepth).1
  | restore j =>
    obtain ⟨rfl, hop⟩ := op_of_execute he
    have hu : u = z.fetched z.pc j := by
      have hadvance := (advance_of_execute hi he).symm.trans (advance_restore hi hop)
      cases hadvance
      rfl
    subst hu
    refine .inr ⟨nofun, nofun, ?_⟩
    cases ha : restoreAnswer answers.restore (z.fetched z.pc j) with
    | ok x =>
      obtain ⟨d, hd, hx, -⟩ := restoreAnswer_ok ha
      exact absurd ⟨j, _, advance_restore hi hop, hd, hx⟩ (hrestore d)
    | error cause =>
      rw [step_unrestored hi hop ha] at hstep
      exact (follow_stays (ok_of_orHalt (ok_of_located hstep)) hdepth).1

/-- What an instruction does to the frame once its operands are off the stack. -/
def Ran (z : Machine) (i : Instruction) (raws : List UInt16) (w : Machine) : Prop :=
  ∃ g result, i.Acts raws (z.withStack (z.calls.current.stack.drop i.taken)).calls.current g ∧
    (i.op = .load → target raws = 0 → (z.calls.current.stack.drop i.taken).head? = some result) ∧
    w.calls = z.framed (if i.op.info.stores then g.stored i.storeTo result else g)

theorem perform_retPopped (hop : i.op = .retPopped) (h : perform i args z = .ok action w) :
    ∃ value, action = .flow (.ret value) := by
  unfold perform performOn at h
  simp only [hop] at h
  obtain ⟨value, t, -, hpure⟩ := ok_of_bind h
  cases hpure
  exact ⟨value, rfl⟩

theorem perform_call (hop : i.op = .call) (h : perform i args z = .ok action w) :
    ∃ c, action = .call c := by
  unfold perform performOn at h
  simp only [hop] at h
  cases h
  exact ⟨_, rfl⟩

theorem ran_of_step (hi : z.Next i) {v : Machine}
    (hargs : operandValues i.op 0 i.operands (z.fetched z.pc i) =
      .ok (raws.mapIdx fun j raw => (i.op.hint j).value raw) u)
    (hu : u = (z.fetched z.pc i).withStack (z.calls.current.stack.drop i.taken))
    (hperform : perform i (raws.mapIdx fun j raw => (i.op.hint j).value raw) u = .ok action v)
    (hstep : step answers z = .ok () w) (hrestore : ∀ d, ¬ RestoresInStep answers z d)
    (hstays : w.calls.depth = z.calls.depth) : Ran z i raws w := by
  have he : execute i (z.fetched z.pc i) = .ok action v := (bind_ok hargs).trans hperform
  have hdepth : w.calls.depth = v.calls.depth := by rw [hstays, (moves_of_execute he).depth]
  rcases action_stays hi he hstep hrestore hdepth with ⟨c, rfl, hcalls⟩ | ⟨hcall, hret, hcalls⟩
  · obtain ⟨hop, -⟩ := op_of_execute he
    have hstores : i.op.info.stores = true := by rw [hop]; rfl
    obtain ⟨g, _, hacts, -, hv⟩ := Acted.of_perform rfl (by simp [hop]) hperform
    rw [if_neg fun h => h.2 hop] at hv
    refine ⟨g, 0, ?_, fun h => absurd (hop.symm.trans h) (by decide), ?_⟩
    · rw [hu] at hacts
      exact hacts
    · have hw : w.calls = u.framed (g.stored i.storeTo 0) := by
        rw [hcalls, framed, hv]
        rfl
      rw [if_pos hstores, hw, hu]
      rfl
  · have hne : i.op ≠ .call := fun hop => by
      obtain ⟨c, hc⟩ := perform_call hop hperform
      exact hcall c hc
    have hpopped : i.op ≠ .retPopped := fun hop => by
      obtain ⟨value, hvalue⟩ := perform_retPopped hop hperform
      exact hret value hvalue
    obtain ⟨g, result, hacts, hload, hv⟩ := Acted.of_perform rfl hpopped hperform
    rw [hu] at hacts hload hv
    refine ⟨g, result, hacts, hload, ?_⟩
    rw [hcalls, hv]
    simp only [hne, ne_eq, not_false_eq_true, and_true]
    rfl

theorem Ran.depth (h : Ran z i raws w) (htaken : i.taken ≤ z.calls.current.stack.length) :
    w.calls.current.stack.length + i.taken + (if i.op = .pop ∨ i.op = .pull then 1 else 0) =
      z.calls.current.stack.length + (if i.op = .push then 1 else 0) +
        if i.op.info.stores ∧ i.storeTo = 0 then 1 else 0 := by
  obtain ⟨g, result, hacts, -, hw⟩ := h
  have hlength := hacts.length
  rw [withStack_stack, List.length_drop] at hlength
  have hstored : w.calls.current.stack.length =
      g.stack.length + if i.op.info.stores ∧ i.storeTo = 0 then 1 else 0 := by
    rw [hw, framed]
    by_cases hstores : i.op.info.stores = true
    · simp only [hstores, if_true, true_and, Frame.stored_stack]
      split <;> rfl
    · simp [hstores]
  omega

theorem Ran.deeper (h : Ran z i raws w) :
    z.calls.current.stack.drop (i.taken + i.touched raws) <:+ w.calls.current.stack := by
  obtain ⟨g, result, hacts, -, hw⟩ := h
  have hdeeper := hacts.deeper
  rw [withStack_stack, List.drop_drop] at hdeeper
  refine hdeeper.trans ?_
  rw [hw, framed]
  dsimp only
  split
  · rw [Frame.stored_stack]
    split
    · exact List.suffix_cons _ _
    · exact List.suffix_refl _
  · exact List.suffix_refl _

theorem Ran.locals (h : Ran z i raws w) {j : Nat}
    (hnamed : i.op ∈ Op.naming → (target raws).toNat ≠ j + 1)
    (hstored : i.op.info.stores → i.storeTo.toNat ≠ j + 1) :
    w.calls.current.locals[j]? = z.calls.current.locals[j]? := by
  obtain ⟨g, result, hacts, -, hw⟩ := h
  have hlocals : g.locals[j]? = z.calls.current.locals[j]? := hacts.locals hnamed
  rw [hw, framed, ← hlocals]
  dsimp only
  split
  · exact Frame.stored_local (hstored ‹_›) result
  · rfl

/-- The frame after a step that stays in it, where its operands were these words. -/
structure FrameStep (z : Machine) (i : Instruction) (raws : List UInt16) (w : Machine) : Prop where
  /-- The operands from the stack take its topmost entries, from left to right. -/
  receives : z.Receives i.operands raws
  /-- These are the words that the opcode works on. -/
  performs : ∃ u action v, operandValues i.op 0 i.operands (z.fetched z.pc i) =
    .ok (raws.mapIdx fun j raw => (i.op.hint j).value raw) u ∧
    perform i (raws.mapIdx fun j raw => (i.op.hint j).value raw) u = .ok action v
  /-- On what is left of the stack the opcode acts, and then it stores its result. -/
  ran : Ran z i raws w
  depth : w.calls.current.stack.length + i.taken + (if i.op = .pop ∨ i.op = .pull then 1 else 0) =
    z.calls.current.stack.length + (if i.op = .push then 1 else 0) +
      if i.op.info.stores ∧ i.storeTo = 0 then 1 else 0
  /-- Below what is taken, popped or named, the stack is as it was. -/
  deeper : z.calls.current.stack.drop (i.taken + i.touched raws) <:+ w.calls.current.stack
  /-- The locals that are neither named nor stored into are as they were. -/
  locals : ∀ j, (i.op ∈ Op.naming → (target raws).toNat ≠ j + 1) →
    (i.op.info.stores → i.storeTo.toNat ≠ j + 1) →
    w.calls.current.locals[j]? = z.calls.current.locals[j]?

/-- **The stack under an instruction.**  This is what every step that stays in its frame does to it:
one that neither calls a routine nor returns from one, and restores nothing. -/
theorem step_stack (hi : z.Next i) (hstep : step answers z = .ok () w)
    (hrestore : ∀ d, ¬ RestoresInStep answers z d) (hstays : w.calls.depth = z.calls.depth) :
    ∃ raws, FrameStep z i raws w := by
  cases he : execute i (z.fetched z.pc i) with
  | error fault u =>
    unfold step at hstep
    rw [bind_error (advance_of_fault hi he)] at hstep
    cases hstep
  | ok action v =>
    obtain ⟨args, u, hargs, hperform⟩ := ok_of_bind he
    obtain ⟨raws, hreceives, hvalues, -, hu⟩ := receives_of_operandValues hargs
    simp only [Nat.zero_add] at hvalues
    subst hvalues
    have hran := ran_of_step hi hargs hu hperform hstep hrestore hstays
    have htaken : i.taken ≤ z.calls.current.stack.length :=
      (Nat.le_add_left _ _).trans (stackDepth_operandValues hargs).2.le
    exact ⟨raws, ⟨hreceives.length, hreceives.word⟩, ⟨u, action, v, hargs, hperform⟩, hran,
      hran.depth htaken, hran.deeper, fun j => hran.locals⟩

/-- An image whose story pushes 9, 2 and 7, and replaces the upper two by their difference. -/
def stackingImage : Memory :=
  let header : List UInt8 := [3, 0, 0, 0, 0, 0, 0, 0x68, 0, 0x78, 0, 0x02, 0, 0x5D, 0, 0x68]
  let rest := (smallImage.bytes.toList.take 0x68).drop 16
  let pushes : List UInt8 := [0xE8, 0x7F, 9, 0xE8, 0x7F, 2, 0xE8, 0x7F, 7]
  let code : List UInt8 := [0x75, 0, 0, 0, 0xBA, 0, 0]
  let dictionary : List UInt8 := [0, 7, 0, 0]
  ⟨(header ++ rest ++ pushes ++ code ++ dictionary).toArray⟩

/-- Both operands and the result of the subtraction are on the stack. -/
theorem step_stack_difference :
    let noStore : Answers := ⟨.error .noStore, .error .noStore⟩
    let x := { Machine.start (.ofImage stackingImage) (Random.ofEntropy 1) with tracing := false }
    let go := (HostCall.step noStore).run
    let z := go (go (go x))
    let i : Instruction :=
      ⟨0x71, .long, .two, 0x15, .sub, [⟨.var, 0⟩, ⟨.var, 0⟩], 0, none, [], 0x75⟩
    z.calls.current.stack = [7, 2, 9] ∧ (go z).calls.current.stack = [5, 9] ∧
      ∃ raws, FrameStep z i raws (go z) := by
  intro noStore x go z i
  have hi : z.Next i := ⟨by decide +kernel, by decide +kernel⟩
  have hstep : step noStore z = .ok () (go z) := step_ok_of_halt? (by decide +kernel)
  refine ⟨by decide +kernel, by decide +kernel, step_stack hi hstep ?_ (by decide +kernel)⟩
  rintro d ⟨_, _, _, ⟨⟩, _⟩

end Machine

end ZCode
