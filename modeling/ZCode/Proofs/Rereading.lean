/-
  Reading again after a restore.

  A snapshot says where its machine was, but not that it waited for a line.  A machine restored from
  one carries out the instruction again that had asked for the read, and takes its operands again.

  * `Machine.Awaits` ties a machine that waits to the state that asked for its read.  Every reachable
    machine that waits has such a state (`awaits_of_waiting`).
  * Storing a line does not tell machines apart that are alike (`completeRead_alike`).
  * `Machine.finishes_restored_read_iff`: the restored machine ends the read as the original does if and
    only if no operand of the instruction comes from the evaluation stack.
-/
import ZCode.Proofs.Waiting

namespace ZCode

/-- The operand is taken from the evaluation stack. -/
def Operand.fromStack (o : Operand) : Bool := o.kind = .var && o.value = 0

/-- The read that an instruction asks for with these values of its operands. -/
def Instruction.readOf (i : Instruction) (args : List Int) : PendingRead :=
  ⟨UInt32.ofInt (args.getD 0 0), UInt32.ofInt (args.getD 1 0), i.next⟩

namespace Machine

variable {z w u v : Machine} {i : Instruction} {r : PendingRead} {answers : Answers}

/-! ## Operands -/

/-- The depth of the current evaluation stack. -/
def stackDepth (z : Machine) : Nat := z.calls.current.stack.length

theorem look_of_ok {α : Type} {f : Machine → Except Fault α} {a : α} (h : f z = .ok a) :
    look f z = .ok a z := by
  simp only [look, h]

/-- What a word means does not depend on the machine. -/
theorem meaning_ok {hint : Hint} {raw : UInt16} {value : Int} (h : meaning hint raw z = .ok value u) :
    u = z ∧ ∀ w, meaning hint raw w = .ok value w := by
  cases hint with
  | signed | packed | plain | address =>
    cases h
    exact ⟨rfl, fun _ => rfl⟩
  | reference =>
    unfold meaning at h ⊢
    dsimp only at h ⊢
    split at h
    · cases h
    · rename_i hraw
      cases h
      exact ⟨rfl, fun _ => by rw [if_neg hraw]; rfl⟩

theorem toUInt8_eq_zero_iff {n : UInt16} (h : ¬ 0xFF < n) : n.toUInt8 = 0 ↔ n = 0 := by
  rw [← UInt16.toNat_inj, ← UInt8.toNat_inj, UInt16.toNat_toUInt8]
  rw [UInt16.lt_iff_toNat_lt] at h
  simp only [UInt16.toNat_ofNat, UInt8.toNat_ofNat] at h ⊢
  omega

/-- Where the value of an operand comes from: it is written in the instruction, or it is the value of
the variable `n`. -/
theorem operandValue_source {o : Operand} {hint : Hint} {value : Int}
    (h : operandValue o hint z = .ok value u) :
    (o.fromStack = false ∧ u = z ∧ ∀ w, operandValue o hint w = .ok value w) ∨
      o.kind = .var ∧ ∃ n raw, n = o.value.toUInt8 ∧ (o.fromStack = true ↔ n = 0) ∧
        readVariable n z = .ok raw u ∧
        ∀ w w', readVariable n w = .ok raw w' → operandValue o hint w = .ok value w' := by
  dsimp only [operandValue] at h ⊢
  split at h
  · rename_i homitted
    cases h
    exact .inl ⟨by simp [Operand.fromStack, homitted], rfl, fun _ => by rw [if_pos homitted]; rfl⟩
  rename_i homitted
  simp only [if_neg homitted]
  split at h
  · rename_i hvar
    split at h
    · cases h
    rename_i hrange
    obtain ⟨raw, u', hread, hmeaning⟩ := ok_of_bind h
    obtain ⟨rfl, hall⟩ := meaning_ok hmeaning
    simp only [if_pos hvar, if_neg hrange]
    refine .inr ⟨hvar, _, raw, rfl, ?_, hread, fun w w' hw => (bind_ok hw).trans (hall w')⟩
    simp [Operand.fromStack, hvar, toUInt8_eq_zero_iff hrange]
  · rename_i hvar
    simp only [if_neg hvar]
    obtain ⟨rfl, hmeaning⟩ := meaning_ok h
    exact .inl ⟨by simp [Operand.fromStack, hvar], rfl, hmeaning⟩

/-- The machines have the same global for an operand that names one. -/
def SameGlobal (z w : Machine) (o : Operand) : Prop :=
  o.kind = .var → 0x10 ≤ o.value.toUInt8 →
    z.story.readGlobal z.memory (globalOf o.value.toUInt8) =
      w.story.readGlobal w.memory (globalOf o.value.toUInt8)

theorem readVariable_congr {n : UInt8} {raw : UInt16} (hn : n ≠ 0) (hcalls : z.calls = w.calls)
    (hglobal : 0x10 ≤ n → z.story.readGlobal z.memory (globalOf n) =
      w.story.readGlobal w.memory (globalOf n))
    (h : readVariable n z = .ok raw u) : u = z ∧ readVariable n w = .ok raw w := by
  unfold readVariable at h ⊢
  rw [if_neg hn] at h ⊢
  split at h
  · rename_i hlocal
    obtain ⟨hvalue, rfl⟩ := eq_of_look h
    rw [if_pos hlocal]
    exact ⟨rfl, look_of_ok (hcalls ▸ hvalue)⟩
  · rename_i hnot
    obtain ⟨hvalue, rfl⟩ := eq_of_look h
    rw [if_neg hnot]
    exact ⟨rfl, look_of_ok (hglobal (UInt8.not_lt.1 hnot) ▸ hvalue)⟩

/-- Operands that do not come from the stack leave the machine as it is, and have the same values
wherever frames and globals are the same. -/
theorem operandValues_congr {op : Op} {operands : List Operand} {n : Nat} {args : List Int}
    (hstack : ∀ o ∈ operands, o.fromStack = false) (hcalls : z.calls = w.calls)
    (hglobals : ∀ o ∈ operands, SameGlobal z w o)
    (h : operandValues op n operands z = .ok args u) :
    u = z ∧ operandValues op n operands w = .ok args w := by
  induction operands generalizing n args u with
  | nil =>
    cases h
    exact ⟨rfl, rfl⟩
  | cons o operands ih =>
    obtain ⟨hstack, hstacks⟩ := List.forall_mem_cons.1 hstack
    obtain ⟨hglobal, hglobals⟩ := List.forall_mem_cons.1 hglobals
    obtain ⟨value, t, hvalue, htail⟩ := ok_of_bind h
    obtain ⟨rest, t', hrest, hargs⟩ := ok_of_bind htail
    have hhead : t = z ∧ operandValue o (op.hint n) w = .ok value w := by
      rcases operandValue_source hvalue with ⟨-, ht, hw⟩ | ⟨hvar, k, raw, rfl, hzero, hread, hw⟩
      · exact ⟨ht, hw w⟩
      · have hk : o.value.toUInt8 ≠ 0 := fun hk => by simp [hzero.2 hk] at hstack
        obtain ⟨ht, hread⟩ := readVariable_congr hk hcalls (hglobal hvar) hread
        exact ⟨ht, hw w w hread⟩
    obtain ⟨rfl, hhead⟩ := hhead
    obtain ⟨rfl, hrests⟩ := ih hstacks hglobals hrest
    cases hargs
    exact ⟨rfl, (bind_ok hhead).trans ((bind_ok hrests).trans rfl)⟩

theorem stackDepth_readVariable {n : UInt8} {raw : UInt16} (h : readVariable n z = .ok raw u) :
    u = { z with calls := u.calls } ∧ u.stackDepth + (if n = 0 then 1 else 0) = z.stackDepth := by
  unfold readVariable at h
  by_cases hn : n = 0
  · rw [if_pos hn] at h ⊢
    unfold onFrame Frame.pop at h
    cases hstack : z.calls.current.stack with
    | nil =>
      rw [hstack] at h
      cases h
    | cons top rest =>
      rw [hstack] at h
      cases h
      exact ⟨rfl, by simp [stackDepth, hstack]⟩
  · rw [if_neg hn] at h ⊢
    have hu : u = z := by split at h <;> exact (eq_of_look h).2
    subst hu
    exact ⟨rfl, rfl⟩

/-- Taking operands changes nothing but the stack, and every operand that comes from there makes it
shorter by one. -/
theorem stackDepth_operandValues {op : Op} {operands : List Operand} {n : Nat} {args : List Int}
    (h : operandValues op n operands z = .ok args u) :
    u = { z with calls := u.calls } ∧
      u.stackDepth + operands.countP Operand.fromStack = z.stackDepth := by
  induction operands generalizing n args z with
  | nil =>
    cases h
    exact ⟨rfl, rfl⟩
  | cons o operands ih =>
    obtain ⟨value, t, hvalue, htail⟩ := ok_of_bind h
    obtain ⟨rest, t', hrest, hargs⟩ := ok_of_bind htail
    cases hargs
    have hhead : t = { z with calls := t.calls } ∧
        t.stackDepth + (if o.fromStack = true then 1 else 0) = z.stackDepth := by
      rcases operandValue_source hvalue with ⟨hnot, rfl, -⟩ | ⟨-, k, raw, -, hzero, hread, -⟩
      · exact ⟨rfl, by simp [hnot]⟩
      · simpa only [hzero] using stackDepth_readVariable hread
    obtain ⟨hchange, hdepth⟩ := ih hrest
    refine ⟨?_, by rw [List.countP_cons, ← Nat.add_assoc, hdepth, hhead.2]⟩
    rw [hchange, hhead.1]

/-! ## Storing a line -/

theorem respects_writeByte (a : Address) (b : UInt8) : Respects Alike (writeByte a b) :=
  respects_edit fun s => s.protection.respects_writeByte a b

theorem respects_writeWord (a : Address) (word : UInt16) : Respects Alike (writeWord a word) :=
  respects_edit fun s => s.protection.respects_writeWord a word

theorem respects_writeBytes (bytes : List UInt8) (a : Address) :
    Respects Alike (writeBytes a bytes) := by
  induction bytes generalizing a with
  | nil => exact .pure _
  | cons b bytes ih => exact (respects_writeByte a b).bind fun _ => ih (a + 1)

theorem respects_get {α : Type} {f : Machine → Run α} (hf : ∀ z w, Alike z w → f z = f w)
    (h : ∀ z, Respects Alike (f z)) : Respects Alike (get >>= f) := by
  intro z w hzw
  show Related Alike (f z z) (f w w)
  rw [hf z w hzw]
  exact h w z w hzw

theorem respects_writeTokens (tokens : List Token) (block : Address) :
    Respects Alike (writeTokens block tokens) := by
  induction tokens generalizing block with
  | nil => exact .pure _
  | cons t tokens ih =>
    refine respects_get (fun z w h => by rw [h.story]) fun s => ?_
    exact (respects_writeWord _ _).bind fun _ => (respects_writeByte _ _).bind fun _ =>
      (respects_writeByte _ _).bind fun _ => ih (block + 4)

theorem respects_readByte {a : Address} (ha : a.toNat ≠ Memory.flags2At) :
    Respects Alike (readByte a) := by
  intro z w h
  have hbyte : z.memory.byte a = w.memory.byte a := by
    rw [Memory.byte_eq, Memory.byte_eq, h.memory.size, h.memory.get_eq (Memory.sessionMask_of_ne ha)]
  unfold readByte look Protection.readByte
  dsimp only
  rw [h.story, hbyte]
  split
  · exact .ok _ h
  · exact .error _ h

/-- Storing a line does not tell machines apart that are alike, unless a buffer's first byte, which
says how much room there is, holds the session's bits. -/
theorem respects_completeRead (htext : r.textBuffer.toNat ≠ Memory.flags2At)
    (hparse : r.parseBuffer.toNat ≠ Memory.flags2At) (line : String) :
    Respects Alike (completeRead r line) := by
  refine (respects_readByte htext).bind fun room => ?_
  dsimp only
  split
  · exact fun z w h => .error _ h
  · refine (respects_writeBytes _ _).bind fun _ => (respects_readByte hparse).bind fun _ => ?_
    refine respects_get (fun z w h => by rw [h.story]) fun s => ?_
    exact (respects_writeByte _ _).bind fun _ => respects_writeTokens _ _

/-- The byte behind the session's bits cannot be written. -/
theorem ne_flags2_of_writeByte {a : Address} {b : UInt8} (h : writeByte (a + 1) b z = .ok () u) :
    a.toNat ≠ Memory.flags2At := by
  intro ha
  obtain rfl : a = 0x11 := UInt32.toNat_inj.1 ha
  have hrefused : ∀ fault m, z.story.protection.writeByte (0x11 + 1) b z.memory ≠ .ok fault m := by
    intro fault m hok
    rw [Protection.writeByte_eq] at hok
    cases hcheck : z.story.protection.checkWrite z.memory (0x11 + 1) b with
    | ok =>
      have hallows := (Protection.checkWrite_eq_ok_iff.1 hcheck).2 (by decide)
      exact Bool.false_ne_true hallows.2
    | error fault =>
      rw [hcheck] at hok
      cases hok
  unfold writeByte edit at h
  dsimp only at h
  split at h
  · rename_i hok
    exact hrefused _ _ hok
  · cases h

/-- A line is never stored in such buffers. -/
theorem ne_flags2_of_completeRead {line : String} (h : completeRead r line z = .ok () u) :
    r.textBuffer.toNat ≠ Memory.flags2At ∧ r.parseBuffer.toNat ≠ Memory.flags2At := by
  obtain ⟨room, z₁, -, h₁⟩ := ok_of_bind h
  dsimp only at h₁
  split at h₁
  · cases h₁
  obtain ⟨_, z₂, htext, h₂⟩ := ok_of_bind h₁
  obtain ⟨maxTokens, z₃, -, h₃⟩ := ok_of_bind h₂
  rw [get_bind] at h₃
  obtain ⟨_, z₄, hparse, -⟩ := ok_of_bind h₃
  refine ⟨?_, ne_flags2_of_writeByte hparse⟩
  -- at least the zero behind the text is written
  cases hcodes : (lineCodes line).take (room.toNat - 1) with
  | nil =>
    rw [hcodes] at htext
    obtain ⟨_, _, hfirst, -⟩ := ok_of_bind htext
    exact ne_flags2_of_writeByte hfirst
  | cons code codes =>
    rw [hcodes] at htext
    obtain ⟨_, _, hfirst, -⟩ := ok_of_bind htext
    exact ne_flags2_of_writeByte hfirst

/-- **Where a line can be stored, it is stored alike in machines that are alike.** -/
theorem completeRead_alike {line : String} (h : Alike z w) (hz : completeRead r line z = .ok () u) :
    ∃ v, completeRead r line w = .ok () v ∧ Alike u v := by
  obtain ⟨htext, hparse⟩ := ne_flags2_of_completeRead hz
  have hrelated := respects_completeRead htext hparse line z w h
  rw [hz] at hrelated
  generalize hw : completeRead r line w = result at hrelated
  cases hrelated with
  | ok _ huv => exact ⟨_, rfl, huv⟩

/-! ## Steps that read -/

/-- A step of a machine that waits stores the next line. -/
theorem step_waiting_ok_iff {line : String} {rest : List String} (hr : z.phase = .waiting r)
    (hlines : z.input.lines = line :: rest) :
    step answers z = .ok () u ↔
      ∃ t, completeRead r line { z with input := { z.input with lines := rest } } = .ok () t ∧
        u = readDone r t := by
  have hresume := resumeRead_cons hlines r
  constructor
  · intro h
    obtain ⟨request, t, hadvance, hend⟩ := ok_of_bind h
    rw [advance_waiting hr] at hadvance
    obtain ⟨_, t', hread, hnone⟩ := ok_of_bind (ok_of_located hadvance)
    cases hnone
    cases hend
    obtain ⟨_, t, hcomplete, hdone⟩ := ok_of_bind (hresume ▸ ok_of_orHalt hread)
    cases hdone
    exact ⟨t, hcomplete, rfl⟩
  · rintro ⟨t, hcomplete, rfl⟩
    have hread : resumeRead r z = .ok () (readDone r t) := hresume.trans (bind_ok hcomplete)
    exact bind_ok ((advance_waiting hr).trans (located_ok (bind_ok (orHalt_ok hread))))

/-- Machines that are alike and wait for the same line store it alike. -/
theorem Alike.step_waiting {line : String} (h : Alike z w) (hz : z.phase = .waiting r)
    (hw : w.phase = .waiting r) (hline : z.input.lines.head? = some line)
    (hline' : w.input.lines.head? = some line) (hu : step answers z = .ok () u) :
    ∃ v, step answers w = .ok () v ∧ Alike u v := by
  obtain ⟨rest, hlines⟩ := List.head?_eq_some_iff.1 hline
  obtain ⟨rest', hlines'⟩ := List.head?_eq_some_iff.1 hline'
  obtain ⟨t, ht, rfl⟩ := (step_waiting_ok_iff hz hlines).1 hu
  have hbefore : Alike { z with input := { z.input with lines := rest } }
      { w with input := { w.input with lines := rest' } } := ⟨h.story, h.calls, h.pc, h.memory⟩
  obtain ⟨t', ht', halike⟩ := completeRead_alike hbefore ht
  exact ⟨readDone r t', (step_waiting_ok_iff hw hlines').2 ⟨t', ht', rfl⟩, halike.story,
    halike.calls, rfl, halike.memory⟩

theorem perform_sread (hop : i.op = .sread) (args : List Int) :
    perform i args = pure (.read (i.readOf args)) := by
  simp only [perform, performOn, hop]
  rfl

/-- A read instruction takes its operands and asks for a line. -/
theorem execute_sread {action : Action} (hop : i.op = .sread) (he : execute i z = .ok action u) :
    ∃ args, operandValues i.op 0 i.operands z = .ok args u ∧ action = .read (i.readOf args) := by
  obtain ⟨args, u', hargs, hperform⟩ := ok_of_bind he
  rw [perform_sread hop] at hperform
  cases hperform
  exact ⟨args, hargs, rfl⟩

theorem Asks.operands (h : z.Asks i r u) : i.op = .sread ∧
    ∃ args, operandValues i.op 0 i.operands (z.fetched z.pc i) = .ok args u ∧ r = i.readOf args := by
  have hop : i.op = .sread := op_of_execute h.asked
  obtain ⟨args, hargs, haction⟩ := execute_sread hop h.asked
  cases haction
  exact ⟨hop, args, hargs, rfl⟩

/-- A read instruction without a fault asks for a line. -/
theorem asks_of_step (hi : z.Next i) (hop : i.op = .sread) (h : step answers z = .ok () v) :
    ∃ r u, z.Asks i r u := by
  cases he : execute i (z.fetched z.pc i) with
  | error fault u =>
    have hstep : step answers z = .error _ u := bind_error (advance_of_fault hi he)
    rw [hstep] at h
    cases h
  | ok action u =>
    obtain ⟨args, -, rfl⟩ := execute_sread hop he
    cases hs : u.statusLine with
    | error fault =>
      have hstep : step answers z = .error _ u := bind_error (advance_of_no_status hi he hs)
      rw [hstep] at h
      cases h
    | ok line => exact ⟨_, u, hi, he, line, hs⟩

theorem Resumed.calls (h : Resumed r z w) : w.calls = z.calls := by
  cases h <;> rfl

/-- A machine that goes on waiting stays where it is. -/
theorem Resumed.of_waiting {r' : PendingRead} (h : Resumed r z w) (hw : w.phase = .waiting r') :
    w.phase = z.phase ∧ w.pc = z.pc := by
  cases h with
  | waits m lines => exact ⟨rfl, rfl⟩
  | done m lines => cases hw

/-! ## Where a read began -/

/-- The machine `z` waits for the read for which `x` asked with its next instruction `i`. -/
structure Awaits (x : Machine) (i : Instruction) (r : PendingRead) (z : Machine) : Prop where
  asked : ∃ u, x.Asks i r u ∧ z.calls = u.calls
  waits : z.phase = .waiting r
  pc : z.pc = x.pc

/-- After a step that ends in waiting, the machine waits as it did before, or it has just asked. -/
theorem ReadCourse.awaits (h : ReadCourse z w) (hw : w.phase = .waiting r) :
    (w.phase = z.phase ∧ w.calls = z.calls ∧ w.pc = z.pc) ∨ ∃ i, Awaits z i r w := by
  cases h with
  | aside _ hnot => exact absurd ⟨r, hw⟩ hnot
  | resumes _ hresumed =>
    obtain ⟨hphase, hpc⟩ := hresumed.of_waiting hw
    exact .inl ⟨hphase, hresumed.calls, hpc⟩
  | @begins i r' u line hasks hresumed =>
    obtain ⟨hphase, hpc⟩ := hresumed.of_waiting hw
    have hsame : r' = r := Phase.waiting.inj (hphase.symm.trans hw)
    subst hsame
    exact .inr ⟨i, ⟨u, hasks, hresumed.calls⟩, hw, hpc.trans (kept_of_execute hasks.asked).1⟩

/-- **A machine that waits was asked to**, in a state that a host could reach. -/
theorem awaits_of_waiting {story : Story} (hz : Reachable story z) (hr : z.phase = .waiting r) :
    ∃ x i, Reachable story x ∧ Awaits x i r z := by
  induction hz with
  | start => cases hr
  | @call z c hz ih =>
    -- a call that leaves phase, frames and place alone hands on what was true before
    have hand {w : Machine} (hw : w.phase = .waiting r)
        (hsame : w.phase = z.phase ∧ w.calls = z.calls ∧ w.pc = z.pc) :
        ∃ x i, Reachable story x ∧ Awaits x i r w := by
      obtain ⟨hphase, hcalls, hpc⟩ := hsame
      obtain ⟨x, i, hx, ⟨u, hasks, hu⟩, -, hxpc⟩ := ih (hphase ▸ hw)
      exact ⟨x, i, hx, ⟨u, hasks, hcalls.trans hu⟩, hw, hpc.trans hxpc⟩
    have hcourse := c.course_run z
    generalize c.run z = w at hcourse hr
    cases hcourse with
    | steps hread =>
      rcases hread.awaits hr with hsame | ⟨i, hawaits⟩
      · exact hand hr hsame
      · exact ⟨z, i, hz, hawaits⟩
    | restores _ hphase => exact absurd ⟨r, hr⟩ (not_waiting (.inl hphase))
    | refuses | quiet => exact hand hr ⟨rfl, rfl, rfl⟩

/-! ## The read of a restored machine -/

/-- The machine `y` finds the instruction `i` and its globals as `x` found them, and a status line. -/
structure Finds (x : Machine) (i : Instruction) (y : Machine) : Prop where
  code : Instruction.decode y.story.script y.memory y.pc = .ok i
  globals : ∀ o ∈ i.operands, SameGlobal x y o
  status : ∃ line, y.statusLine = .ok line

/-- It does so if memory is as it was when the read began. -/
theorem Awaits.finds {x y : Machine} (h : Awaits x i r z) (hstory : y.story = x.story)
    (hpc : y.pc = z.pc) (hmemory : y.memory = x.memory) : Finds x i y := by
  obtain ⟨u, hasks, -⟩ := h.asked
  obtain ⟨-, args, hargs, -⟩ := hasks.operands
  obtain ⟨line, hline⟩ := hasks.status
  refine ⟨?_, fun o _ _ _ => by rw [hstory, hmemory], line, ?_⟩
  · rw [hstory, hmemory, hpc, h.pc]
    exact hasks.next.decodes
  · rw [(stackDepth_operandValues hargs).1] at hline
    unfold statusLine at hline ⊢
    rw [hstory, hmemory]
    exact hline

/-- Without operands from the stack, the restored machine asks for the same read. -/
theorem Awaits.asks_again {x y : Machine} (h : Awaits x i r z) (hy : Alike z y)
    (hrunning : y.phase = .running) (hfinds : Finds x i y)
    (hstack : ∀ o ∈ i.operands, o.fromStack = false) : y.Asks i r (y.fetched y.pc i) := by
  obtain ⟨u, hasks, hcalls⟩ := h.asked
  obtain ⟨hop, args, hargs, rfl⟩ := hasks.operands
  have hu : u = x.fetched x.pc i :=
    (operandValues_congr hstack rfl (fun _ _ _ _ => rfl) hargs).1
  have hframes : (x.fetched x.pc i).calls = (y.fetched y.pc i).calls :=
    (hu ▸ hcalls.symm).trans hy.calls
  have hagain := (operandValues_congr hstack hframes hfinds.globals hargs).2
  refine ⟨⟨hrunning, hfinds.code⟩, ?_, hfinds.status⟩
  exact (bind_ok hagain).trans (by rw [perform_sread hop]; rfl)

/-- Operands from the stack are missed there after the instruction has been carried out again. -/
theorem stack_of_reread {y : Machine} (hi : y.Next i) (hop : i.op = .sread)
    (hstep : step answers y = .ok () v) (hdepth : v.stackDepth = y.stackDepth) :
    ∀ o ∈ i.operands, o.fromStack = false := by
  obtain ⟨r, u, hasks⟩ := asks_of_step hi hop hstep
  obtain ⟨-, args, hargs, -⟩ := hasks.operands
  obtain ⟨line, hresumed⟩ := hasks.resumed answers
  rw [hstep] at hresumed
  have hv : v.stackDepth = u.stackDepth := congrArg (fun c => c.current.stack.length) hresumed.calls
  have hcount := (stackDepth_operandValues hargs).2
  have hzero : i.operands.countP Operand.fromStack = 0 := by
    have hfetched : (y.fetched y.pc i).stackDepth = y.stackDepth := rfl
    omega
  simpa using List.countP_eq_zero.1 hzero

variable {story : Story}

theorem restore_snapshot (hz : Bounded story z) (hw : Bounded story w)
    (hpc : z.pc.toNat < z.memory.size) :
    ∃ y, restore z.snapshot w = .ok () y ∧ Alike z y ∧ y.phase = .running ∧ y.input = w.input := by
  have haccepts := hz.accepts_snapshot hw hpc
  have hok : restore z.snapshot w = .ok () (reached (restore z.snapshot w)) := by
    rw [restore_eq, haccepts]
    rfl
  rcases restore_cases z.snapshot w with ⟨hrefused, -⟩ | ⟨-, hphase, hinput⟩
  · exact absurd haccepts hrefused
  · exact ⟨_, hok, alike_restore (hz.runs.trans hw.runs.symm) haccepts, hphase, hinput⟩

/-- **A machine restored from a snapshot of one that waits ends the read as the original does if and
only if no operand of the instruction comes from the evaluation stack.**  Both have the same next line.
The snapshot is taken through its written form.  The restored machine carries out the instruction again,
so it has to find the instruction and its globals as they were when the read began, which it does if
memory is as it was. -/
theorem finishes_restored_read_iff {line : String} (hz : Reachable story z)
    (hr : z.phase = .waiting r) (hw : Reachable story w) (hline : z.input.lines.head? = some line)
    (hline' : w.input.lines.head? = some line) :
    (∃ x i, Reachable story x ∧ Awaits x i r z) ∧
    Snapshot.parse z.snapshot.render.toList = .ok z.snapshot ∧
    ∃ y, restore z.snapshot w = .ok () y ∧
      ∀ x i, Reachable story x → Awaits x i r z → (y.memory = x.memory → Finds x i y) ∧
        (Finds x i y → ∀ answers u, step answers z = .ok () u →
          ((∃ v, step answers y = .ok () v ∧ Alike u v) ↔
            ∀ o ∈ i.operands, o.fromStack = false)) := by
  obtain ⟨x, i, hx, hawaits⟩ := awaits_of_waiting hz hr
  have hpc : z.pc.toNat < z.memory.size := by
    obtain ⟨_, hasks, -⟩ := hawaits.asked
    rw [hawaits.pc, hz.bounded.size, ← hx.bounded.size]
    exact hasks.next.pc_lt
  obtain ⟨y, hrestore, hy, hrunning, hinput⟩ := restore_snapshot hz.bounded hw.bounded hpc
  refine ⟨⟨x, i, hx, hawaits⟩, Snapshot.parse_taken _ _ _ _, y, hrestore, ?_⟩
  clear hx hawaits
  intro x i hx hawaits
  have hstory : y.story = x.story :=
    hy.story.symm.trans (hz.bounded.runs.trans hx.bounded.runs.symm)
  refine ⟨hawaits.finds hstory hy.pc.symm, fun hfinds answers u hu => ?_⟩
  constructor
  · rintro ⟨v, hv, halike⟩
    obtain ⟨_, hasks, -⟩ := hawaits.asked
    refine stack_of_reread ⟨hrunning, hfinds.code⟩ hasks.operands.1 hv ?_
    have hresumed := resumed_step hr answers
    rw [hu] at hresumed
    have hcalls : v.calls = y.calls := halike.calls.symm.trans (hresumed.calls.trans hy.calls)
    exact congrArg (fun c => c.current.stack.length) hcalls
  · intro hstack
    obtain ⟨status, hstep⟩ := (hawaits.asks_again hy hrunning hfinds hstack).step_eq answers
    rw [hstep]
    have halike : Alike z ((y.fetched y.pc i).awaiting r status) :=
      ⟨hy.story, hy.calls, hy.pc, hy.memory⟩
    have hnext : y.input.lines.head? = some line := by rw [hinput, hline']
    exact halike.step_waiting hr rfl hline hnext hu

/-- The story reads with operands that stand in its code. -/
theorem finishes_restored_read_constant :
    let noStore : Answers := ⟨.error .noStore, .error .noStore⟩
    let x := { Machine.start Game.readingStory (Random.ofEntropy 1) with tracing := false }
    let z := (HostCall.push "A").run ((HostCall.step noStore).run x)
    let w := (HostCall.push "A").run x
    z.phase = .waiting ⟨0x63, 0x68, 0x7C⟩ ∧ ∃ y u v, restore z.snapshot w = .ok () y ∧
      step noStore z = .ok () u ∧ step noStore y = .ok () v ∧ u.memory.get 0x64 = 97 ∧
      Alike u v := by
  intro noStore x z w
  have hx : Reachable Game.readingStory x := .start _ false
  have hz : Reachable Game.readingStory z := (hx.call _).call _
  have hw : Reachable Game.readingStory w := hx.call _
  have hr : z.phase = .waiting ⟨0x63, 0x68, 0x7C⟩ := by decide +kernel
  have hline : z.input.lines.head? = some "A" := by decide +kernel
  have hline' : w.input.lines.head? = some "A" := by decide +kernel
  obtain ⟨-, -, y, hy, hread⟩ := finishes_restored_read_iff hz hr hw hline hline'
  let i : Instruction :=
    ⟨0x78, .variadic, .many, 4, .sread, [⟨.small, 0x63⟩, ⟨.small, 0x68⟩], 0, none, [], 0x7C⟩
  have hnext : x.Next i := ⟨by decide +kernel, by decide +kernel⟩
  have hasks : x.Asks i ⟨0x63, 0x68, 0x7C⟩ (x.fetched x.pc i) :=
    ⟨hnext, rfl, {}, by decide +kernel⟩
  have hawaits : Awaits x i ⟨0x63, 0x68, 0x7C⟩ z :=
    ⟨⟨_, hasks, by decide +kernel⟩, hr, by decide +kernel⟩
  have hsame : y = reached (restore z.snapshot w) := by rw [hy]; rfl
  have hmemory : y.memory = x.memory := by
    rw [hsame]
    decide +kernel
  obtain ⟨hfinds, hend⟩ := hread x i hx hawaits
  have hu : step noStore z = .ok () (reached (step noStore z)) := step_ok_of_halt? (by decide +kernel)
  have hstored : (reached (step noStore z)).memory.get 0x64 = 97 := by decide +kernel
  obtain ⟨v, hv, halike⟩ := (hend (hfinds hmemory) noStore _ hu).2 (by decide)
  exact ⟨hr, y, _, v, hy, hu, hv, hstored, halike⟩

/-- An image whose story pushes the addresses of its buffers and reads with operands from the stack. -/
def stackReadImage : Memory :=
  let header : List UInt8 := [3, 0, 0, 0, 0, 0, 0, 0x78, 0, 0x84, 0, 0x02, 0, 0x5D, 0, 0x78]
  let rest := (Game.readingImage.bytes.toList.take 0x78).drop 16
  let code : List UInt8 := [0xE8, 0x7F, 0x68, 0xE8, 0x7F, 0x63, 0xE4, 0xAF, 0, 0, 0xBA, 0]
  let dictionary : List UInt8 := [0, 7, 0, 0]
  ⟨(header ++ rest ++ code ++ dictionary).toArray⟩

def stackReadStory : Story := .ofImage stackReadImage

/-- A restored machine that does not find the operands on its stack. -/
theorem restored_read_pops_again :
    let noStore : Answers := ⟨.error .noStore, .error .noStore⟩
    let push := (HostCall.push "A").run
    let go := (HostCall.step noStore).run
    let x := { Machine.start stackReadStory (Random.ofEntropy 1) with tracing := false }
    let z := go (go (go x))
    let y := reached (restore z.snapshot x)
    Reachable stackReadStory z ∧ z.phase = .waiting ⟨0x63, 0x68, 0x82⟩ ∧
      Snapshot.check z.snapshot x.story x.memory.size = .ok () ∧
      halt? (step noStore (push z)) = none ∧ (reached (step noStore (push z))).pc = 0x82 ∧
      halt? (step noStore (push y)) = some (.fault (.machine .popFromEmptyStack)) := by
  intro noStore push go x z y
  have hx : Reachable stackReadStory x := .start _ false
  have hz : Reachable stackReadStory z := ((hx.call _).call _).call _
  exact ⟨hz, by decide +kernel, by decide +kernel, by decide +kernel, by decide +kernel,
    by decide +kernel⟩

end Machine

end ZCode
