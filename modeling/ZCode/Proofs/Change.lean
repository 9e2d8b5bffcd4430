/-
  What an instruction can do to the machine.

  * `Machine.Move` is one elementary change within the current call: a byte of memory written, the
    current frame or the streams touched, or anything that concerns neither memory nor frames nor
    streams.  Carrying out an instruction is a sequence of moves, also when it faults
    (`within_execute`).
  * `Machine.Change D` is a move, a frame pushed or popped, a restart, or a snapshot restored.  `D`
    says which snapshots may be restored.  What each of these keeps is kept by every step.
-/
import ZCode.Proofs.Writes

namespace ZCode

open Relation

/-- The frame has as many locals, returns as before, and its stack does not outgrow its bound. -/
structure Frame.Near (f g : Frame) : Prop where
  locals : g.locals.length = f.locals.length
  stack : f.stack.length ≤ maxStack → g.stack.length ≤ maxStack
  returnTo : g.returnTo = f.returnTo
  store : g.store = f.store

theorem Frame.Near.refl (f : Frame) : f.Near f := ⟨rfl, id, rfl, rfl⟩

theorem Frame.Near.trans {f g h : Frame} (hfg : f.Near g) (hgh : g.Near h) : f.Near h :=
  ⟨hgh.locals.trans hfg.locals, hgh.stack ∘ hfg.stack, hgh.returnTo.trans hfg.returnTo,
    hgh.store.trans hfg.store⟩

namespace Machine

/-- An elementary change within the current call. -/
inductive Move : Machine → Machine → Prop
  /-- Memory, frames and streams stay as they are. -/
  | book (z : Machine) (pc : Address) (state : State) (pendingRead : Option PendingRead)
      (last : Option Instruction) (random : Random) (input : LineInput)
      (output : Array OutputCall) (log : Array LogEntry) :
      Move z { z with pc, state, pendingRead, last, random, input, output, log }
  | write {z : Machine} {m : Memory} : z.story.protection.Write z.memory m →
      Move z { z with memory := m }
  | frame {z : Machine} {f : Frame} : z.calls.current.Near f →
      Move z { z with calls := { z.calls with current := f } }
  | streams {z : Machine} {s : Streams} :
      (z.streams.tables.length ≤ Streams.maxTables → s.tables.length ≤ Streams.maxTables) →
      Move z { z with streams := s }

/-- Any number of moves, one after the other. -/
abbrev Moves : Machine → Machine → Prop := ReflTransGen Move

/-- An elementary change of the machine.  `D` says which snapshots may be restored. -/
inductive Change (D : Snapshot → Prop) : Machine → Machine → Prop
  | move {z w : Machine} : Move z w → Change D z w
  | call {z : Machine} {f : Frame} {c : CallStack} : f.locals.length ≤ Frame.maxLocals →
      f.stack = [] → z.calls.push f = .ok c → Change D z { z with calls := c }
  | ret {z : Machine} {f : Frame} {c : CallStack} : z.calls.pop = .ok (f, c) →
      Change D z { z with calls := c }
  | reset (z : Machine) : Change D z z.reset
  | reload (z : Machine) : Change D z { z with memory := z.story.restartedMemory z.memory }
  | restore {z : Machine} {d : Snapshot} : D d → d.check z.story z.memory.size = .ok () →
      Change D z (reached (restore d z))

/-- Any number of elementary changes, one after the other. -/
abbrev Changes (D : Snapshot → Prop) : Machine → Machine → Prop := ReflTransGen (Change D)

variable {D : Snapshot → Prop} {ε α : Type}

/-- What every elementary change keeps is kept by any number of them. -/
theorem Changes.keep {P : Machine → Prop} (hP : ∀ z w, Change D z w → P z → P w) {z w : Machine}
    (h : Changes D z w) (hz : P z) : P w := by
  induction h with
  | refl => exact hz
  | tail _ hc ih => exact hP _ _ hc ih

theorem Moves.changes {z w : Machine} (h : Moves z w) : Changes D z w :=
  ReflTransGen.mono (fun _ _ => Change.move) _ _ h

theorem within_changes {act : EStateM ε Machine α} (h : Within Moves act) :
    Within (Changes D) act := fun z => (h z).changes

/-- Moves stay in the current call, whose frame returns as before. -/
theorem Moves.calls {z w : Machine} (h : Moves z w) :
    w.calls.callers = z.calls.callers ∧ z.calls.current.Near w.calls.current := by
  induction h with
  | refl => exact ⟨rfl, .refl _⟩
  | tail _ hm ih =>
    cases hm with
    | book | write | streams => exact ih
    | frame hf => exact ⟨ih.1, ih.2.trans hf⟩

/-! ## Primitive actions -/

theorem within_look {R : Machine → Machine → Prop} [IsPreorder Machine R]
    (f : Machine → Except Fault α) : Within R (look f) := by
  intro z
  unfold look
  cases f z <;> exact refl z

/-- An edit that writes in the protected view changes memory byte by byte. -/
theorem within_edit {e : Story → Edit α} (h : ∀ s : Story, Within s.protection.Writes (e s)) :
    Within Moves (edit e) := by
  intro z
  have lift : ∀ m, z.story.protection.Writes z.memory m → Moves z { z with memory := m } := by
    intro m hm
    induction hm with
    | refl => exact .refl
    | tail _ hw ih => exact ih.tail (.write hw)
  have hz := h z.story z.memory
  unfold edit
  cases he : e z.story z.memory with
  | ok a m => rw [he] at hz; simpa only [he, reached_ok] using lift m hz
  | error fault m => rw [he] at hz; simpa only [he, reached_error] using lift m hz

theorem within_onFrame {g : Frame → Except Fault (α × Frame)}
    (h : ∀ f a f', g f = .ok (a, f') → f.Near f') : Within Moves (onFrame g) := by
  intro z
  unfold onFrame
  cases hg : g z.calls.current with
  | ok r => exact .single (.frame (h _ _ _ hg))
  | error fault => exact .refl

theorem near_of_setFrame {g : Frame → Except Fault Frame} (h : ∀ f f', g f = .ok f' → f.Near f')
    (f : Frame) (a : Unit) (f' : Frame)
    (hg : (do return ((), ← g f) : Except Fault (Unit × Frame)) = .ok (a, f')) : f.Near f' := by
  refine h f f' ?_
  cases hf : g f with
  | ok f'' => rw [hf] at hg; cases hg; rfl
  | error fault => rw [hf] at hg; cases hg

theorem within_book {g : Machine → Machine}
    (h : ∀ z : Machine, g z = { z with
      pc := (g z).pc, state := (g z).state, pendingRead := (g z).pendingRead, last := (g z).last,
      random := (g z).random, input := (g z).input, output := (g z).output, log := (g z).log }) :
    Within Moves (modify g : EStateM ε Machine PUnit) := by
  refine Within.modify fun z => ?_
  rw [h z]
  exact .single (.book ..)

theorem within_send (call : OutputCall) : Within Moves (send call) :=
  within_book fun _ => rfl

theorem within_addLog (entry : LogEntry) : Within Moves (addLog entry) :=
  within_book fun _ => rfl

theorem within_writeByte (a : Address) (v : UInt8) : Within Moves (writeByte a v) :=
  within_edit fun s => s.protection.within_writeByte a v

theorem within_writeWord (a : Address) (w : UInt16) : Within Moves (writeWord a w) :=
  within_edit fun s => s.protection.within_writeWord a w

/-! ## Frames -/

theorem near_of_push {f g : Frame} {v : UInt16} (h : f.push v = .ok g) : f.Near g := by
  unfold Frame.push at h
  split at h
  · cases h
  · cases h
    exact ⟨rfl, fun _ => by simp; omega, rfl, rfl⟩

theorem near_of_pop {f g : Frame} {v : UInt16} (h : f.pop = .ok (v, g)) : f.Near g := by
  unfold Frame.pop at h
  split at h
  · cases h
  · rename_i hs
    cases h
    exact ⟨rfl, fun hf => by rw [hs] at hf; simp at hf ⊢; omega, rfl, rfl⟩

theorem near_of_setTop {f g : Frame} {v : UInt16} (h : f.setTop v = .ok g) : f.Near g := by
  unfold Frame.setTop at h
  split at h
  · cases h
  · rename_i hs
    cases h
    exact ⟨rfl, fun hf => by rw [hs] at hf; simpa using hf, rfl, rfl⟩

theorem near_of_setLocal {f g : Frame} {n : UInt8} {v : UInt16} (h : f.setLocal n v = .ok g) :
    f.Near g := by
  unfold Frame.setLocal at h
  cases hc : f.checkLocal n with
  | error fault => rw [hc] at h; cases h
  | ok =>
    rw [hc] at h
    cases h
    rw [Frame.putLocal_eq]
    exact ⟨List.length_set, id, rfl, rfl⟩

/-! ## Printing and streams -/

/-- An edit changes memory only. -/
theorem eq_of_edit {e : Story → Edit α} {z w : Machine} {a : α} (h : edit e z = .ok a w) :
    w = { z with memory := w.memory } := by
  unfold edit at h
  cases he : e z.story z.memory with
  | ok b m => simp only [he] at h; cases h; rfl
  | error fault m => simp only [he] at h; cases h

theorem within_printToTable (text : List Char) : Within Moves (printToTable text) := by
  induction text with
  | nil => exact .pure _
  | cons c text ih =>
    refine .bind_get fun z => ?_
    cases ht : z.streams.tables with
    | nil => exact .refl
    | cons t outer =>
      refine reached_bind (within_writeByte _ _ z) fun _ w hw => ?_
      -- the write has not touched the tables, so the new list is as long as the old one
      have hst : w.streams = z.streams := by rw [eq_of_edit hw]
      refine reached_bind (.single (.streams fun h => ?_)) fun _ u _ => ih u
      rw [hst, ht] at h
      simpa using h

theorem within_print (text : List Char) : Within Moves (print text) := by
  refine .bind_get fun z => ?_
  show Moves z (reached ((if z.streams.tables.isEmpty then _ else _ : Run Unit) z))
  split
  · split
    · exact within_book (fun _ => rfl) z
    · exact .refl
  · exact within_printToTable text z

theorem within_selectTable (table : Address) : Within Moves (selectTable table) := by
  refine .bind_get fun z => ?_
  by_cases h : Streams.maxTables ≤ z.streams.tables.length
  · simp only [h, if_true]
    exact .refl
  · simp only [h, if_false]
    exact .single (.streams fun _ => by simp; omega)

theorem within_deselectTable : Within Moves deselectTable := by
  refine .bind_get fun z => ?_
  cases ht : z.streams.tables with
  | nil => exact .refl
  | cons t outer =>
    refine ReflTransGen.trans
      (.single (.streams (s := { z.streams with tables := outer }) fun h => ?_))
      (within_writeWord t.table t.length _)
    rw [ht] at h
    simp at h ⊢
    omega

theorem within_outputStream (number : Int) (table : Option Int) :
    Within Moves (outputStream number table) := by
  unfold outputStream
  split
  · exact .pure _
  split
  · exact Within.modify fun z => .single (.streams id)
  split
  · exact within_edit fun s => s.protection.within_setFlag _ (by decide) (by decide)
  split
  · split
    · exact .throw _
    · exact within_selectTable _
  split
  · exact within_deselectTable
  split
  · exact within_addLog _
  · exact .throw _

/-! ## Reading a line -/

theorem within_writeBytes (bytes : List UInt8) (a : Address) :
    Within Moves (writeBytes a bytes) := by
  induction bytes generalizing a with
  | nil => exact .pure _
  | cons b bytes ih => exact (within_writeByte a b).bind fun _ => ih (a + 1)

theorem within_writeTokens (tokens : List Token) (block : Address) :
    Within Moves (writeTokens block tokens) := by
  induction tokens generalizing block with
  | nil => exact .pure _
  | cons t tokens ih =>
    exact Within.get.bind fun _ => (within_writeWord _ _).bind fun _ =>
      (within_writeByte _ _).bind fun _ => (within_writeByte _ _).bind fun _ => ih (block + 4)

theorem within_completeRead (r : PendingRead) (line : String) :
    Within Moves (completeRead r line) := by
  refine (within_look _).bind fun room => ?_
  dsimp only
  split
  · exact .throw_bind _ _
  exact (within_writeBytes _ _).bind fun _ => (within_look _).bind fun _ => Within.get.bind fun _ =>
    (within_writeByte _ _).bind fun _ => within_writeTokens _ _

theorem within_resumeRead (r : PendingRead) : Within Moves (resumeRead r) := by
  refine Within.get.bind fun z => ?_
  cases z.input.read? with
  | none => exact .pure _
  | some taken =>
    exact (within_book fun _ => rfl).bind fun _ => (within_completeRead r taken.1).bind fun _ =>
      within_book fun _ => rfl

end Machine

end ZCode
