/-
  Restoring what was saved.

  * `Machine.Alike` says that two machines have the same story, frames and program counter, and memory
    that differs in the session's bits at most.  Going on behind an instruction cannot tell such
    machines apart (`respects_follow`).
  * `Snapshot.parse_render_taken`: a written snapshot is read back as it was, and no other one is
    written like it.
  * A snapshot of a machine within its bounds is accepted wherever its story runs
    (`accepts_snapshot`), and brings back a machine that is alike (`alike_restore`).
  * `Session.step_restore_of_step_save`: a restore of what a save wrote leads to where the save led.
-/
import ZCode.Proofs.Bounds
import ZCode.Proofs.Decode
import ZCode.Proofs.Snapshot

namespace ZCode

/-! ## The session's bits -/

namespace Memory

/-- The transcript and fixed pitch bits, which belong to the session. -/
def sessionMask (n : Nat) : UInt8 := if n = flags2At then flags2Mask else 0

theorem sessionMask_of_ne {n : Nat} (h : n ≠ flags2At) : sessionMask n = 0 := if_neg h

theorem EqOutside.put_put {loose : Nat → UInt8} {m m' : Memory} (h : m.EqOutside loose m') (n : Nat)
    (v : UInt8) : (m.put n v).EqOutside loose (m'.put n v) := by
  refine ⟨by simpa using h.size, fun k => ?_⟩
  rw [get_put, get_put, h.size]
  split
  · rfl
  · exact h.get k

theorem EqOutside.putWord {loose : Nat → UInt8} {m m' : Memory} (h : m.EqOutside loose m') (n : Nat)
    (w : UInt16) : (m.putWord n w).EqOutside loose (m'.putWord n w) :=
  (h.put_put n _).put_put (n + 1) _

end Memory

namespace Protection

open Memory

variable {m m' : Memory}

/-- Whether a byte may be written does not depend on the session's bits. -/
theorem checkWrite_congr (h : m.EqOutside sessionMask m') (p : Protection) (a : Address) (v : UInt8) :
    p.checkWrite m a v = p.checkWrite m' a v := by
  have hallows : headerAllows a (m.get a.toNat) v = headerAllows a (m'.get a.toNat) v := by
    by_cases ha : a.toNat = flags2At
    · obtain rfl : a = 0x11 := UInt32.toNat_inj.1 ha
      have hget := h.get 0x11
      have hiff : ∀ old : UInt8, headerAllows 0x11 old v = true ↔
          old &&& ~~~flags2Mask = v &&& ~~~flags2Mask := by
        intro old
        rw [← xor_and_eq_zero_iff]
        simp [headerAllows]
      rw [Bool.eq_iff_iff, hiff, hiff]
      exact hget ▸ Iff.rfl
    · rw [h.get_eq (sessionMask_of_ne ha)]
  simp only [checkWrite, byte_eq, h.size]
  by_cases hs : a.toNat < m'.size <;> simp [hs, bind, Except.bind, hallows]

theorem respects_writeByte (p : Protection) (a : Address) (v : UInt8) :
    Respects (EqOutside sessionMask) (p.writeByte a v) := by
  intro m m' h
  rw [writeByte_eq, writeByte_eq, checkWrite_congr h]
  split
  · rw [setByte_eq, setByte_eq, h.size]
    split
    · exact .ok _ (h.put_put _ v)
    · exact .error _ h
  · exact .error _ h

theorem respects_writeWord (p : Protection) (a : Address) (w : UInt16) :
    Respects (EqOutside sessionMask) (p.writeWord a w) := by
  intro m m' h
  rw [writeWord_eq, writeWord_eq, checkWrite_congr h, checkWrite_congr h]
  split
  · exact .error _ h
  · exact .error _ h
  · rw [setWord_eq, setWord_eq, h.size]
    split
    · exact .ok _ (h.putWord _ w)
    · exact .error _ h

end Protection

namespace Machine

/-! ## Machines that are alike -/

/-- The machines differ in the session's bits of memory, and in what they print, log and expect. -/
structure Alike (z w : Machine) : Prop where
  story : z.story = w.story
  calls : z.calls = w.calls
  pc : z.pc = w.pc
  memory : z.memory.EqOutside Memory.sessionMask w.memory

theorem respects_setPc (a : Address) : Respects Alike (setPc a) :=
  .modify fun _ _ h => ⟨h.story, h.calls, rfl, h.memory⟩

theorem respects_setFrame (f : Frame → Except Fault Frame) : Respects Alike (setFrame f) := by
  intro z w h
  unfold setFrame onFrame
  rw [h.calls]
  split
  · exact .ok _ ⟨h.story, rfl, h.pc, h.memory⟩
  · exact .error _ h

theorem respects_edit {α : Type} {e : Story → Edit α}
    (he : ∀ s, Respects (Memory.EqOutside Memory.sessionMask) (e s)) : Respects Alike (edit e) := by
  intro z w h
  have hr := he w.story _ _ h.memory
  unfold edit
  rw [h.story]
  dsimp only
  generalize e w.story z.memory = r at hr
  generalize e w.story w.memory = r' at hr
  cases hr with
  | ok a hm => exact .ok a ⟨rfl, h.calls, h.pc, hm⟩
  | error fault hm => exact .error fault ⟨rfl, h.calls, h.pc, hm⟩

theorem respects_setVariable (v : UInt8) (value : UInt16) :
    Respects Alike (setVariable v value) := by
  unfold setVariable
  split
  · exact respects_setFrame _
  split
  · exact respects_setFrame _
  · exact respects_edit fun s => s.protection.respects_writeWord _ _

theorem respects_look_calls {α : Type} (f : CallStack → Except Fault α) :
    Respects Alike (look fun z => f z.calls) := by
  intro z w h
  unfold look
  dsimp only
  rw [h.calls]
  split
  · exact .ok _ h
  · exact .error _ h

theorem respects_leave (value : UInt16) : Respects Alike (leave value) := by
  refine (respects_look_calls CallStack.pop).bind fun popped => ?_
  refine (Respects.modify fun _ _ h => ⟨h.story, rfl, rfl, h.memory⟩).bind fun _ => ?_
  cases popped.1.store with
  | none => exact .pure _
  | some v => exact respects_setVariable v value

/-- **Going on behind an instruction does not tell machines apart that are alike.** -/
theorem respects_follow (flow : Flow) : Respects Alike (follow flow) := by
  cases flow with
  | next a => exact respects_setPc a
  | jump base offset => exact respects_setPc _
  | ret value => exact respects_leave value

end Machine

/-! ## Snapshots of machines -/

theorem Snapshot.getD_nonempty (values : List UInt16) : (nonempty values).getD [] = values := by
  cases values <;> rfl

theorem SavedFrame.toFrame_ofFrame (f : Frame) : (ofFrame f).toFrame = f := by
  obtain ⟨locals, stack, returnTo, store⟩ := f
  have hstore : (store.map fun v => (v.toNat : Int)).map UInt8.ofInt = store := by
    cases store with
    | none => rfl
    | some v =>
      have hlt := v.toNat_lt
      have hmod : ((v.toNat : Int) % 2 ^ 8).toNat = v.toNat := by omega
      simp only [Option.map_some, UInt8.ofInt, hmod, UInt8.ofNat_toNat]
  simp only [ofFrame, toFrame, Snapshot.getD_nonempty, List.reverse_reverse, hstore]

theorem Frame.Bounded.valid {f : Frame} (h : f.Bounded) : (SavedFrame.ofFrame f).Valid := by
  refine ⟨?_, ?_, ?_⟩
  · simpa [SavedFrame.ofFrame, Snapshot.getD_nonempty] using h.locals
  · simpa [SavedFrame.ofFrame, Snapshot.getD_nonempty] using h.stack
  · intro n hn
    obtain ⟨v, -, rfl⟩ := Option.map_eq_some_iff.1 hn
    have := v.toNat_lt
    omega

theorem CallStack.ofFrames_frames (c : CallStack) : ofFrames c.frames = c := by
  simp [ofFrames, frames]

namespace Snapshot

/-- The snapshot that is taken of these parts. -/
def taken (checksum : String) (m : Memory) (frames : List Frame) (pc : Address) : Snapshot :=
  { version := formatVersion, checksum, memory := some m,
    frames := some (frames.map SavedFrame.ofFrame), pc }

section
variable (checksum : String) (m : Memory) (frames : List Frame) (pc : Address)

theorem narrow_taken : (taken checksum m frames pc).Narrow := by
  have hversion : Signed64 formatVersion := ⟨by decide, by decide⟩
  refine ⟨hversion, ?_⟩
  rintro _ ⟨⟩ f hf n hn
  obtain ⟨frame, -, rfl⟩ := List.mem_map.1 hf
  obtain ⟨v, -, rfl⟩ := Option.map_eq_some_iff.1 hn
  have := v.toNat_lt
  exact ⟨by omega, by omega⟩

theorem map_toFrame_taken :
    ((taken checksum m frames pc).frames.getD []).map SavedFrame.toFrame = frames := by
  simp only [taken, Option.getD_some, List.map_map, Function.comp_def, SavedFrame.toFrame_ofFrame,
    List.map_id_fun', id_eq]

theorem parse_taken :
    parse (taken checksum m frames pc).render.toList = .ok (taken checksum m frames pc) :=
  parse_render (narrow_taken checksum m frames pc)

end

/-- What is written alike was taken of the same parts. -/
theorem taken_of_render_eq {checksum checksum' : String} {m m' : Memory} {frames frames' : List Frame}
    {pc pc' : Address}
    (h : (taken checksum m frames pc).render = (taken checksum' m' frames' pc').render) :
    checksum = checksum' ∧ m = m' ∧ frames = frames' ∧ pc = pc' := by
  have hparse := parse_taken checksum m frames pc
  rw [h, parse_taken] at hparse
  have hsame : taken checksum' m' frames' pc' = taken checksum m frames pc := Except.ok.inj hparse
  have hmemory : some m' = some m := congrArg Snapshot.memory hsame
  have hframes := congrArg (fun d => (d.frames.getD []).map SavedFrame.toFrame) hsame
  simp only [map_toFrame_taken] at hframes
  exact ⟨(congrArg Snapshot.checksum hsame).symm, (Option.some.inj hmemory).symm, hframes.symm,
    (congrArg Snapshot.pc hsame).symm⟩

theorem listJson_nonempty_eq_null {toJson : UInt16 → Json} {values : List UInt16} :
    listJson toJson (nonempty values) = .null ↔ values = [] := by
  cases values <;> simp [nonempty, listJson, orNull]

end Snapshot

namespace Machine

variable {story : Story}

theorem snapshot_eq (z : Machine) : z.snapshot =
    .taken (Snapshot.checksumText z.story.checksum) z.memory z.calls.frames z.pc := rfl

/-- The frames of a snapshot are those of the machine. -/
theorem ofFrames_snapshot (z : Machine) :
    CallStack.ofFrames ((z.snapshot.frames.getD []).map SavedFrame.toFrame) = z.calls := by
  rw [snapshot_eq, Snapshot.map_toFrame_taken, CallStack.ofFrames_frames]

/-- What is taken of a machine within its bounds, with any memory of its size, is accepted wherever its
story runs. -/
theorem Bounded.accepts_taken {z w : Machine} (hz : Bounded story z) (hw : Bounded story w)
    {m : Memory} (hm : m.size = z.memory.size) (hpc : z.pc.toNat < z.memory.size) :
    w.accepts (.taken (Snapshot.checksumText z.story.checksum) m z.calls.frames z.pc) := by
  refine Snapshot.check_eq_ok_iff.2 ⟨rfl, ?_, ?_, ?_, ?_, ?_, ?_⟩
  · rw [hw.runs, ← hz.runs]
    rfl
  · exact hm.trans (hz.size.trans hw.size.symm)
  · simp [Snapshot.taken, CallStack.frames]
  · simpa [Snapshot.taken] using hz.calls.atMost
  · intro f hf
    obtain ⟨frame, hframe, rfl⟩ := List.mem_map.1 hf
    exact (hz.calls.each frame hframe).valid
  · rw [hw.size, ← hz.size]
    exact hpc

/-- **A snapshot of a machine within its bounds is accepted wherever its story runs.** -/
theorem Bounded.accepts_snapshot {z w : Machine} (hz : Bounded story z) (hw : Bounded story w)
    (hpc : z.pc.toNat < z.memory.size) : w.accepts z.snapshot :=
  hz.accepts_taken hw rfl hpc

/-- Restoring a snapshot brings back a machine that is alike. -/
theorem alike_restore {z w : Machine} (hs : z.story = w.story) (ha : w.accepts z.snapshot) :
    Alike z (reached (restore z.snapshot w)) := by
  rw [restore_eq, ha]
  exact ⟨hs, z.ofFrames_snapshot.symm, rfl, Memory.eqOutside_withSessionBits rfl z.memory w.memory⟩

end Machine

/-- **A written snapshot is read back as it was, and no other snapshot is written like it.**  The parts
may be any memory, frames and program counter.  A frame's locals or stack entries are written as null
if there are none, and come back empty. -/
theorem Snapshot.parse_render_taken :
    (∀ z : Machine, z.snapshot =
      taken (checksumText z.story.checksum) z.memory z.calls.frames z.pc) ∧
    ∀ (checksum : String) (m : Memory) (frames : List Frame) (pc : Address),
      let d := taken checksum m frames pc
      parse d.render.toList = .ok d ∧
      (d.frames.getD []).map SavedFrame.toFrame = frames ∧
      (∀ f ∈ frames, ∃ fields, frameJson (SavedFrame.ofFrame f) = .object fields ∧
        (("locals".toList, Json.null) ∈ fields ↔ f.locals = []) ∧
        (("stack".toList, Json.null) ∈ fields ↔ f.stack = [])) ∧
      ∀ (checksum' : String) (m' : Memory) (frames' : List Frame) (pc' : Address),
        (taken checksum' m' frames' pc').render = d.render →
        checksum' = checksum ∧ m' = m ∧ frames' = frames ∧ pc' = pc := by
  refine ⟨Machine.snapshot_eq, fun checksum m frames pc => ⟨parse_taken checksum m frames pc,
    map_toFrame_taken checksum m frames pc, fun f _ => ⟨_, rfl, ?_, ?_⟩, ?_⟩⟩
  · simp [SavedFrame.ofFrame, eq_comm (a := Json.null), listJson_nonempty_eq_null]
  · simp [SavedFrame.ofFrame, eq_comm (a := Json.null), listJson_nonempty_eq_null]
  · exact fun checksum' m' frames' pc' h => taken_of_render_eq h

namespace Machine

/-! ## Steps that save and restore -/

theorem orHalt_ok {α : Type} {act : Run α} {z w : Machine} {a : α} (h : act z = .ok a w) :
    orHalt act z = .ok a w := by
  simp [orHalt, EStateM.adaptExcept, h]

theorem located_ok {α : Type} {pc : Address} {act : EStateM Halt Machine α} {z w : Machine} {a : α}
    (h : act z = .ok a w) : located pc act z = .ok a w := by
  simp [located, h]

/-- The machine runs, and `i` is its next instruction. -/
structure Next (z : Machine) (i : Instruction) : Prop where
  running : z.phase = .running
  decodes : Instruction.decode z.story.script z.memory z.pc = .ok i

theorem Next.pc_lt {z : Machine} {i : Instruction} (h : z.Next i) : z.pc.toNat < z.memory.size := by
  obtain ⟨opcode, -, -, -, hbyte, -⟩ := Instruction.decode_ok_iff.1 h.decodes
  exact (Memory.lt_size_of_byte hbyte).1

section
variable {z : Machine} {i : Instruction} {answers : Answers}

/-- An instruction that only asks for something does not get further than that. -/
theorem advance_request {action : Action} {request : StoreRequest} (hi : z.Next i)
    (hexecute : execute i = pure action) (hrequest : apply action = pure (some request)) :
    advance z = .ok (some request) (z.fetched z.pc i) := by
  rw [advance_running hi.running]
  have hfetch : fetch z.pc z = .ok i (z.fetched z.pc i) := by rw [fetch_eq, hi.decodes]
  apply located_ok
  rw [bind_ok (orHalt_ok hfetch), hexecute]
  show apply action (z.fetched z.pc i) = _
  rw [hrequest]
  rfl

theorem execute_of_nil (h : i.operands = []) : execute i = perform i [] := by
  unfold execute
  rw [h]
  rfl

theorem advance_save (hi : z.Next i) (hop : i.op = .save) :
    advance z = .ok (some (.save i)) (z.fetched z.pc i) := by
  have hexecute : execute i = pure (.save i) := by
    rw [execute_of_nil (Instruction.operands_of_save hi.decodes (.inl hop))]
    simp only [perform, performOn, hop]
  exact advance_request hi hexecute rfl

theorem advance_restore (hi : z.Next i) (hop : i.op = .restore) :
    advance z = .ok (some (.restore i)) (z.fetched z.pc i) := by
  have hexecute : execute i = pure (.restore i) := by
    rw [execute_of_nil (Instruction.operands_of_save hi.decodes (.inr hop))]
    simp only [perform, performOn, hop]
  exact advance_request hi hexecute rfl

/-- A save that succeeds goes where its branch leads. -/
theorem step_save (hi : z.Next i) (hop : i.op = .save) (ha : answers.save = .ok ()) :
    step answers z = located i.address (orHalt (follow (i.branchOn true))) (z.fetched z.pc i) := by
  unfold step
  rw [bind_ok (advance_save hi hop)]
  dsimp only
  rw [ha]
  rfl

/-- A save that fails goes where its branch leads otherwise. -/
theorem step_unsaved (hi : z.Next i) (hop : i.op = .save) {cause : StoreFailure}
    (ha : answers.save = .error cause) :
    step answers z = located i.address (orHalt (follow (i.branchOn false))) (reached
      (addLog (if cause = .noStore then .noSaveStore else .saveFailed cause) (z.fetched z.pc i))) := by
  unfold step
  rw [bind_ok (advance_save hi hop)]
  dsimp only
  rw [ha]
  rfl

/-- A restore that fails goes where its own branch leads. -/
theorem step_unrestored (hi : z.Next i) (hop : i.op = .restore) {cause : StoreFailure}
    (ha : restoreAnswer answers.restore (z.fetched z.pc i) = .error cause) :
    step answers z = located i.address (orHalt (follow (i.branchOn false))) (reached
      (addLog (.restoreFailed cause) (z.fetched z.pc i))) := by
  unfold step
  rw [bind_ok (advance_restore hi hop)]
  show located i.address _ (z.fetched z.pc i) = _
  unfold located
  rw [get_bind, ha]
  rfl

/-- A restore of a snapshot that is accepted goes on at the save that took it. -/
theorem step_restore (hi : z.Next i) (hop : i.op = .restore) {d : Snapshot}
    (hd : loadAnswer answers.restore = .ok d) (ha : z.accepts d) :
    step answers z = located i.address (orHalt resumeAtSave)
      (reached (restore d (z.fetched z.pc i))) := by
  have hrestore : restore d (z.fetched z.pc i) = .ok () (reached (restore d (z.fetched z.pc i))) := by
    have ha' : d.check (z.fetched z.pc i).story (z.fetched z.pc i).memory.size = .ok () := ha
    rw [restore_eq, ha']
    rfl
  have hanswer : restoreAnswer answers.restore (z.fetched z.pc i) =
      .ok (reached (restore d (z.fetched z.pc i))) := by
    unfold restoreAnswer
    rw [hd]
    simp only [bind, Except.bind]
    rw [hrestore]
    rfl
  unfold step
  rw [bind_ok (advance_restore hi hop)]
  show located i.address _ (z.fetched z.pc i) = _
  unfold located
  rw [get_bind, hanswer]
  rfl

theorem loadAnswer_ok (chars : List Char) :
    loadAnswer (.ok chars) = (Snapshot.parse chars).mapError .rejected := rfl

theorem loadAnswer_snapshot (z : Machine) :
    loadAnswer (.ok z.snapshot.render.toList) = .ok z.snapshot := by
  rw [loadAnswer_ok, snapshot_eq, Snapshot.parse_taken]
  rfl

theorem resumeAtSave_of_decode (hi : Instruction.decode z.story.script z.memory z.pc = .ok i) :
    resumeAtSave z =
      if i.branch.isNone then .error (.machine (.notASave z.pc i.op.info.name)) z
      else follow (i.branchOn true) { z with last := some i } := by
  have hlook : look (fun z => (Instruction.decode z.story.script z.memory z.pc).mapError
      Fault.restoredSave) z = .ok i z := by
    simp only [look, hi]
    rfl
  unfold resumeAtSave
  rw [bind_ok hlook]
  dsimp only
  split <;> rfl

theorem resumeAtSave_eq (hi : Instruction.decode z.story.script z.memory z.pc = .ok i)
    (hb : i.branch.isSome = true) :
    resumeAtSave z = follow (i.branchOn true) { z with last := some i } := by
  rw [resumeAtSave_of_decode hi, if_neg (by simpa using Option.isSome_iff_ne_none.1 hb)]

end

end Machine

/-! ## How a step ends -/

/-- Why a step stopped, wherever that was. -/
def Stop.halt : Stop → Halt
  | .quit => .quit
  | .restart => .restart
  | .fault _ _ cause => .fault cause

/-- Why a step stopped, if it did. -/
def halt? {σ α : Type} : EStateM.Result Stop σ α → Option Halt
  | .ok .. => none
  | .error stop _ => some stop.halt

namespace Machine

theorem halt?_located {act act' : Run Unit} {z w : Machine} (h : Related Alike (act z) (act' w))
    (pc pc' : Address) :
    halt? (located pc (orHalt act) z) = halt? (located pc' (orHalt act') w) := by
  unfold located orHalt EStateM.adaptExcept
  generalize act z = r at h
  generalize act' w = r' at h
  cases h <;> rfl

theorem alike_located {act act' : Run Unit} {z w : Machine} (h : Related Alike (act z) (act' w))
    (pc pc' : Address) :
    Alike (reached (located pc (orHalt act) z)) (reached (located pc' (orHalt act') w)) := by
  rw [reached_located, reached_located, reached_orHalt, reached_orHalt]
  exact h.reached

/-- Where a restored snapshot goes on, its save is found again. -/
theorem related_resumeAtSave {z w : Machine} {i : Instruction} (h : Alike z w)
    (hi : Instruction.decode z.story.script z.memory z.pc = .ok i) (hop : i.op = .save)
    (hfree : ¬ i.Occupies Memory.flags2At) :
    Related Alike (follow (i.branchOn true) (z.fetched z.pc i)) (resumeAtSave w) := by
  have hbyte (x : Address) (hx : x.toNat ≠ Memory.flags2At) : w.memory.byte x = z.memory.byte x := by
    rw [Memory.byte_eq, Memory.byte_eq, h.memory.size, h.memory.get_eq (Memory.sessionMask_of_ne hx)]
  have hdecode : Instruction.decode w.story.script w.memory w.pc = .ok i := by
    rw [← h.story, ← h.pc]
    exact Instruction.decode_save_congr hi hop (by decide) (by decide) hfree hbyte
  have hbranch : i.branch.isSome = true := by
    rw [(Instruction.decode_complete hi).branch, hop]
    rfl
  rw [resumeAtSave_eq hdecode hbranch]
  exact respects_follow _ _ _ ⟨h.story, h.calls, h.pc, h.memory⟩

/-- A snapshot of a machine within its bounds is restored wherever its story asks for it. -/
theorem restoresInStep_snapshot {story : Story} {z w : Machine} {j : Instruction} {answers : Answers}
    (hz : Bounded story z) (hpc : z.pc.toNat < z.memory.size) (hw : Bounded story w) (hj : w.Next j)
    (hrestore : j.op = .restore) (hdata : answers.restore = .ok z.snapshot.render.toList) :
    RestoresInStep answers w z.snapshot := by
  have haccepts : w.accepts z.snapshot := hz.accepts_snapshot hw hpc
  have hload : loadAnswer answers.restore = .ok z.snapshot := by rw [hdata, loadAnswer_snapshot]
  exact ⟨j, _, advance_restore hj hrestore, hload, haccepts⟩

/-- A restore of the snapshot that a save takes ends as the save does, in a machine that is alike. -/
theorem step_restore_alike {story : Story} {z w : Machine} {i j : Instruction}
    {saving restoring : Answers} (hz : Bounded story z) (hi : z.Next i) (hsave : i.op = .save)
    (hfree : ¬ i.Occupies Memory.flags2At) (hsaved : saving.save = .ok ())
    (hw : Bounded story w) (hj : w.Next j) (hrestore : j.op = .restore)
    (hdata : restoring.restore = .ok z.snapshot.render.toList) :
    RestoresInStep restoring w z.snapshot ∧
      Alike (reached (step saving z)) (reached (step restoring w)) ∧
      halt? (step restoring w) = halt? (step saving z) := by
  have haccepts : w.accepts z.snapshot := hz.accepts_snapshot hw hi.pc_lt
  have hload : loadAnswer restoring.restore = .ok z.snapshot := by rw [hdata, loadAnswer_snapshot]
  have hstory : z.story = (w.fetched w.pc j).story := hz.runs.trans hw.runs.symm
  have hrelated : Related Alike (follow (i.branchOn true) (z.fetched z.pc i))
      (resumeAtSave (reached (restore z.snapshot (w.fetched w.pc j)))) :=
    related_resumeAtSave (alike_restore hstory haccepts) hi.decodes hsave hfree
  rw [step_save hi hsave hsaved, step_restore hj hrestore hload haccepts]
  refine ⟨restoresInStep_snapshot hz hi.pc_lt hw hj hrestore hdata, alike_located hrelated _ _, ?_⟩
  exact (halt?_located hrelated _ _).symm

end Machine

namespace Session

open Machine

/-- What the store of the session keeps. -/
def kept (s : Session) : Option String := s.store.bind (·.data)

theorem machine_reached_step (s : Session) :
    (reached (step s)).machine = reached (Machine.step s.answers s.machine) := by
  rw [← machine_step]
  cases step s <;> rfl

theorem reachable_step {story : Story} {s : Session} (h : Reachable story s.machine) :
    Reachable story (reached (step s)).machine := by
  rw [machine_reached_step]
  exact h.call (.step s.answers)

theorem halt?_step (s : Session) : halt? (step s) = halt? (Machine.step s.answers s.machine) := by
  rw [← machine_step]
  cases step s <;> rfl

theorem store_onMachine {ε α : Type} (act : EStateM ε Machine α) (s : Session) :
    (reached (onMachine act s)).store = s.store := by
  unfold onMachine
  cases act s.machine <;> rfl

theorem store_of_save {s : Session} (h : s.answers.save = .ok ()) :
    ∃ cell, s.store = some cell ∧ cell.saveError = none := by
  obtain ⟨z, _ | ⟨data, _ | reason, restoreError⟩⟩ := s
  · cases h
  · exact ⟨_, rfl, rfl⟩
  · cases h

/-- A save that succeeds leaves its snapshot in the store. -/
theorem kept_step_save {s : Session} {i : Instruction} (hi : s.machine.Next i) (hop : i.op = .save)
    (hsaved : s.answers.save = .ok ()) :
    (reached (step s)).kept = some s.machine.snapshot.render := by
  obtain ⟨cell, hcell, herror⟩ := store_of_save hsaved
  obtain ⟨z, store⟩ := s
  obtain rfl : store = some cell := hcell
  have hadvance : onMachine advance ⟨z, some cell⟩ =
      .ok (some (.save i)) ⟨z.fetched z.pc i, some cell⟩ := by
    unfold onMachine
    rw [advance_save hi hop]
  have hstore : saveToStore z.snapshot.render ⟨z.fetched z.pc i, some cell⟩ =
      .ok (.ok ()) ⟨z.fetched z.pc i, some { cell with data := some z.snapshot.render }⟩ := by
    obtain ⟨data, saveError, restoreError⟩ := cell
    obtain rfl : saveError = none := herror
    rfl
  unfold step
  rw [bind_ok hadvance]
  show (reached ((saveToStore z.snapshot.render >>= fun answer => onMachine (answerSave i answer))
    ⟨z.fetched z.pc i, some cell⟩)).kept = _
  rw [bind_ok hstore, kept, store_onMachine]
  rfl

theorem restore_of_kept {s : Session} {data : String} (h : s.kept = some data)
    (hr : s.store.map (·.restoreError) = some none) : s.answers.restore = .ok data.toList := by
  obtain ⟨z, _ | ⟨kept, saveError, _ | reason⟩⟩ := s
  · cases h
  · obtain rfl : kept = some data := h
    rfl
  · cases hr

/-- **A restore of what a save wrote leads to where the save led.**  Whatever has happened to the
story since, the snapshot is accepted, and the restore ends with the program counter, the frames and
the memory of the step that saved, except for the session's bits, and with the same fault if there
was one. -/
theorem step_restore_of_step_save {story : Story} {s : Session} {i : Instruction}
    (hs : Reachable story s.machine) (hi : s.machine.Next i) (hsave : i.op = .save)
    (hfree : ¬ i.Occupies 0x11) (hsaved : s.answers.save = .ok ()) :
    ∃ data, (reached (step s)).kept = some data ∧
      ∀ (t : Session) (j : Instruction), Reachable story t.machine → t.machine.Next j →
        j.op = .restore → t.answers.restore = .ok data.toList →
        let saved := (reached (step s)).machine
        let restored := (reached (step t)).machine
        RestoresInStep t.answers t.machine s.machine.snapshot ∧ restored.pc = saved.pc ∧
          restored.calls = saved.calls ∧
          saved.memory.EqOutside Memory.sessionMask restored.memory ∧
          halt? (step t) = halt? (step s) := by
  refine ⟨_, kept_step_save hi hsave hsaved, fun t j ht hj hrestore hdata => ?_⟩
  obtain ⟨hrestores, halike, hhalt⟩ := step_restore_alike hs.bounded hi hsave hfree hsaved
    ht.bounded hj hrestore hdata
  rw [machine_reached_step, machine_reached_step, halt?_step, halt?_step]
  exact ⟨hrestores, halike.pc.symm, halike.calls.symm, halike.memory, hhalt⟩

/-- The small story saves, its host turns the transcript on, and the story restores. -/
theorem step_restore_of_step_save_small :
    let s : Session :=
      ⟨{ Machine.start smallStory (Random.ofEntropy 1) with tracing := false }, some {}⟩
    let u := reached (step s)
    let t : Session := { u with machine := (HostCall.setTranscripting true).run u.machine }
    RestoresInStep t.answers t.machine s.machine.snapshot ∧
      (reached (step t)).machine.pc = u.machine.pc ∧
      (reached (step t)).machine.calls = u.machine.calls ∧
      u.machine.memory.EqOutside Memory.sessionMask (reached (step t)).machine.memory ∧
      halt? (step t) = halt? (step s) := by
  intro s u t
  have hs : Reachable smallStory s.machine := .start _ false
  have hu : Reachable smallStory u.machine := reachable_step (s := s) hs
  have ht : Reachable smallStory t.machine := by
    clear_value u
    exact hu.call (.setTranscripting true)
  have hi : s.machine.Next ⟨0x68, .short, .zero, 5, .save, [], 0, some ⟨true, 2⟩, [], 0x6A⟩ :=
    ⟨by decide +kernel, by decide +kernel⟩
  have hj : t.machine.Next ⟨0x6A, .short, .zero, 6, .restore, [], 0, some ⟨true, 2⟩, [], 0x6C⟩ :=
    ⟨by decide +kernel, by decide +kernel⟩
  have hstore : t.store.map (·.restoreError) = some none := by decide +kernel
  obtain ⟨data, hkept, hrestore⟩ := step_restore_of_step_save (s := s) hs hi rfl (by decide) rfl
  clear_value s
  exact hrestore t _ ht hj rfl (restore_of_kept hkept hstore)

end Session

end ZCode
