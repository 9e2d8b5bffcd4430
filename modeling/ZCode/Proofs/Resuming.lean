/-
  Where restores resume.

  * A snapshot that fits replaces memory and the frames first, and only then the instruction at its
    program counter is looked at.  That need not be a save: any of `Op.branching` will do.
  * Where it cannot be gone on from (`CannotResume`), what was replaced stays replaced.  The step then
    changes neither memory nor the frames if and only if the snapshot holds them as they are
    (`Restored.unchanged_iff`).
-/
import ZCode.Proofs.Restore

namespace ZCode

/-- The opcodes with a branch. -/
def Op.branching : List Op :=
  [.je, .jl, .jg, .decChk, .incChk, .jin, .testBits, .testAttr, .jz, .getSibling, .getChild, .save,
    .restore, .verify]

theorem Op.branches_iff {op : Op} : op.info.branches = true ↔ op ∈ branching := by
  cases op <;> decide

/-! ## What a snapshot holds -/

theorem and_not_mask_inj {a b mask : UInt8} (hout : a &&& ~~~mask = b &&& ~~~mask)
    (hin : a &&& mask = b &&& mask) : a = b := by
  simp only [← UInt8.toBitVec_inj, BitVec.eq_of_getElem_eq_iff] at *
  intro k hk
  have := hout k hk
  have := hin k hk
  simp at *
  grind

/-- Memories that differ in the session's bits at most do so if these differ. -/
theorem Memory.EqOutside.eq_of_sessionBits {m m' : Memory} (h : m.EqOutside sessionMask m')
    (hbits : m.sessionBits = m'.sessionBits) : m = m' := by
  refine eq_of_get h.size fun n => ?_
  by_cases hn : n = flags2At
  · subst hn
    exact and_not_mask_inj (h.get flags2At) hbits
  · exact h.get_eq (sessionMask_of_ne hn)

theorem SavedFrame.Describes.unique {s : SavedFrame} {f f' : Frame} (h : s.Describes f)
    (h' : s.Describes f') : f = f' := by
  have hstore : f.store = f'.store := by
    have hsame := h.store.trans h'.store.symm
    have hinj : Function.Injective fun v : UInt8 => (v.toNat : Int) := by
      intro v v' hv
      exact UInt8.toNat_inj.1 (Int.ofNat.inj hv)
    exact Option.map_injective hinj hsame
  obtain ⟨locals, stack, returnTo, store⟩ := f
  obtain ⟨locals', stack', returnTo', store'⟩ := f'
  obtain rfl : locals = locals' := h.locals.trans h'.locals.symm
  obtain rfl : stack = stack' := List.reverse_injective (h.stack.trans h'.stack.symm)
  obtain rfl : returnTo = returnTo' := h.returnTo.trans h'.returnTo.symm
  obtain rfl : store = store' := hstore
  rfl

theorem CallStack.frames_injective : Function.Injective CallStack.frames := by
  intro c c' h
  rw [← ofFrames_frames c, h, ofFrames_frames]

namespace Machine

variable {story : Story} {z w : Machine} {d : Snapshot} {i : Instruction}

/-- The snapshot holds memory, up to the session's bits, and the frames as they are. -/
def Held (d : Snapshot) (z : Machine) : Prop :=
  (d.memory.getD default).EqOutside Memory.sessionMask z.memory ∧
    List.Forall₂ SavedFrame.Describes (d.frames.getD []) z.calls.frames

/-- A restore changes neither memory nor the frames if and only if the snapshot holds them. -/
theorem Restored.unchanged_iff (h : Restored d z w) :
    w.memory = z.memory ∧ w.calls = z.calls ↔ Held d z := by
  constructor
  · rintro ⟨hmemory, hcalls⟩
    exact ⟨hmemory ▸ h.memory, hcalls ▸ h.frames⟩
  · rintro ⟨hmemory, hframes⟩
    have hsame : w.memory.EqOutside Memory.sessionMask z.memory := h.memory.symm.trans hmemory
    refine ⟨hsame.eq_of_sessionBits h.sessionBits, CallStack.frames_injective ?_⟩
    have hunique : Relator.RightUnique SavedFrame.Describes := fun _ _ _ h h' => h.unique h'
    exact hunique.forall₂ h.frames hframes

/-! ## Going on -/

/-- Why a restored machine cannot go on: its next instruction cannot be decoded, or has no branch. -/
inductive CannotResume (w : Machine) : Fault → Prop
  | undecoded {fault : Fault} : Instruction.decode w.story.script w.memory w.pc = .error fault →
      CannotResume w (.restoredSave fault)
  | branchless {j : Instruction} : Instruction.decode w.story.script w.memory w.pc = .ok j →
      j.op ∉ Op.branching → CannotResume w (.machine (.notASave w.pc j.op.info.name))

theorem CannotResume.resumeAtSave {fault : Fault} (h : w.CannotResume fault) :
    resumeAtSave w = .error fault w := by
  cases h with
  | undecoded hdecode =>
    refine bind_error ?_
    simp only [look, hdecode, Except.mapError]
  | @branchless j hdecode hop =>
    have hbranch := (Instruction.decode_complete hdecode).branch
    have hnone : j.branch.isNone = true := by
      rw [← Op.branches_iff, ← hbranch] at hop
      simpa using hop
    rw [resumeAtSave_of_decode hdecode, if_pos hnone]

theorem located_fault {α : Type} {pc : Address} {act : Run α} {fault : Fault}
    (h : act z = .error fault w) :
    located pc (orHalt act) z = .error (.fault pc w.lastInstruction fault) w := by
  simp [located, orHalt, EStateM.adaptExcept, h]

/-- The machine goes on from an instruction with a branch, and from no other. -/
theorem resumes_or_not (w : Machine) :
    (∃ j, Instruction.decode w.story.script w.memory w.pc = .ok j ∧ j.op ∈ Op.branching ∧
      resumeAtSave w = follow (j.branchOn true) { w with last := some j }) ∨
    ∃ fault, w.CannotResume fault ∧ resumeAtSave w = .error fault w := by
  cases hdecode : Instruction.decode w.story.script w.memory w.pc with
  | error fault => exact .inr ⟨_, .undecoded hdecode, (CannotResume.undecoded hdecode).resumeAtSave⟩
  | ok j =>
    by_cases hop : j.op ∈ Op.branching
    · refine .inl ⟨j, rfl, hop, resumeAtSave_eq hdecode ?_⟩
      rw [(Instruction.decode_complete hdecode).branch, Op.branches_iff.2 hop]
    · exact .inr ⟨_, .branchless hdecode hop, (CannotResume.branchless hdecode hop).resumeAtSave⟩

/-- What the store gives is unfit if and only if it is no snapshot of the story. -/
theorem unfit_iff {size : Nat} {answer : Except StoreFailure (List Char)} :
    Unfit story size answer ↔ ∀ d, loadAnswer answer = .ok d → ¬ d.Valid story size := by
  constructor
  · rintro (_ | ⟨hparse⟩ | ⟨hparse, hinvalid⟩) d hd
    · cases hd
    · rw [loadAnswer_ok, hparse] at hd
      cases hd
    · rw [loadAnswer_ok, hparse] at hd
      cases hd
      exact hinvalid
  · intro h
    cases answer with
    | error cause => exact .failed cause
    | ok data =>
      cases hparse : Snapshot.parse data with
      | error fault => exact .unread hparse
      | ok d =>
        refine .invalid hparse (h d ?_)
        rw [loadAnswer_ok, hparse]
        rfl

/-- **A restore instruction resumes at any instruction with a branch, and a fault comes after memory
and the frames were replaced.**  In every state that a host can reach, whatever the store gives:

* If that does not fit, the step does nothing but log and take the instruction's own branch.
* If it fits, memory and the frames are replaced.  If the instruction at the program counter of the
  snapshot is then one with a branch, a save or not, that branch is taken as if it had succeeded.
* Otherwise the step faults, with what was replaced.  Memory and the frames are then as they were if and
  only if the snapshot holds them so. -/
theorem restore_step_cases {image : Memory} (hload : Story.load image = .ok story)
    (hz : Reachable story z) (hi : z.Next i) (hop : i.op = .restore) (answers : Answers) :
    (Unfit story image.size answers.restore ∧ OnlyBranches answers z i false) ∨
    ∃ d w, loadAnswer answers.restore = .ok d ∧ d.Valid story image.size ∧
      restore d (z.fetched z.pc i) = .ok () w ∧ Restored d (z.fetched z.pc i) w ∧
      ((∃ j, Instruction.decode story.script w.memory d.pc = .ok j ∧ j.op ∈ Op.branching ∧
          step answers z =
            located i.address (orHalt (follow (j.branchOn true))) { w with last := some j }) ∨
        ∃ fault, w.CannotResume fault ∧
          step answers z = .error (.fault i.address i.render fault) w ∧
          (w.memory = z.memory ∧ w.calls = z.calls ↔ Held d z)) := by
  have hsize : z.memory.size = image.size := by rw [hz.bounded.size, (Story.load_ok hload).1]
  have hflags : Memory.flags2At < z.memory.size := by
    rw [hsize]
    exact Nat.lt_of_lt_of_le (by decide) (Header.read_ok (Story.load_ok hload).2.1).1
  rw [← hsize, ← hz.bounded.runs]
  by_cases hunfit : Unfit z.story z.memory.size answers.restore
  · exact .inl ⟨hunfit, step_restore_branch hi hop hunfit⟩
  right
  obtain ⟨d, hd, hvalid⟩ : ∃ d, loadAnswer answers.restore = .ok d ∧ d.Valid z.story z.memory.size := by
    simpa [unfit_iff] using hunfit
  obtain ⟨w, hw, hrestored⟩ := restore_valid (z := z.fetched z.pc i) hvalid hflags
  have hstep : step answers z = located i.address (orHalt resumeAtSave) w := by
    rw [step_restore hi hop hd (Snapshot.check_eq_ok_iff.2 hvalid), hw]
    rfl
  have hstory : w.story = z.story := by rw [hrestored.rest]; rfl
  refine ⟨d, w, hd, hvalid, hw, hrestored, ?_⟩
  rw [hstep, ← hrestored.pc, ← hstory]
  rcases resumes_or_not w with ⟨j, hdecode, hbranching, hresume⟩ | ⟨fault, hcannot, hresume⟩
  · exact .inl ⟨j, hdecode, hbranching, located_congr (orHalt_congr hresume)⟩
  · refine .inr ⟨fault, hcannot, ?_, hrestored.unchanged_iff⟩
    have hlast : w.lastInstruction = i.render := by rw [hrestored.rest]; rfl
    rw [located_fault hresume, hlast]

/-- The small story at its restore. -/
def beforeRestore : Machine :=
  (HostCall.step ⟨.error .noStore, .error .noStore⟩).run
    { Machine.start smallStory (Random.ofEntropy 1) with tracing := false }

theorem reachable_beforeRestore : Reachable smallStory beforeRestore := .call _ (.start _ false)

theorem next_beforeRestore : beforeRestore.Next
    ⟨0x6A, .short, .zero, 6, .restore, [], 0, some ⟨true, 2⟩, [], 0x6C⟩ :=
  ⟨by decide +kernel, by decide +kernel⟩

/-- What is taken of the machine with another memory. -/
def takenWith (z : Machine) (m : Memory) : Snapshot :=
  .taken (Snapshot.checksumText z.story.checksum) m z.calls.frames z.pc

/-- A store that gives the snapshot, and takes none. -/
def Answers.giving (d : Snapshot) : Answers := ⟨.error .noStore, .ok d.render.toList⟩

theorem loadAnswer_takenWith (z : Machine) (m : Memory) :
    loadAnswer (Answers.giving (z.takenWith m)).restore = .ok (z.takenWith m) := by
  rw [Answers.giving, takenWith, loadAnswer_ok, Snapshot.parse_taken]
  rfl

theorem accepts_takenWith {m : Memory} (hm : m.size = beforeRestore.memory.size) :
    beforeRestore.accepts (beforeRestore.takenWith m) :=
  reachable_beforeRestore.bounded.accepts_taken reachable_beforeRestore.bounded hm
    next_beforeRestore.pc_lt

/-- A snapshot in whose memory the restore has become a quit. -/
theorem restore_step_cases_quit :
    let z := beforeRestore
    ∃ w fault, step (.giving (z.takenWith (z.memory.put 0x6A 0xBA))) z =
        .error (.fault 0x6A "restore ?0x006C" fault) w ∧
      w.CannotResume fault ∧ ¬ (w.memory = z.memory ∧ w.calls = z.calls) := by
  intro z
  have hd := loadAnswer_takenWith z (z.memory.put 0x6A 0xBA)
  have hvalid := Snapshot.check_eq_ok_iff.1 (accepts_takenWith (Memory.size_put z.memory 0x6A 0xBA))
  rcases restore_step_cases load_small reachable_beforeRestore next_beforeRestore rfl
    (.giving (z.takenWith (z.memory.put 0x6A 0xBA))) with ⟨hunfit, -⟩ | ⟨d, w, hd', -, hw, -, hcase⟩
  · exact absurd hvalid (unfit_iff.1 hunfit _ hd)
  obtain rfl := Except.ok.inj (hd.symm.trans hd')
  rcases hcase with ⟨j, hdecode, hj, -⟩ | ⟨fault, hcannot, hstep, hiff⟩
  · have hreached : reached (restore _ _) = w := congrArg reached hw
    have hop : (Instruction.decode smallStory.script w.memory
        (z.takenWith (z.memory.put 0x6A 0xBA)).pc).map (·.op) = .ok .quit := by
      rw [← hreached]
      decide +kernel
    rw [hdecode] at hop
    have hquit : j.op = .quit := Except.ok.inj hop
    rw [hquit] at hj
    exact absurd hj (by decide)
  · refine ⟨w, fault, hstep, hcannot, fun h => ?_⟩
    have hheld := (hiff.1 h).1.get_eq (n := 0x6A) rfl
    exact absurd hheld (by decide +kernel)

/-- **A restore may resume at itself, and may fault with another memory.**  The small story restores a
snapshot of its state at the restore, and one in whose memory the restore has become a quit. -/
theorem restore_not_at_save :
    let z := beforeRestore
    let itself := step (.giving (z.takenWith z.memory)) z
    let quit := step (.giving (z.takenWith (z.memory.put 0x6A 0xBA))) z
    (halt? itself = none ∧ (reached itself).phase = .running ∧ (reached itself).pc = 0x6C) ∧
      halt? quit = some (.fault (.machine (.notASave 0x6A "quit"))) ∧
      (reached quit).memory.get 0x6A ≠ z.memory.get 0x6A := by
  intro z itself quit
  have hitself := step_restore next_beforeRestore rfl (loadAnswer_takenWith z z.memory)
    (accepts_takenWith rfl)
  have hquit := step_restore next_beforeRestore rfl
    (loadAnswer_takenWith z (z.memory.put 0x6A 0xBA)) (accepts_takenWith (Memory.size_put ..))
  simp only [itself, quit]
  rw [hitself, hquit]
  decide +kernel

end Machine

end ZCode
