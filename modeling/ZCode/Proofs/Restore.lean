/-
  Restores are all or nothing.

  * `Restored` says what a restore that succeeds leads to: the memory, frames and program counter of
    the snapshot, within the machine's bounds.
  * `Machine.restore_valid` and `Machine.restore_invalid` split on whether the snapshot is one of the
    story.
  * A save, and a restore for which the store gives nothing that fits (`Unfit`), do nothing but take
    their branch (`step_save_branch`, `step_restore_branch`).
-/
import Mathlib.Data.List.Forall2
import ZCode.Proofs.SaveRestore

namespace ZCode

/-! ## Snapshots that are not accepted -/

theorem error_of_guard {ε α β : Type} {c : Prop} [Decidable c] {e e' : ε} {f : α → Except ε β}
    {x : Except ε β} (h : (if c then (throw e : Except ε α) >>= f else x) = .error e') :
    e' = e ∨ x = .error e' := by
  split at h
  · cases h
    exact .inl rfl
  · exact .inr h

namespace Snapshot

theorem checkFrames_error {frames : List SavedFrame} {i : Nat} {fault : Fault}
    (h : checkFrames i frames = .error fault) : ∃ cause, fault = .snapshot cause := by
  induction frames generalizing i with
  | nil => cases h
  | cons f frames ih =>
    rcases error_of_guard h with rfl | h
    · exact ⟨_, rfl⟩
    cases hs : f.storeTo with
    | none =>
      rw [hs] at h
      exact ih h
    | some v =>
      rw [hs] at h
      rcases error_of_guard h with rfl | h
      · exact ⟨_, rfl⟩
      · exact ih h

/-- A snapshot that is not accepted is blamed, and nothing else. -/
theorem check_error {d : Snapshot} {story : Story} {size : Nat} {fault : Fault}
    (h : d.check story size = .error fault) : ∃ cause, fault = .snapshot cause := by
  rcases error_of_guard h with rfl | h
  · exact ⟨_, rfl⟩
  rcases error_of_guard h with rfl | h
  · exact ⟨_, rfl⟩
  rcases error_of_guard h with rfl | h
  · exact ⟨_, rfl⟩
  rcases error_of_guard h with rfl | h
  · exact ⟨_, rfl⟩
  cases hf : checkFrames 0 (d.frames.getD []) with
  | error fault' =>
    rw [hf] at h
    cases h
    exact checkFrames_error hf
  | ok =>
    rw [hf] at h
    dsimp only [bind, Except.bind] at h
    split at h <;> cases h
    exact ⟨_, rfl⟩

end Snapshot

/-! ## Snapshots that are -/

/-- The frame is the one that was saved. -/
structure SavedFrame.Describes (s : SavedFrame) (f : Frame) : Prop where
  locals : f.locals = s.locals.getD []
  stack : f.stack.reverse = s.stack.getD []
  returnTo : f.returnTo = s.returnTo
  store : (f.store.map fun v => (v.toNat : Int)) = s.storeTo

theorem SavedFrame.Valid.describes {s : SavedFrame} (h : s.Valid) : s.Describes s.toFrame := by
  refine ⟨rfl, by simp [toFrame], rfl, ?_⟩
  cases hs : s.storeTo with
  | none => simp [toFrame, hs]
  | some v =>
    obtain ⟨h0, h1⟩ := h.storeTo v hs
    have hv : ((UInt8.ofInt v).toNat : Int) = v := by
      simp only [UInt8.ofInt, UInt8.toNat_ofNat']
      omega
    simp [toFrame, hs, hv]

namespace Machine

/-- What a restore leads to. -/
structure Restored (d : Snapshot) (z w : Machine) : Prop where
  /-- Memory is that of the snapshot, except for the session's bits. -/
  memory : (d.memory.getD default).EqOutside Memory.sessionMask w.memory
  sessionBits : w.memory.sessionBits = z.memory.sessionBits
  frames : List.Forall₂ SavedFrame.Describes (d.frames.getD []) w.calls.frames
  pc : w.pc = d.pc
  running : w.phase = .running
  /-- All else stays. -/
  rest : w = { z with memory := w.memory, calls := w.calls, pc := w.pc, state := .running,
                      pendingRead := none }
  depth : 1 ≤ w.calls.frames.length ∧ w.calls.frames.length ≤ 1024
  room : ∀ f ∈ w.calls.frames, f.locals.length ≤ 15 ∧ f.stack.length ≤ 1024
  inside : w.pc.toNat < w.memory.size

variable {story : Story} {z : Machine} {d : Snapshot} {i : Instruction} {answers : Answers}

/-- A snapshot of another story or another format changes nothing. -/
theorem restore_invalid (h : ¬ d.Valid z.story z.memory.size) :
    ∃ cause, restore d z = .error (.snapshot cause) z := by
  rw [restore_eq]
  cases hc : d.check z.story z.memory.size with
  | ok => exact absurd (Snapshot.check_eq_ok_iff.1 hc) h
  | error fault =>
    obtain ⟨cause, rfl⟩ := Snapshot.check_error hc
    exact ⟨cause, rfl⟩

/-- A snapshot of the story is restored as a whole. -/
theorem restore_valid (h : d.Valid z.story z.memory.size) (hsize : Memory.flags2At < z.memory.size) :
    ∃ w, restore d z = .ok () w ∧ Restored d z w := by
  have hne : (d.frames.getD []).map SavedFrame.toFrame ≠ [] := by simpa using h.nonempty
  have hframes := CallStack.frames_ofFrames hne
  rw [restore_eq, Snapshot.check_eq_ok_iff.2 h]
  generalize CallStack.ofFrames ((d.frames.getD []).map SavedFrame.toFrame) = c at hframes ⊢
  have hlength : c.frames.length = (d.frames.getD []).length := by rw [hframes, List.length_map]
  have hbytes : Memory.flags2At < (d.memory.getD default).size := by rwa [h.memory]
  refine ⟨_, rfl, Memory.eqOutside_withSessionBits rfl _ _,
    Memory.sessionBits_withSessionBits hbytes _, ?_, rfl, rfl, rfl, ⟨?_, ?_⟩, ?_, ?_⟩
  · show List.Forall₂ _ _ c.frames
    rw [hframes, List.forall₂_map_right_iff, List.forall₂_same]
    exact fun f hf => (h.frames f hf).describes
  · show 1 ≤ c.frames.length
    rw [hlength]
    exact List.length_pos_iff.2 h.nonempty
  · show c.frames.length ≤ 1024
    rw [hlength]
    exact h.depth
  · show ∀ f ∈ c.frames, _
    rw [hframes]
    intro f hf
    obtain ⟨s, hs, rfl⟩ := List.mem_map.1 hf
    exact ⟨(h.frames s hs).bounded.locals, (h.frames s hs).bounded.stack⟩
  · show d.pc.toNat < ((d.memory.getD default).withSessionBits _).size
    rw [Memory.size_withSessionBits, h.memory]
    exact h.pc

/-! ## Steps -/

/-- The store gives nothing that can be restored: there is none, it fails, or what it gives is not
a snapshot or not one of the story. -/
inductive Unfit (story : Story) (size : Nat) : Except StoreFailure (List Char) → Prop
  | failed (cause : StoreFailure) : Unfit story size (.error cause)
  | unread {data : List Char} {fault : Fault} : Snapshot.parse data = .error fault →
      Unfit story size (.ok data)
  | invalid {data : List Char} {d : Snapshot} : Snapshot.parse data = .ok d →
      ¬ d.Valid story size → Unfit story size (.ok data)

theorem Unfit.restoreAnswer {answer : Except StoreFailure (List Char)}
    (h : Unfit z.story z.memory.size answer) : ∃ cause, restoreAnswer answer z = .error cause := by
  unfold Machine.restoreAnswer
  cases h with
  | failed cause => exact ⟨cause, rfl⟩
  | @unread data fault hparse =>
    rw [loadAnswer_ok, hparse]
    exact ⟨_, rfl⟩
  | @invalid data d hparse hvalid =>
    obtain ⟨cause, hrestore⟩ := restore_invalid hvalid
    rw [loadAnswer_ok, hparse]
    simp only [Except.mapError, bind, Except.bind, hrestore]
    exact ⟨_, rfl⟩

/-- The step does nothing but log, and go where the branch of its instruction leads. -/
def OnlyBranches (answers : Answers) (z : Machine) (i : Instruction) (taken : Bool) : Prop :=
  ∃ log, step answers z =
    located i.address (orHalt (follow (i.branchOn taken))) { z with last := some i, log }

theorem step_save_branch (hi : z.Next i) (hop : i.op = .save) :
    OnlyBranches answers z i answers.save.toBool := by
  cases ha : answers.save with
  | ok => exact ⟨_, step_save hi hop ha⟩
  | error cause => exact ⟨_, step_unsaved hi hop ha⟩

theorem step_restore_branch (hi : z.Next i) (hop : i.op = .restore)
    (h : Unfit z.story z.memory.size answers.restore) : OnlyBranches answers z i false := by
  obtain ⟨cause, hcause⟩ := Unfit.restoreAnswer (z := z.fetched z.pc i) h
  exact ⟨_, step_unrestored hi hop hcause⟩

/-- **Restoring is all or nothing.**  In every state that a host can reach, a snapshot that is not one
of the story is refused and changes nothing, and one of the story is restored as a whole.  A save
instruction, whatever the store does, and a restore instruction for which the store gives nothing
that fits, do nothing but log and take their own branch. -/
theorem restore_all_or_nothing {image : Memory} (hload : Story.load image = .ok story)
    (hz : Reachable story z) :
    (∀ d : Snapshot,
      (¬ d.Valid story image.size ∧ ∃ cause, restore d z = .error (.snapshot cause) z) ∨
      (d.Valid story image.size ∧ ∃ w, restore d z = .ok () w ∧ Restored d z w)) ∧
    ∀ (i : Instruction) (answers : Answers), z.Next i →
      (i.op = .save → OnlyBranches answers z i answers.save.toBool) ∧
      (i.op = .restore → Unfit story image.size answers.restore →
        OnlyBranches answers z i false) := by
  obtain ⟨himage, hread, -⟩ := Story.load_ok hload
  have hsize : z.memory.size = image.size := by rw [hz.bounded.size, himage]
  have hflags : Memory.flags2At < z.memory.size := by
    rw [hsize]
    exact Nat.lt_of_lt_of_le (by decide) (Header.read_ok hread).1
  refine ⟨fun d => ?_, fun i answers hi => ⟨fun hop => ?_, fun hop hunfit => ?_⟩⟩
  · rw [← hz.bounded.runs, ← hsize]
    by_cases hd : d.Valid z.story z.memory.size
    · exact .inr ⟨hd, restore_valid hd hflags⟩
    · exact .inl ⟨hd, restore_invalid hd⟩
  · exact step_save_branch hi hop
  · rw [← hz.bounded.runs, ← hsize] at hunfit
    exact step_restore_branch hi hop hunfit

/-- A host restores a snapshot with a wrong version and a good one; without a store, the story saves,
and then restores what cannot be read. -/
theorem restore_all_or_nothing_small :
    let z := { Machine.start smallStory (Random.ofEntropy 1) with tracing := false }
    let noStore : Answers := ⟨.error .noStore, .error .noStore⟩
    let y := (HostCall.step noStore).run z
    (∃ cause, restore { z.snapshot with version := 2 } z = .error (.snapshot cause) z) ∧
      (∃ w, restore z.snapshot z = .ok () w ∧ Restored z.snapshot z w) ∧
      OnlyBranches noStore z ⟨0x68, .short, .zero, 5, .save, [], 0, some ⟨true, 2⟩, [], 0x6A⟩ false ∧
      OnlyBranches ⟨.error .noStore, .ok ['?']⟩ y
        ⟨0x6A, .short, .zero, 6, .restore, [], 0, some ⟨true, 2⟩, [], 0x6C⟩ false := by
  intro z noStore y
  have hz : Reachable smallStory z := .start _ false
  have hy : Reachable smallStory y := hz.call (.step noStore)
  have hi : z.Next ⟨0x68, .short, .zero, 5, .save, [], 0, some ⟨true, 2⟩, [], 0x6A⟩ :=
    ⟨by decide +kernel, by decide +kernel⟩
  have hj : y.Next ⟨0x6A, .short, .zero, 6, .restore, [], 0, some ⟨true, 2⟩, [], 0x6C⟩ :=
    ⟨by decide +kernel, by decide +kernel⟩
  obtain ⟨hrestore, hstep⟩ := restore_all_or_nothing load_small hz
  refine ⟨?_, ?_, (hstep _ _ hi).1 rfl, ?_⟩
  · rcases hrestore { z.snapshot with version := 2 } with ⟨-, h⟩ | ⟨h, -⟩
    · exact h
    · exact absurd h.version (by decide)
  · rcases hrestore z.snapshot with ⟨h, -⟩ | ⟨-, h⟩
    · have haccepts := hz.bounded.accepts_snapshot hz.bounded (by decide +kernel)
      exact absurd (Snapshot.check_eq_ok_iff.1 haccepts) h
    · exact h
  · exact ((restore_all_or_nothing load_small hy).2 _ _ hj).2 rfl (.unread rfl)

end Machine

end ZCode
