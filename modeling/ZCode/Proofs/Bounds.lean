/-
  The bounds that every state keeps, whatever a host does with the machine.

  * `Snapshot.Valid` says which snapshots are accepted (`Snapshot.check_eq_ok_iff`).
  * `Machine.Bounded` is the invariant: the number of frames, locals, stack entries and tables, and
    the size of memory.  Every elementary change keeps it, with restores of any snapshot that is
    accepted (`Bounded.change`).
-/
import ZCode.Proofs.Entries
import ZCode.Proofs.Protected

namespace ZCode

/-! ## Snapshots that are accepted -/

/-- The frame has room in the machine. -/
structure SavedFrame.Valid (f : SavedFrame) : Prop where
  locals : (f.locals.getD []).length ≤ Frame.maxLocals
  stack : (f.stack.getD []).length ≤ Frame.maxStack
  storeTo : ∀ v, f.storeTo = some v → 0 ≤ v ∧ v ≤ 0xFF

namespace Snapshot

/-- The snapshot is one of the story, whose memory has `size` bytes. -/
structure Valid (d : Snapshot) (story : Story) (size : Nat) : Prop where
  version : d.version = formatVersion
  checksum : d.checksum = checksumText story.checksum
  memory : (d.memory.getD default).size = size
  nonempty : d.frames.getD [] ≠ []
  depth : (d.frames.getD []).length ≤ CallStack.maxDepth
  frames : ∀ f ∈ d.frames.getD [], f.Valid
  pc : d.pc.toNat < size

theorem checkFrames_eq_ok_iff {frames : List SavedFrame} {i : Nat} :
    checkFrames i frames = .ok () ↔ ∀ f ∈ frames, f.Valid := by
  induction frames generalizing i with
  | nil => simp [checkFrames]
  | cons f frames ih =>
    have hf : f.Valid ↔ ¬ (Frame.maxLocals < (f.locals.getD []).length ∨
        Frame.maxStack < (f.stack.getD []).length) ∧
        (∀ v, f.storeTo = some v → ¬ (v < 0 ∨ 0xFF < v)) := by
      constructor
      · rintro ⟨h1, h2, h3⟩
        refine ⟨by omega, fun v hv => ?_⟩
        have := h3 v hv
        omega
      · rintro ⟨h1, h2⟩
        refine ⟨by omega, by omega, fun v hv => ?_⟩
        have := h2 v hv
        omega
    rw [List.forall_mem_cons, ← ih (i := i + 1), hf, checkFrames]
    dsimp only
    rw [guard_eq_ok_iff]
    cases hs : f.storeTo with
    | none => simp
    | some v =>
      dsimp only
      rw [guard_eq_ok_iff]
      simp [and_assoc]

theorem check_eq_ok_iff {d : Snapshot} {story : Story} {size : Nat} :
    d.check story size = .ok () ↔ d.Valid story size := by
  unfold check
  dsimp only
  simp only [guard_eq_ok_iff, bind_eq_ok_iff, last_guard_eq_ok_iff,
    Classical.not_not, not_or, Nat.not_lt, Nat.not_le, List.isEmpty_iff]
  constructor
  · rintro ⟨h1, h2, h3, ⟨h4, h5⟩, _, h6, h7⟩
    exact ⟨h1, h2, h3, h4, h5, checkFrames_eq_ok_iff.1 h6, h7⟩
  · rintro ⟨h1, h2, h3, h4, h5, h6, h7⟩
    exact ⟨h1, h2, h3, ⟨h4, h5⟩, (), checkFrames_eq_ok_iff.2 h6, h7⟩

end Snapshot

/-! ## The invariant -/

/-- The frame is within its bounds. -/
structure Frame.Bounded (f : Frame) : Prop where
  locals : f.locals.length ≤ maxLocals
  stack : f.stack.length ≤ maxStack

theorem Frame.Near.bounded {f g : Frame} (h : f.Near g) (hf : f.Bounded) : g.Bounded :=
  ⟨h.locals ▸ hf.locals, h.stack hf.stack⟩

theorem SavedFrame.Valid.bounded {f : SavedFrame} (h : f.Valid) : f.toFrame.Bounded :=
  ⟨h.locals, by simpa [SavedFrame.toFrame] using h.stack⟩

namespace CallStack

/-- The call stack is within its bounds, and so is every frame. -/
structure Bounded (c : CallStack) : Prop where
  atMost : c.frames.length ≤ maxDepth
  each : ∀ f ∈ c.frames, f.Bounded

theorem length_frames (c : CallStack) : c.frames.length = c.depth := by
  simp [frames, depth]

theorem mem_frames {c : CallStack} {f : Frame} :
    f ∈ c.frames ↔ f = c.current ∨ f ∈ c.callers := by
  simp [frames, or_comm]

theorem frames_ofFrames {frames : List Frame} (h : frames ≠ []) : (ofFrames frames).frames = frames := by
  unfold ofFrames
  split
  · rename_i hr
    exact absurd (List.reverse_eq_nil_iff.1 hr) h
  · rename_i current callers hr
    rw [CallStack.frames, ← hr, List.reverse_reverse]

theorem bounded_empty : ({} : CallStack).Bounded := by
  refine ⟨by decide, fun f hf => ?_⟩
  rcases mem_frames.1 hf with rfl | hf
  · exact ⟨by decide, by decide⟩
  · cases hf

theorem Bounded.setCurrent {c : CallStack} (h : c.Bounded) {f : Frame} (hf : c.current.Near f) :
    ({ c with current := f } : CallStack).Bounded := by
  refine ⟨by simpa [length_frames, depth] using h.atMost, fun g hg => ?_⟩
  rcases mem_frames.1 hg with rfl | hg
  · exact hf.bounded (h.each _ (mem_frames.2 (.inl rfl)))
  · exact h.each g (mem_frames.2 (.inr hg))

theorem Bounded.push {c c' : CallStack} (h : c.Bounded) {f : Frame} (hf : f.Bounded)
    (hp : c.push f = .ok c') : c'.Bounded := by
  unfold CallStack.push at hp
  split at hp
  · cases hp
  · rename_i hd
    cases hp
    refine ⟨by simp [length_frames, depth] at hd ⊢; omega, fun g hg => ?_⟩
    rcases mem_frames.1 hg with rfl | hg
    · exact hf
    · exact h.each g (mem_frames.2 (List.mem_cons.1 hg))

theorem Bounded.pop {c c' : CallStack} (h : c.Bounded) {f : Frame} (hp : c.pop = .ok (f, c')) :
    c'.Bounded := by
  unfold CallStack.pop at hp
  split at hp
  · cases hp
  · rename_i caller callers hc
    cases hp
    have hd := h.atMost
    rw [length_frames, depth, hc] at hd
    refine ⟨by rw [length_frames, depth]; simp at hd ⊢; omega, fun g hg => ?_⟩
    rcases mem_frames.1 hg with rfl | hg
    · exact h.each _ (mem_frames.2 (.inr (by simp [hc])))
    · exact h.each g (mem_frames.2 (.inr (by simp [hc, hg])))

end CallStack

/-- The frames of an accepted snapshot make a call stack within its bounds. -/
theorem Snapshot.Valid.calls {d : Snapshot} {story : Story} {size : Nat} (h : d.Valid story size) :
    (CallStack.ofFrames ((d.frames.getD []).map SavedFrame.toFrame)).Bounded := by
  have hf : (CallStack.ofFrames ((d.frames.getD []).map SavedFrame.toFrame)).frames =
      (d.frames.getD []).map SavedFrame.toFrame := CallStack.frames_ofFrames
    (by simpa using h.nonempty)
  refine ⟨by simpa [hf] using h.depth, fun f hmem => ?_⟩
  rw [hf] at hmem
  obtain ⟨s, hs, rfl⟩ := List.mem_map.1 hmem
  exact (h.frames s hs).bounded

namespace Machine

/-- The machine runs the story within its bounds. -/
structure Bounded (story : Story) (z : Machine) : Prop where
  runs : z.story = story
  size : z.memory.size = story.image.size
  calls : z.calls.Bounded
  tables : z.streams.tables.length ≤ Streams.maxTables

variable {story : Story}

/-- An elementary change keeps the bounds, whatever is restored. -/
theorem Bounded.change {D : Snapshot → Prop} {z w : Machine} (hc : Change D z w)
    (hz : Bounded story z) : Bounded story w := by
  cases hc with
  | move hm =>
    cases hm with
    | book => exact ⟨hz.runs, hz.size, hz.calls, hz.tables⟩
    | write hw => exact ⟨hz.runs, hw.eqOutside.size ▸ hz.size, hz.calls, hz.tables⟩
    | frame hf => exact ⟨hz.runs, hz.size, hz.calls.setCurrent hf, hz.tables⟩
    | streams hs => exact ⟨hz.runs, hz.size, hz.calls, hs hz.tables⟩
  | call hl hs hp =>
    refine ⟨hz.runs, hz.size, hz.calls.push ⟨hl, ?_⟩ hp, hz.tables⟩
    rw [hs]
    exact Nat.zero_le _
  | ret hp => exact ⟨hz.runs, hz.size, hz.calls.pop hp, hz.tables⟩
  | reset => exact ⟨hz.runs, hz.size, CallStack.bounded_empty, Nat.zero_le _⟩
  | reload =>
    refine ⟨hz.runs, ?_, hz.calls, hz.tables⟩
    rw [← hz.runs]
    simp [Story.restartedMemory, Story.size_freshMemory]
  | restore _ ha =>
    have hv := Snapshot.check_eq_ok_iff.1 ha
    rw [restore_eq, ha]
    refine ⟨hz.runs, ?_, hv.calls, hz.tables⟩
    show (Memory.withSessionBits _ _).size = _
    rw [Memory.size_withSessionBits, hv.memory, hz.size]

/-- **The bounds hold in every state that a host can reach.** -/
theorem Reachable.bounded {z : Machine} (h : Reachable story z) : Bounded story z :=
  h.of_change
    (fun _ _ => ⟨rfl, story.size_freshMemory, CallStack.bounded_empty, Nat.zero_le _⟩)
    fun _ _ => Bounded.change

end Machine

end ZCode
