/-
  Restarts: a story that restarts is as good as newly loaded.

  * `Machine.restarted` is the machine to which a restart instruction leads, whatever the state was
    (`Machine.step_restart`).
  * `step_restart_fresh`: it is the machine at the start of the story, except for what belongs to the
    session, which are two bits of the header, the random numbers, the input and the output.
-/
import ZCode.Proofs.Calls
import ZCode.Proofs.Protected

namespace ZCode

/-- A restart depends on memory through the session's bits alone. -/
theorem Story.restartedMemory_congr {m m' : Memory} (h : m.sessionBits = m'.sessionBits)
    (story : Story) : story.restartedMemory m = story.restartedMemory m' := by
  rw [restartedMemory, restartedMemory, h]

namespace Machine

/-- The machine with its memory and all else that the story has built up as at the start. -/
def restarted (z : Machine) : Machine :=
  { reset { z with memory := z.story.restartedMemory z.memory } with output := z.output.push .flush }

variable {story : Story} {z : Machine} {i : Instruction}

theorem advance_restart (hi : z.Next i) (hop : i.op = .restart) :
    advance z = .error .restart (z.fetched z.pc i).restarted := by
  have hexecute : execute i (z.fetched z.pc i) = .ok .restart (z.fetched z.pc i) := by
    rw [execute_of_nil (Instruction.operands_of_restart hi.decodes hop)]
    simp only [perform, performOn, hop]
    rfl
  rw [advance_of_execute hi hexecute]
  rfl

/-- A restart instruction always restarts. -/
theorem step_restart (hi : z.Next i) (hop : i.op = .restart) (answers : Answers) :
    step answers z = .error .restart (z.fetched z.pc i).restarted :=
  bind_error (advance_restart hi hop)

/-- What is left of the machine is its session. -/
theorem restarted_fetched (z : Machine) (pc : Address) (i : Instruction) :
    (z.fetched pc i).restarted = { Machine.start z.story z.random with
      memory := z.story.restartedMemory z.memory
      input := z.input
      output := z.output.push .flush
      log := (z.fetched pc i).log
      tracing := z.tracing } := by
  dsimp only [restarted, fetched, reset, start]

/-- **A restart is a fresh load.**  In every state that a host can reach, a restart instruction leads
to the memory of the newly loaded story, except for the transcript and fixed pitch bits, which stay
as they are.  There is one empty frame, the story runs from its start with its streams as at the
start, and the machine is a new one in all but these bits, the random numbers, the input and what was
sent and logged.  Restarting memory once more changes nothing. -/
theorem step_restart_fresh {image : Memory} (hload : Story.load image = .ok story)
    (hz : Reachable story z) (hi : z.Next i) (hop : i.op = .restart) (answers : Answers) :
    ∃ w, step answers z = .error .restart w ∧
      (Machine.start story z.random).memory.EqOutside Memory.sessionMask w.memory ∧
      w.memory.sessionBits = z.memory.sessionBits ∧
      w.calls.frames = [{}] ∧ w.pc = story.header.initialPc ∧ w.phase = .running ∧
      w.streams.screenOff = false ∧ w.streams.tables = [] ∧
      w = { Machine.start story z.random with
        memory := w.memory, input := z.input, output := w.output, log := w.log,
        tracing := z.tracing } ∧
      story.restartedMemory w.memory = w.memory := by
  have hruns : z.story = story := hz.bounded.runs
  have hsize : Memory.flags2At < story.freshMemory.size := by
    obtain ⟨himage, hread, -⟩ := Story.load_ok hload
    have := (Header.read_ok hread).1
    rw [story.size_freshMemory, himage]
    exact Nat.lt_of_lt_of_le (by decide) this
  have hbits : (story.restartedMemory z.memory).sessionBits = z.memory.sessionBits :=
    Memory.sessionBits_withSessionBits hsize z.memory
  have hstep := step_restart hi hop answers
  rw [restarted_fetched, hruns] at hstep
  refine ⟨_, hstep, ?_, hbits, rfl, rfl, rfl, rfl, rfl, rfl, ?_⟩
  · exact Memory.eqOutside_withSessionBits rfl _ _
  · exact Story.restartedMemory_congr hbits story

/-- An image whose story stores 7 in its first global and restarts. -/
def restartingImage : Memory :=
  let code : List UInt8 := [0x0D, 0x10, 0x07, 0xB7, 0, 0, 0, 0]
  let dictionary : List UInt8 := [0, 7, 0, 0]
  ⟨(smallImage.bytes.toList.take 0x68 ++ code ++ dictionary).toArray⟩

def restartingStory : Story := .ofImage restartingImage

theorem load_restarting : Story.load restartingImage = .ok restartingStory :=
  Story.load_ofImage (by decide +kernel)

/-- The global is 0 again, while the transcript goes on. -/
theorem step_restart_fresh_small :
    let noStore : Answers := ⟨.error .noStore, .error .noStore⟩
    let start := { Machine.start restartingStory (Random.ofEntropy 1) with tracing := false }
    let z := (HostCall.step noStore).run ((HostCall.setTranscripting true).run start)
    z.memory.get 0x5E = 7 ∧ z.memory.sessionBits = 1 ∧
      ∃ w, step noStore z = .error .restart w ∧ w.memory.get 0x5E = 0 ∧ w.memory.sessionBits = 1 := by
  intro noStore start z
  have hz : Reachable restartingStory z :=
    ((Reachable.start _ false).call (.setTranscripting true)).call (.step noStore)
  have hi : z.Next ⟨0x6B, .short, .zero, 7, .restart, [], 0, none, [], 0x6C⟩ :=
    ⟨by decide +kernel, by decide +kernel⟩
  have hbits : z.memory.sessionBits = 1 := by decide +kernel
  obtain ⟨w, hw, hmemory, hkept, -⟩ := step_restart_fresh load_restarting hz hi rfl noStore
  refine ⟨by decide +kernel, hbits, w, hw, ?_, hkept.trans hbits⟩
  rw [← hmemory.get_eq (n := 0x5E) rfl]
  decide +kernel

end Machine

end ZCode
