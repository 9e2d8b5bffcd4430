/-
  No state that a host can reach makes the machine look at anything that is not there.

  * A read is pending exactly while the machine waits for a line (`Machine.Settled`).  State and
    pending read are kept apart, and it takes all calls of a host together to keep them in step
    (`Reachable.settled`).
  * What a step looks up in memory, in a frame or in an instruction is there, so that it makes no
    difference what a lookup would give otherwise (`step_stray`), and neither does it for the other
    calls of a host (`HostCall.outcomes_stray`).
  * `Machine.Safe` puts this together with the bounds of the machine, and `reachable_safe` says that
    it holds whatever the image, the input, the store and the restored snapshots are.
-/
import ZCode.Proofs.Aside
import ZCode.Proofs.Bounds
import ZCode.Proofs.Decode

namespace ZCode

namespace Machine

/-! ## Requests to the store -/

theorem apply_request {action : Action} {z w : Machine} {r : StoreRequest}
    (h : apply action z = .ok (some r) w) :
    ∃ i, action = .save i ∧ r = .save i ∨ action = .restore i ∧ r = .restore i := by
  cases action with
  | save i => cases h; exact ⟨i, .inl ⟨rfl, rfl⟩⟩
  | restore i => cases h; exact ⟨i, .inr ⟨rfl, rfl⟩⟩
  | flow f | call c | read r => obtain ⟨_, _, _, ⟨⟩⟩ := ok_of_bind h
  | quit => obtain ⟨_, _, _, h⟩ := ok_of_bind h; obtain ⟨_, _, _, ⟨⟩⟩ := ok_of_bind h
  | restart =>
    obtain ⟨_, _, _, h⟩ := ok_of_bind h
    obtain ⟨_, _, _, h⟩ := ok_of_bind h
    obtain ⟨_, _, _, ⟨⟩⟩ := ok_of_bind h

/-- A request to the store comes from the save or restore instruction at the program counter. -/
theorem request_of_advance {z w : Machine} {r : StoreRequest} (h : advance z = .ok (some r) w) :
    ∃ i, Instruction.decode z.story.script z.memory z.pc = .ok i ∧
      (i.op = .save ∧ r = .save i ∨ i.op = .restore ∧ r = .restore i) := by
  cases hp : z.phase with
  | terminated =>
    unfold advance at h
    rw [get_bind, get_bind, hp] at h
    cases h
  | waiting r =>
    unfold advance at h
    rw [get_bind, get_bind, hp] at h
    obtain ⟨_, _, _, ⟨⟩⟩ := ok_of_bind (ok_of_located h)
  | running =>
    rw [advance_running hp] at h
    obtain ⟨i, u, hfetch, h⟩ := ok_of_bind (ok_of_located h)
    obtain ⟨action, v, hexec, happly⟩ := ok_of_bind h
    obtain ⟨args, _, _, hperform⟩ := ok_of_bind (ok_of_orHalt hexec)
    have hof := gives_performOn i args _ _ _ _ _ _ hperform
    refine ⟨i, (fetch_ok (ok_of_orHalt hfetch)).1, ?_⟩
    obtain ⟨k, ⟨rfl, rfl⟩ | ⟨rfl, rfl⟩⟩ := apply_request happly
    · exact .inl ⟨hof.2, by rw [hof.1]⟩
    · exact .inr ⟨hof.2, by rw [hof.1]⟩

/-! ## Pending reads -/

/-- A read is pending exactly while the machine waits for a line. -/
def Settled (z : Machine) : Prop := z.pendingRead.isSome ↔ z.state = .waiting

theorem PhaseKept.settled {z w : Machine} (h : PhaseKept z w) (hz : z.Settled) : w.Settled := by
  unfold Settled
  rw [h.state, h.pendingRead]
  exact hz

/-- A change that leaves a settled machine settled. -/
def Settles (z w : Machine) : Prop := z.Settled → w.Settled

instance : IsPreorder Machine Settles where
  refl _ := id
  trans _ _ _ h h' := h' ∘ h

variable {ε α : Type}

theorem settles_of_commutes {act : EStateM ε Machine α}
    (h : ∀ c : Aside, c.pc = id → c.random = id → Commutes c.on act) : Within Settles act :=
  fun z => (phaseKept (h (.phaseOf z) rfl rfl z)).settled

theorem settles_book {f : Machine → Machine} (h : ∀ z, PhaseKept z (f z)) :
    Within Settles (modify f : EStateM ε Machine PUnit) := fun z => (h z).settled

theorem settles_follow (flow : Flow) : Within Settles (follow flow) :=
  settles_of_commutes fun _ hpc _ => commutes_follow hpc flow

theorem settles_addLog (entry : LogEntry) : Within Settles (addLog entry) :=
  settles_of_commutes fun _ _ _ => commutes_addLog entry

theorem settles_resumeRead (r : PendingRead) : Within Settles (resumeRead r) := by
  refine Within.get.bind fun z => ?_
  split
  · exact .pure _
  · refine (settles_book fun _ => by exact ⟨rfl, rfl⟩).bind fun _ => ?_
    refine (settles_of_commutes fun _ _ _ => commutes_completeRead r _).bind fun _ => ?_
    refine .modify fun _ _ => ?_
    simp [Settled]

theorem settles_beginRead (r : PendingRead) : Within Settles (beginRead r) := by
  have hstatus : Composed (Primitive []) (fun _ => True) showStatus showStatus := composed_showStatus _
  refine (settles_of_commutes fun _ _ _ => commutes_of_composed hstatus (by decide)).bind fun _ => ?_
  refine (settles_of_commutes fun _ _ _ => commutes_send _).bind fun _ => ?_
  refine Within.bind (Within.modify fun _ _ => ?_) fun _ => settles_resumeRead r
  simp [Settled]

theorem settles_restore (d : Snapshot) : Within Settles (restore d) := by
  intro z hz
  rw [restore_eq]
  cases d.check z.story z.memory.size with
  | error fault => exact hz
  | ok => simp [Settled]

theorem settles_resumeAtSave : Within Settles resumeAtSave := by
  refine (settles_of_commutes fun _ hpc hrandom => commutes_look fun _ => by simp [Aside.on, hpc]).bind
    fun i => ?_
  dsimp only
  split
  · exact Within.get.bind fun _ => .throw_bind _ _
  · exact (settles_book fun _ => by exact ⟨rfl, rfl⟩).bind fun _ => settles_follow _

/-- The story quits from a running machine, which has no read pending. -/
theorem settled_apply {z : Machine} (hz : z.Settled) (hrunning : z.state = .running)
    (action : Action) : (reached (apply action z)).Settled := by
  cases action with
  | flow f => exact ((within_orHalt (settles_follow f)).bind fun _ => .pure _) z hz
  | call c =>
    have henter := settles_of_commutes fun _ hpc _ => commutes_enter hpc c
    exact ((within_orHalt henter).bind fun _ => .pure _) z hz
  | read r => exact ((within_orHalt (settles_beginRead r)).bind fun _ => .pure _) z hz
  | save | restore => exact hz
  | quit =>
    unfold Settled at hz
    rw [hrunning] at hz
    show z.pendingRead.isSome ↔ State.terminated = .waiting
    simp only [reduceCtorEq, iff_false] at hz ⊢
    exact hz
  | restart =>
    show (none : Option PendingRead).isSome ↔ State.running = .waiting
    simp

theorem phaseKept_fetch (pc : Address) (z : Machine) :
    PhaseKept z (reached (orHalt (fetch pc) z)) := by
  rw [reached_orHalt, fetch_eq]
  cases Instruction.decode z.story.script z.memory pc <;> exact ⟨rfl, rfl⟩

theorem settled_bind {β : Type} {x : EStateM ε Machine α} {f : α → EStateM ε Machine β} {z : Machine}
    (hx : PhaseKept z (reached (x z))) (hz : z.Settled)
    (hf : ∀ a w, PhaseKept z w → (reached (f a w)).Settled) : (reached ((x >>= f) z)).Settled := by
  cases h : x z with
  | ok a w =>
    rw [h] at hx
    rw [bind_ok h]
    exact hf a w hx
  | error e w =>
    rw [h] at hx
    rw [bind_error h]
    exact hx.settled hz

theorem settles_advance : Within Settles advance := by
  intro z hz
  cases hp : z.phase with
  | terminated =>
    rw [advance_terminated hp]
    exact hz
  | waiting r =>
    rw [advance_waiting hp, reached_located]
    exact ((within_orHalt (settles_resumeRead r)).bind fun _ => .pure _) z hz
  | running =>
    have hstate := phase_running.1 hp
    rw [advance_running hp, reached_located]
    refine settled_bind (phaseKept_fetch _ z) hz fun i w hfetch => ?_
    have hexecute := phaseKept (commutes_execute (unseen_of_random rfl i w))
    rw [← reached_orHalt] at hexecute
    refine settled_bind hexecute (hfetch.settled hz) fun action u hkept => ?_
    refine settled_apply (hkept.settled (hfetch.settled hz)) ?_ action
    rw [hkept.state, hfetch.state, hstate]

theorem settles_answerSave (i : Instruction) (answer : Except StoreFailure Unit) :
    Within Settles (answerSave i answer) := by
  refine within_located _ ?_
  cases answer with
  | ok => exact within_orHalt (settles_follow _)
  | error cause =>
    exact (within_orHalt (settles_addLog _)).bind fun _ => within_orHalt (settles_follow _)

theorem settles_answerRestore (i : Instruction) (answer : Except StoreFailure (List Char)) :
    Within Settles (answerRestore i answer) := by
  refine within_located _ (.bind_get fun z => ?_)
  cases h : restoreAnswer answer z with
  | error cause =>
    exact ((within_orHalt (settles_addLog _)).bind fun _ => within_orHalt (settles_follow _)) z
  | ok w =>
    obtain ⟨d, -, -, rfl⟩ := restoreAnswer_ok h
    exact fun hz => within_orHalt settles_resumeAtSave _ (settles_restore d z hz)

theorem settles_step (answers : Answers) : Within Settles (step answers) := by
  refine settles_advance.bind fun request => ?_
  cases request with
  | none => exact .pure _
  | some request =>
    cases request with
    | save i => exact settles_answerSave i _
    | restore i => exact settles_answerRestore i _

theorem settles_call (c : HostCall) (z : Machine) : Settles z (c.run z) := by
  cases c with
  | step answers => exact settles_step answers z
  | push | press => exact (PhaseKept.mk rfl rfl).settled
  | setTranscripting | setStatusLineAvailable | setScreenSplitAvailable | setVariablePitchDefault =>
    exact settles_of_commutes (fun _ _ _ => commutes_edit _) z
  | restore d => exact settles_restore d z

/-- **A read is pending exactly while the machine waits for a line.** -/
theorem Reachable.settled {story : Story} {z : Machine} (h : Reachable story z) : z.Settled := by
  induction h with
  | start random tracing => simp [Settled, Machine.start]
  | call c _ ih => exact settles_call c _ ih

/-! ## Lookups -/

/-- The machine of a loaded story, within its bounds, has room for what is looked up unasked. -/
theorem Bounded.fitted {image : Memory} {story : Story} {z : Machine}
    (hload : Story.load image = .ok story) (hz : Bounded story z) : z.Fitted := by
  obtain ⟨himage, hread, hobjects⟩ := Story.load_ok hload
  obtain ⟨hheader, -, -⟩ := Header.read_ok hread
  have hsize : z.memory.size = image.size := by rw [hz.size, himage]
  refine ⟨hsize ▸ hheader, ?_, ?_⟩
  · rw [hz.runs, himage]
    exact hheader
  · rw [hz.runs, hobjects, hsize]
    exact ObjectTable.locate_fits image (Header.tables_lt hread _ (by simp))

section
variable (s : Stray) {z : Machine}

/-- A complete instruction looks at no operand and at no branch that it does not have. -/
theorem execute_stray {i : Instruction} (h : i.Complete) (hz : z.Fitted) :
    @execute s i z = @execute Stray.usual i z := by
  unfold execute
  rw [operandValues_stray s Stray.usual]
  refine bind_congr_of_reached fun args w hw => ?_
  have hlength := length_operandValues hw
  have hfitted : w.Fitted := by
    have hmoves := within_operandValues i.op i.operands 0 z
    rw [hw] at hmoves
    exact hmoves.fitted hz
  have hthere : ∀ n, n + 1 ≤ i.op.info.minOperands →
      args.getD n s.number = args.getD n Stray.usual.number := by
    intro n hn
    have hn : n < args.length := by
      have := h.operands
      omega
    simp [List.getD_eq_getElem?_getD, List.getElem?_eq_getElem hn]
  have hlater : 1 ≤ i.op.info.minOperands →
      @laterOperands s args = @laterOperands Stray.usual args := by
    intro hn
    have hargs : args.isEmpty = false := by
      have := h.operands
      cases args with
      | nil => simp only [List.length_nil] at hlength; omega
      | cons => rfl
    simp [laterOperands, hargs]
  have hcomposed := composed_performOn s i args
    (fun hb condition => Instruction.branchOn_stray s Stray.usual (h.branch.trans hb) condition)
    hlater (hthere 0) (hthere 1) (hthere 2)
  exact (hcomposed.lift (closed_agrees Fitted) Primitive.agrees w hfitted).1

theorem beginRead_stray (r : PendingRead) (hz : z.Fitted) :
    @beginRead s r z = @beginRead Stray.usual r z := by
  have hstatus : Agrees Fitted (@showStatus s) (@showStatus Stray.usual) :=
    have h : Composed (Primitive []) (fun _ => True) (@showStatus s) (@showStatus Stray.usual) :=
      composed_showStatus s
    h.lift (closed_agrees Fitted) Primitive.agrees
  unfold beginRead
  rw [resumeRead_stray s Stray.usual]
  exact bind_congr_left (hstatus z hz).1

theorem restartedMemory_stray (hz : z.Fitted) :
    @Story.restartedMemory s z.story z.memory = @Story.restartedMemory Stray.usual z.story z.memory := by
  unfold Story.restartedMemory
  rw [Memory.sessionBits_stray s Stray.usual hz.header, Story.freshMemory_stray s Stray.usual _ hz.image]
  refine Memory.withSessionBits_stray s Stray.usual ?_ _
  rw [Story.size_freshMemory]
  exact hz.image

theorem apply_stray (action : Action) (hz : z.Fitted) :
    @apply s action z = @apply Stray.usual action z := by
  cases action with
  | flow f => exact bind_congr_left (orHalt_congr (by rw [follow_stray s Stray.usual]))
  | call c => exact bind_congr_left (orHalt_congr (by rw [enter_stray s Stray.usual]))
  | read r => exact bind_congr_left (orHalt_congr (beginRead_stray s r hz))
  | save | restore | quit => rfl
  | restart =>
    dsimp only [apply]
    rw [modify_bind, modify_bind, restartedMemory_stray s hz, modify_bind, modify_bind]

/-- A step up to its request to the store looks up nothing that is not there. -/
theorem advance_stray (hz : z.Fitted) (hsettled : z.Settled) :
    @advance s z = @advance Stray.usual z := by
  unfold advance
  rw [get_bind, get_bind, get_bind, get_bind]
  unfold phase
  cases hstate : z.state with
  | terminated => rfl
  | waiting =>
    obtain ⟨r, hr⟩ := Option.isSome_iff_exists.1 (hsettled.2 hstate)
    rw [hr, Option.getD_some, Option.getD_some]
    exact located_congr (bind_congr_left (orHalt_congr (by rw [resumeRead_stray s Stray.usual])))
  | running =>
    refine located_congr ?_
    rw [fetch_stray s Stray.usual]
    refine bind_congr_of_reached fun i w hfetch => ?_
    obtain ⟨hdecode, rfl⟩ := fetch_ok (ok_of_orHalt hfetch)
    have hw : (z.fetched z.pc i).Fitted := ⟨hz.header, hz.image, hz.objects⟩
    refine (bind_congr_left
      (orHalt_congr (execute_stray s (Instruction.decode_complete hdecode) hw))).trans ?_
    refine bind_congr_of_reached fun action u hexecute => ?_
    have hmoves := within_execute i (z.fetched z.pc i)
    rw [ok_of_orHalt hexecute] at hmoves
    exact apply_stray s action (hmoves.fitted hw)

theorem answerSave_stray {i : Instruction} (h : i.branch.isSome = true)
    (answer : Except StoreFailure Unit) : @answerSave s i answer = @answerSave Stray.usual i answer := by
  unfold answerSave
  simp only [Instruction.branchOn_stray s Stray.usual h, follow_stray s Stray.usual]

/-- A snapshot that is accepted has frames, and its memory has a header. -/
theorem restore_stray (d : Snapshot) (hz : z.Fitted) :
    @restore s d z = @restore Stray.usual d z := by
  unfold restore
  refine bind_congr_of_reached fun _ w hw => ?_
  obtain ⟨hcheck, rfl⟩ := eq_of_look hw
  have hvalid := Snapshot.check_eq_ok_iff.1 hcheck
  have hframes : (d.frames.getD []).map SavedFrame.toFrame ≠ [] := by simpa using hvalid.nonempty
  have hsize : Header.size ≤ (d.memory.getD default).size := hvalid.memory ▸ hz.header
  refine congrArg (EStateM.Result.ok ()) ?_
  dsimp only
  rw [CallStack.ofFrames_stray s Stray.usual hframes, Memory.sessionBits_stray s Stray.usual hz.header,
    Memory.withSessionBits_stray s Stray.usual hsize]

theorem resumeAtSave_stray : @resumeAtSave s = @resumeAtSave Stray.usual := by
  funext z
  unfold resumeAtSave
  simp only [Instruction.decode_stray s Stray.usual, follow_stray s Stray.usual]
  refine bind_congr_of_reached fun i w _ => ?_
  split
  · rfl
  · rename_i hnone
    have hbranch : i.branch.isSome = true := by simpa [Option.isSome_iff_ne_none] using hnone
    rw [Instruction.branchOn_stray s Stray.usual hbranch]

theorem answerRestore_stray {i : Instruction} (h : i.branch.isSome = true) (hz : z.Fitted)
    (answer : Except StoreFailure (List Char)) :
    @answerRestore s i answer z = @answerRestore Stray.usual i answer z := by
  have hanswer : @restoreAnswer s answer z = @restoreAnswer Stray.usual answer z := by
    unfold restoreAnswer
    simp only [restore_stray s _ hz]
  unfold answerRestore
  refine located_congr ?_
  rw [get_bind, get_bind, hanswer, resumeAtSave_stray s, follow_stray s Stray.usual,
    Instruction.branchOn_stray s Stray.usual h]

end

/-- **What a step of a reachable machine looks up is there.** -/
theorem step_stray {image : Memory} {story : Story} {z : Machine}
    (hload : Story.load image = .ok story) (hz : Reachable story z) (s : Stray) (answers : Answers) :
    @step s answers z = @step Stray.usual answers z := by
  have hbounded := hz.bounded
  refine (bind_congr_left (advance_stray s (hbounded.fitted hload) hz.settled)).trans ?_
  refine bind_congr_of_reached fun request w hadvance => ?_
  cases request with
  | none => rfl
  | some request =>
    have hw : w.Fitted := by
      have hchanges := within_advance (D := fun _ => True) z
      rw [hadvance] at hchanges
      exact (hchanges.keep (fun _ _ => Bounded.change) hbounded).fitted hload
    obtain ⟨i, hdecode, ⟨hop, rfl⟩ | ⟨hop, rfl⟩⟩ := request_of_advance hadvance
    all_goals
      have hbranch : i.branch.isSome = true := by
        rw [(Instruction.decode_complete hdecode).branch, hop]
        rfl
    · exact congrFun (answerSave_stray s hbranch _) w
    · exact answerRestore_stray s hbranch hw _

end Machine

/-! ## Calls of a host -/

namespace HostCall

open Machine

/-- What a call does.  A step may stop, and other calls may fail with a fault. -/
def act [Stray] : HostCall → EStateM (Stop ⊕ Fault) Machine Unit
  | .step answers => (Machine.step answers).adaptExcept .inl
  | .push line => modify fun z => { z with input := z.input.push line }
  | .press code => modify fun z => { z with input := z.input.press code }
  | .setTranscripting on => (edit fun _ => Memory.setTranscripting on).adaptExcept .inr
  | .setStatusLineAvailable on => (edit fun _ => Memory.setStatusLineAvailable on).adaptExcept .inr
  | .setScreenSplitAvailable on => (edit fun _ => Memory.setScreenSplitAvailable on).adaptExcept .inr
  | .setVariablePitchDefault on => (edit fun _ => Memory.setVariablePitchDefault on).adaptExcept .inr
  | .restore d => (Machine.restore d).adaptExcept .inr

theorem reached_act (c : HostCall) (z : Machine) : reached (c.act z) = c.run z := by
  have hadapt {ε ε' : Type} (f : ε → ε') (x : EStateM ε Machine Unit) :
      reached (x.adaptExcept f z) = reached (x z) := by
    unfold EStateM.adaptExcept
    cases x z <;> rfl
  cases c with
  | push | press => rfl
  | step | setTranscripting | setStatusLineAvailable | setScreenSplitAvailable
  | setVariablePitchDefault | restore => exact hadapt _ _

/-- How some calls end, one after the other, also if some of them fail. -/
def outcomes [Stray] : List HostCall → Machine → List (EStateM.Result (Stop ⊕ Fault) Machine Unit)
  | [], _ => []
  | c :: calls, z => c.act z :: outcomes calls (reached (c.act z))

theorem act_stray {image : Memory} {story : Story} {z : Machine}
    (hload : Story.load image = .ok story) (hz : Reachable story z) (s : Stray) (c : HostCall) :
    @act s c z = @act Stray.usual c z := by
  cases c with
  | step answers =>
    unfold act EStateM.adaptExcept
    dsimp only
    rw [step_stray hload hz]
  | push | press => rfl
  | setTranscripting | setStatusLineAvailable | setScreenSplitAvailable | setVariablePitchDefault =>
    unfold act
    dsimp only [Memory.setTranscripting, Memory.setStatusLineAvailable, Memory.setScreenSplitAvailable,
      Memory.setVariablePitchDefault]
    rw [Memory.setFlag_stray s Stray.usual]
  | restore d =>
    unfold act EStateM.adaptExcept
    dsimp only
    rw [restore_stray s d (hz.bounded.fitted hload)]

/-- **Whatever a host does, what it sees does not depend on lookups of what is not there.** -/
theorem outcomes_stray {image : Memory} {story : Story} {z : Machine}
    (hload : Story.load image = .ok story) (hz : Reachable story z) (s : Stray)
    (calls : List HostCall) :
    @outcomes s calls z = @outcomes Stray.usual calls z := by
  induction calls generalizing z with
  | nil => rfl
  | cons c calls ih =>
    have hnext : Reachable story (reached (@act Stray.usual c z)) := by
      rw [reached_act]
      exact .call c hz
    unfold outcomes
    rw [act_stray hload hz, ih hnext]

end HostCall

namespace Machine

/-- The machine is within its bounds, and whatever it looks at without asking is there. -/
structure Safe (z : Machine) : Prop where
  depth : 1 ≤ z.calls.frames.length ∧ z.calls.frames.length ≤ 1024
  frames : ∀ f ∈ z.calls.frames, f.locals.length ≤ 15 ∧ f.stack.length ≤ 1024
  tables : z.streams.tables.length ≤ 16
  /-- A read is pending exactly while the machine waits for a line. -/
  waiting : z.pendingRead.isSome ↔ z.state = .waiting
  /-- Every object's entry lies in memory. -/
  objects : ∀ o, 1 ≤ o.toNat → o.toNat ≤ z.story.objects.count.toNat →
    ∃ e, z.story.objects.entry o = .ok e ∧ e.toNat + 9 ≤ z.memory.size
  /-- An instruction has the operands that its opcode looks at. -/
  operands : ∀ a i, Instruction.decode z.story.script z.memory a = .ok i →
    i.op.info.minOperands ≤ i.operands.length
  /-- No call looks past the end of memory, at a local, an operand, a branch, a frame, a letter or a
  pending read that is not there, or divides by zero: it makes no difference what would come of it. -/
  calls : ∀ (s : Stray) (c : HostCall), @HostCall.act s c z = @HostCall.act Stray.usual c z
  statusLine : ∀ s : Stray, @statusLine s z = @statusLine Stray.usual z

theorem Reachable.safe {image : Memory} {story : Story} {z : Machine}
    (hload : Story.load image = .ok story) (hz : Reachable story z) : z.Safe := by
  have hbounded := hz.bounded
  have hfitted := hbounded.fitted hload
  constructor
  · refine ⟨?_, hbounded.calls.atMost⟩
    rw [CallStack.length_frames]
    exact Nat.succ_pos _
  · exact fun f hf => ⟨(hbounded.calls.each f hf).locals, (hbounded.calls.each f hf).stack⟩
  · exact hbounded.tables
  · exact hz.settled
  · intro o h1 h2
    obtain ⟨e, he, hstart⟩ := hfitted.objects.entry_eq ⟨h1, h2⟩
    refine ⟨e, he, ?_⟩
    rw [hstart]
    exact hfitted.objects.entry o ⟨h1, h2⟩
  · exact fun a i hi => (Instruction.decode_complete hi).operands
  · exact HostCall.act_stray hload hz
  · exact fun s => statusLine_stray s _ hfitted

/-- **No call of a host looks at anything that is not there**, whatever image of fewer than `2 ^ 32` bytes is
loaded or rejected and whatever the host, the input and the store do. -/
theorem reachable_safe (image : Memory) :
    (∀ s : Stray, @Story.load s image = @Story.load Stray.usual image) ∧
      ∀ story, Story.load image = .ok story →
        (∀ (s : Stray) (random : Random) (tracing : Bool) (calls : List HostCall),
          @HostCall.outcomes s calls { @Machine.start s story random with tracing } =
            @HostCall.outcomes Stray.usual calls
              { @Machine.start Stray.usual story random with tracing }) ∧
        ∀ z, Reachable story z → z.Safe := by
  refine ⟨fun s => Story.load_stray s _ image, fun story hload => ⟨?_, fun z hz => hz.safe hload⟩⟩
  intro s random tracing calls
  have himage : Header.size ≤ story.image.size := by
    obtain ⟨himage, hread, -⟩ := Story.load_ok hload
    rw [himage]
    exact (Header.read_ok hread).1
  have hstart : @Machine.start s story random = @Machine.start Stray.usual story random := by
    unfold Machine.start
    rw [Story.freshMemory_stray s Stray.usual story himage]
  rw [hstart]
  exact HostCall.outcomes_stray hload (.start random tracing) s calls

/-- The small story after a save and the restore of a text that is no snapshot, and an image that is
too short for a header. -/
theorem reachable_safe_small :
    let start := { Machine.start smallStory (Random.ofEntropy 1) with tracing := false }
    let saved := (HostCall.step ⟨.ok (), .error .noStore⟩).run start
    ((HostCall.step ⟨.ok (), .ok ['{']⟩).run saved).Safe ∧
      ∀ s : Stray, @Story.load s ⟨#[3, 0]⟩ = .error (.story (.tooShort 2 64)) :=
  ⟨((reachable_safe smallImage).2 smallStory load_small).2 _
      (Reachable.call (.step ⟨.ok (), .ok ['{']⟩)
        (Reachable.call (.step ⟨.ok (), .error .noStore⟩) (.start _ false))),
    fun s => ((reachable_safe ⟨#[3, 0]⟩).1 s).trans rfl⟩

end Machine

end ZCode
