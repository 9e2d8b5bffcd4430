/-
  Calls and returns.

  * `CallStack.Turn` is what a step that restores nothing does to the call stack: it stays in its
    frame, enters a routine, leaves one, or starts all over (`HostCall.turn`).
  * `Machine.Flows` says where a step leads once its instruction has been carried out.  A step that
    drops a frame without a fault is one that returns (`course`, `flows_of_depth_lt`).
  * `Machine.Above k` is a run that always has at least `k` frames.  It leaves the frames below the
    last of these alone, and this one still returns to where it was called from (`Above.rests`).
  * `call_return` puts these together: what a call sets up, what it keeps from the routine, and what
    the return does.
-/
import ZCode.Proofs.Safety
import ZCode.Proofs.SaveRestore

namespace ZCode

/-! ## The call stack -/

namespace CallStack

/-- What a step can do to the call stack. -/
inductive Turn : CallStack → CallStack → Prop
  | stay {c : CallStack} {f : Frame} : c.current.Near f → Turn c ⟨f, c.callers⟩
  | enter {c : CallStack} {f : Frame} (g : Frame) : c.current.Near f → Turn c ⟨g, f :: c.callers⟩
  | leave {e f g : Frame} {rest : List Frame} : f.Near g → Turn ⟨e, f :: rest⟩ ⟨g, rest⟩
  | reset (c : CallStack) : Turn c {}

/-- The frames `base`, the innermost first, lie under one that returns to `a` and stores its result
in `v`. -/
def Rests (base : List Frame) (a : Address) (v : UInt8) (c : CallStack) : Prop :=
  ∃ above f, c.current :: c.callers = above ++ f :: base ∧ f.returnTo = a ∧ f.store = some v

variable {base : List Frame} {a : Address} {v : UInt8} {c c' : CallStack}

theorem frames_eq (c : CallStack) : c.frames = c.callers.reverse ++ [c.current] := by
  simp [frames]

theorem Rests.near (h : c.Rests base a v) {f : Frame} (hf : c.current.Near f) :
    Rests base a v ⟨f, c.callers⟩ := by
  obtain ⟨above, g, hs, ha, hv⟩ := h
  cases above with
  | nil =>
    simp only [List.nil_append, List.cons.injEq] at hs
    obtain ⟨rfl, rfl⟩ := hs
    exact ⟨[], f, rfl, hf.returnTo.trans ha, hf.store.trans hv⟩
  | cons e above =>
    simp only [List.cons_append, List.cons.injEq] at hs
    exact ⟨f :: above, g, by simp [hs.2], ha, hv⟩

theorem Rests.push {f : Frame} {callers : List Frame} (h : Rests base a v ⟨f, callers⟩)
    (g : Frame) : Rests base a v ⟨g, f :: callers⟩ := by
  obtain ⟨above, e, hs, he⟩ := h
  exact ⟨g :: above, e, by simpa using hs, he⟩

theorem Rests.pop {e f : Frame} {rest : List Frame} (h : Rests base a v ⟨e, f :: rest⟩)
    (hd : base.length ≤ rest.length) : Rests base a v ⟨f, rest⟩ := by
  obtain ⟨above, g, hs, hg⟩ := h
  cases above with
  | nil =>
    simp only [List.nil_append, List.cons.injEq] at hs
    have := congrArg List.length hs.2
    simp at this
    omega
  | cons _ above =>
    simp only [List.cons_append, List.cons.injEq] at hs
    exact ⟨above, g, hs.2, hg⟩

/-- A step that does not get below them leaves the frames of the callers alone. -/
theorem Turn.rests (h : Turn c c') (hr : c.Rests base a v) (hne : base ≠ [])
    (hd : base.length < c'.depth) : c'.Rests base a v := by
  cases h with
  | stay hf => exact hr.near hf
  | enter g hf => exact (hr.near hf).push g
  | leave hf => exact (hr.pop (by simp [depth] at hd; omega)).near hf
  | reset =>
    have : base.length = 0 := by simpa [depth] using hd
    exact absurd (List.length_eq_zero_iff.1 this) hne

theorem Rests.length_lt (h : c.Rests base a v) : base.length < c.depth := by
  obtain ⟨above, f, hs, -⟩ := h
  have := congrArg List.length hs
  simp only [List.length_cons, List.length_append] at this
  simp only [depth]
  omega

theorem Rests.take_frames (h : c.Rests base a v) : c.frames.take base.length = base.reverse := by
  obtain ⟨above, f, hs, -⟩ := h
  simp [frames, hs]

/-- What a step does to the stack with the current frame changed, it does to the stack itself. -/
theorem Turn.of_near {f : Frame} (hf : c.current.Near f) (h : Turn ⟨f, c.callers⟩ c') :
    Turn c c' := by
  obtain ⟨e, callers⟩ := c
  cases h with
  | stay hg => exact .stay (hf.trans hg)
  | enter g hg => exact .enter g (hf.trans hg)
  | leave hg => exact .leave hg
  | reset => exact .reset _

end CallStack

open CallStack

namespace Machine

variable {answers : Answers}

theorem Moves.story {z w : Machine} (h : Moves z w) : w.story = z.story := by
  induction h with
  | refl => rfl
  | tail _ hm ih => cases hm <;> exact ih

theorem Moves.turn {z w : Machine} (h : Moves z w) : Turn z.calls w.calls := by
  have hw : w.calls = ⟨w.calls.current, z.calls.callers⟩ := by rw [← h.calls.1]
  rw [hw]
  exact .stay h.calls.2

theorem Moves.turn_trans {z u : Machine} (h : Moves z u) {c : CallStack} (hu : Turn u.calls c) :
    Turn z.calls c := by
  refine .of_near h.calls.2 ?_
  rwa [← h.calls.1]

theorem moves_fetched (z : Machine) (pc : Address) (i : Instruction) : Moves z (z.fetched pc i) :=
  .single (.book z z.pc z.state ..)

theorem moves_of_execute {z u : Machine} {pc : Address} {i : Instruction} {action : Action}
    (h : execute i (z.fetched pc i) = .ok action u) : Moves z u := by
  have hmoves := within_execute i (z.fetched pc i)
  rw [h] at hmoves
  exact (moves_fetched z pc i).trans hmoves

/-! ## Leaving a routine -/

/-- The machine as its caller goes on, before the result is stored. -/
def left (z : Machine) (caller : Frame) (rest : List Frame) : Machine :=
  { z with calls := ⟨caller, rest⟩, pc := z.calls.current.returnTo }

theorem leave_main {z : Machine} (h : z.calls.callers = []) (value : UInt16) :
    leave value z = .error (.machine .returnFromMain) z := by
  refine bind_error ?_
  simp only [look, CallStack.pop, h]

theorem leave_caller {z : Machine} {caller : Frame} {rest : List Frame}
    (h : z.calls.callers = caller :: rest) (value : UInt16) :
    leave value z = (match z.calls.current.store with
      | some v => setVariable v value
      | none => pure ()) (z.left caller rest) := by
  have hpop : look (fun z => z.calls.pop) z = .ok (z.calls.current, ⟨caller, rest⟩) z := by
    simp only [look, CallStack.pop, h]
  exact bind_ok hpop

/-- Behind the return, only the caller's frame and memory are touched. -/
theorem moves_leave {z : Machine} {caller : Frame} {rest : List Frame}
    (h : z.calls.callers = caller :: rest) (value : UInt16) :
    Moves (z.left caller rest) (reached (leave value z)) := by
  rw [leave_caller h]
  cases z.calls.current.store with
  | some v => exact within_setVariable v value _
  | none => exact .refl

theorem turn_leave (value : UInt16) (z : Machine) :
    Turn z.calls (reached (leave value z)).calls := by
  cases hc : z.calls.callers with
  | nil =>
    rw [leave_main hc]
    exact Moves.turn .refl
  | cons caller rest =>
    have hm := (moves_leave hc value).calls
    have hz : z.calls = ⟨z.calls.current, caller :: rest⟩ := by rw [← hc]
    have hrest : (reached (leave value z)).calls.callers = rest := hm.1
    have hw : (reached (leave value z)).calls =
        ⟨(reached (leave value z)).calls.current, rest⟩ := by
      rw [← hrest]
    rw [hz, hw]
    exact .leave hm.2

theorem turn_follow (flow : Flow) (z : Machine) : Turn z.calls (reached (follow flow z)).calls := by
  cases flow with
  | next a => exact (within_setPc a z).turn
  | jump base offset => exact (within_setPc _ z).turn
  | ret value => exact turn_leave value z

/-! ## Entering a routine -/

/-- The machine in a routine with these locals. -/
def entered (z : Machine) (c : Call) (locals : List UInt16) : Machine :=
  { z with
    calls := ⟨{ locals, returnTo := c.returnTo, store := some c.storeTo },
      z.calls.current :: z.calls.callers⟩
    pc := c.routine + 1 + UInt32.ofNat (2 * locals.length) }

theorem moves_enter_zero {c : Call} (h : c.routine = 0) (z : Machine) :
    Moves z (reached (enter c z)) := by
  unfold enter
  rw [if_pos h]
  exact ((within_setPc _).bind fun _ => within_setVariable _ _) z

/-- A routine is entered whole or not at all. -/
theorem enter_cases {c : Call} (h : c.routine ≠ 0) (z : Machine) :
    (∃ fault, enter c z = .error fault z) ∨
      ∃ n locals, z.memory.byte c.routine = .ok n ∧ n.toNat ≤ Frame.maxLocals ∧
        initialLocals z.memory (c.routine + 1) n.toNat c.args = .ok locals ∧
        enter c z = .ok () (z.entered c locals) := by
  unfold enter
  rw [if_neg h]
  cases hn : z.memory.byte c.routine with
  | error fault => exact .inl ⟨fault, bind_error (by simp only [look, hn])⟩
  | ok n =>
    rw [bind_ok (show look (fun z => z.memory.byte c.routine) z = .ok n z by simp only [look, hn])]
    dsimp only
    split
    · exact .inl ⟨_, rfl⟩
    rename_i hmax
    cases hl : initialLocals z.memory (c.routine + 1) n.toNat c.args with
    | error fault => exact .inl ⟨fault, bind_error (by simp only [look, hl])⟩
    | ok locals =>
      rw [bind_ok (t := z) (a := locals) (by simp only [look, hl])]
      cases hp : z.calls.push { locals, returnTo := c.returnTo, store := some c.storeTo } with
      | error fault => exact .inl ⟨fault, bind_error (by simp only [look, hp])⟩
      | ok calls =>
        refine .inr ⟨n, locals, rfl, Nat.not_lt.1 hmax, hl, ?_⟩
        rw [bind_ok (t := z) (a := calls) (by simp only [look, hp])]
        unfold CallStack.push at hp
        split at hp
        · cases hp
        · cases hp
          unfold entered
          rw [length_initialLocals hl]
          rfl

theorem turn_enter (c : Call) (z : Machine) : Turn z.calls (reached (enter c z)).calls := by
  by_cases h : c.routine = 0
  · exact (moves_enter_zero h z).turn
  rcases enter_cases h z with ⟨fault, he⟩ | ⟨n, locals, -, -, -, he⟩
  · rw [he]
    exact Moves.turn .refl
  · rw [he]
    exact .enter _ (.refl _)

/-! ## What a step can do -/

/-- The step at `z` has carried out its instruction and is at `u`, from where it goes on as `flow`
says.  A save, and a restore that brought nothing, go where their branch leads. -/
inductive Flows (answers : Answers) (z : Machine) : Flow → Machine → Prop
  | plain {i : Instruction} {flow : Flow} {u : Machine} : z.Next i →
      execute i (z.fetched z.pc i) = .ok (.flow flow) u → Flows answers z flow u
  | saved {i : Instruction} : z.Next i → i.op = .save → answers.save = .ok () →
      Flows answers z (i.branchOn true) (z.fetched z.pc i)
  | unsaved {i : Instruction} {cause : StoreFailure} : z.Next i → i.op = .save →
      answers.save = .error cause →
      Flows answers z (i.branchOn false) (reached
        (addLog (if cause = .noStore then .noSaveStore else .saveFailed cause) (z.fetched z.pc i)))
  | unrestored {i : Instruction} {cause : StoreFailure} : z.Next i → i.op = .restore →
      restoreAnswer answers.restore (z.fetched z.pc i) = .error cause →
      Flows answers z (i.branchOn false) (reached
        (addLog (.restoreFailed cause) (z.fetched z.pc i)))

theorem Flows.moves {z u : Machine} {flow : Flow} (h : Flows answers z flow u) : Moves z u := by
  cases h with
  | plain _ he => exact moves_of_execute he
  | saved => exact moves_fetched z _ _
  | unsaved | unrestored => exact (moves_fetched z _ _).trans (within_addLog _ _)

section
variable {z u : Machine} {i : Instruction}

/-- A step hands the action of its instruction on. -/
theorem advance_of_execute {action : Action} (hi : z.Next i)
    (he : execute i (z.fetched z.pc i) = .ok action u) :
    advance z = located z.pc (apply action) u := by
  have hfetch : fetch z.pc z = .ok i (z.fetched z.pc i) := by rw [fetch_eq, hi.decodes]
  rw [advance_running hi.running]
  unfold located
  rw [bind_ok (orHalt_ok hfetch), bind_ok (orHalt_ok he)]

/-- A step whose action asks nothing of the store ends as the action does. -/
theorem step_of_plain {action : Action} {act : Run Unit} (hi : z.Next i)
    (he : execute i (z.fetched z.pc i) = .ok action u)
    (ha : apply action = do orHalt act; return none) :
    step answers z = located z.pc (orHalt act) u := by
  have hadvance := advance_of_execute hi he
  rw [ha] at hadvance
  unfold step
  cases hact : act u with
  | ok _ w =>
    have hadvance : advance z = .ok none w := by
      rw [hadvance]
      exact located_ok (bind_ok (orHalt_ok hact))
    rw [bind_ok hadvance, located_ok (orHalt_ok hact)]
    rfl
  | error fault w =>
    have hhalt : orHalt act u = .error (.fault fault) w := by
      simp only [orHalt, EStateM.adaptExcept, hact]
    have hadvance : advance z = .error (.fault z.pc w.lastInstruction fault) w := by
      rw [hadvance, located, bind_error hhalt]
    rw [bind_error hadvance, located, hhalt]

/-- Only a save, restore or read instruction asks for one. -/
theorem op_of_execute {action : Action} {w : Machine} (he : execute i z = .ok action w) :
    action.Of i := by
  obtain ⟨args, _, -, hperform⟩ := ok_of_bind he
  exact gives_performOn i args _ _ _ _ _ _ hperform

end

/-- The course of a step that restores nothing. -/
inductive Course (answers : Answers) (z : Machine) : Prop
  /-- It stays in its frame. -/
  | stays : Moves z (reached (step answers z)) → Course answers z
  | flows {flow : Flow} {u : Machine} (pc : Address) : Flows answers z flow u →
      step answers z = located pc (orHalt (follow flow)) u → Course answers z
  | calls {i : Instruction} {c : Call} {u : Machine} :
      execute i (z.fetched z.pc i) = .ok (.call c) u →
      step answers z = located z.pc (orHalt (enter c)) u → Course answers z
  | restarts {w : Machine} : step answers z = .error .restart w → w.calls = {} → Course answers z

/-- A step that stops before it can ask the store. -/
theorem course_of_error {z w : Machine} {stop : Stop} (h : advance z = .error stop w)
    (hm : Moves z w) : Course answers z := by
  refine .stays ?_
  unfold step
  rwa [bind_error h]

theorem course_waiting {z : Machine} {r : PendingRead} (h : z.phase = .waiting r) :
    Course answers z := by
  have hmoves : Moves z (reached (advance z)) := by
    rw [advance_waiting h]
    exact within_located _ ((within_orHalt (within_resumeRead r)).bind fun _ => .pure _) z
  refine .stays (reached_bind hmoves ?_)
  intro request w hw
  rw [advance_waiting h] at hw
  obtain ⟨_, _, _, ⟨⟩⟩ := ok_of_bind (ok_of_located hw)
  exact .refl

/-- A step whose instruction faults. -/
theorem advance_of_fault {z u : Machine} {i : Instruction} {fault : Fault} (hi : z.Next i)
    (he : execute i (z.fetched z.pc i) = .error fault u) :
    advance z = .error (.fault z.pc u.lastInstruction fault) u := by
  have hfetch : fetch z.pc z = .ok i (z.fetched z.pc i) := by rw [fetch_eq, hi.decodes]
  have hexecute : orHalt (execute i) (z.fetched z.pc i) = .error (.fault fault) u := by
    simp only [orHalt, EStateM.adaptExcept, he]
  rw [advance_running hi.running, located, bind_ok (orHalt_ok hfetch), bind_error hexecute]

/-- The course of a step that has carried out its instruction. -/
theorem course_of_execute {z u : Machine} {i : Instruction} {action : Action}
    (h : ∀ d, ¬ RestoresInStep answers z d) (hi : z.Next i)
    (he : execute i (z.fetched z.pc i) = .ok action u) : Course answers z := by
  have hmoves := moves_of_execute he
  cases action with
  | flow f => exact .flows z.pc (.plain hi he) (step_of_plain hi he rfl)
  | call c => exact .calls he (step_of_plain hi he rfl)
  | read r =>
    refine .stays ?_
    rw [step_of_plain hi he rfl, reached_located, reached_orHalt]
    exact hmoves.trans (within_beginRead r u)
  | quit =>
    refine course_of_error (advance_of_execute hi he) (hmoves.trans ?_)
    exact (Relation.ReflTransGen.single (.book ..)).tail (.book ..)
  | restart =>
    have hadvance := advance_of_execute hi he
    exact .restarts (bind_error hadvance) rfl
  | save j =>
    obtain ⟨rfl, hop⟩ := op_of_execute he
    cases ha : answers.save with
    | ok => exact .flows j.address (.saved hi hop ha) (step_save hi hop ha)
    | error cause => exact .flows j.address (.unsaved hi hop ha) (step_unsaved hi hop ha)
  | restore j =>
    obtain ⟨rfl, hop⟩ := op_of_execute he
    cases ha : restoreAnswer answers.restore (z.fetched z.pc j) with
    | ok w =>
      obtain ⟨d, hd, hw, -⟩ := restoreAnswer_ok ha
      exact absurd ⟨j, _, advance_restore hi hop, hd, hw⟩ (h d)
    | error cause => exact .flows j.address (.unrestored hi hop ha) (step_unrestored hi hop ha)

/-- **Every step that restores nothing takes one of these courses.** -/
theorem course {z : Machine} (h : ∀ d, ¬ RestoresInStep answers z d) : Course answers z := by
  cases hp : z.phase with
  | terminated => exact course_of_error (advance_terminated hp) .refl
  | waiting r => exact course_waiting hp
  | running =>
    cases hd : Instruction.decode z.story.script z.memory z.pc with
    | error fault => exact course_of_error (advance_of_undecoded hp hd) .refl
    | ok i =>
      have hi : z.Next i := ⟨hp, hd⟩
      cases he : execute i (z.fetched z.pc i) with
      | error fault u =>
        have hmoves := within_execute i (z.fetched z.pc i)
        rw [he, reached_error] at hmoves
        exact course_of_error (advance_of_fault hi he) ((moves_fetched z z.pc i).trans hmoves)
      | ok action u => exact course_of_execute h hi he

theorem turn_step {z : Machine} (h : ∀ d, ¬ RestoresInStep answers z d) :
    Turn z.calls (reached (step answers z)).calls := by
  rcases course h with hm | ⟨pc, hflow, hs⟩ | ⟨he, hs⟩ | ⟨hs, hw⟩
  · exact hm.turn
  · rw [hs, reached_located, reached_orHalt]
    exact hflow.moves.turn_trans (turn_follow _ _)
  · rw [hs, reached_located, reached_orHalt]
    exact (moves_of_execute he).turn_trans (turn_enter _ _)
  · rw [hs, reached_error, hw]
    exact .reset _

theorem Moves.depth {z w : Machine} (h : Moves z w) : w.calls.depth = z.calls.depth := by
  unfold CallStack.depth
  rw [h.calls.1]

theorem depth_of_enter {c : Call} {z w : Machine} (h : enter c z = .ok () w) :
    z.calls.depth ≤ w.calls.depth := by
  by_cases h0 : c.routine = 0
  · have hm := moves_enter_zero h0 z
    rw [h] at hm
    exact hm.depth.ge
  rcases enter_cases h0 z with ⟨fault, he⟩ | ⟨n, locals, -, -, -, he⟩
  · rw [h] at he
    cases he
  · rw [h] at he
    cases he
    exact Nat.le_succ _

/-- A step without a fault that has lost a frame has returned. -/
theorem flows_of_depth_lt {z w : Machine} (h : ∀ d, ¬ RestoresInStep answers z d)
    (hs : step answers z = .ok () w) (hd : w.calls.depth < z.calls.depth) :
    ∃ value u, Flows answers z (.ret value) u ∧ leave value u = .ok () w := by
  cases course h with
  | stays hm =>
    rw [hs] at hm
    exact absurd hm.depth hd.ne
  | @flows flow u pc hflow hf =>
    have hfollow := ok_of_orHalt (ok_of_located (hf.symm.trans hs))
    cases flow with
    | ret value => exact ⟨value, u, hflow, hfollow⟩
    | next a | jump base offset =>
      cases hfollow
      exact absurd hflow.moves.depth hd.ne
  | calls he hc =>
    have := depth_of_enter (ok_of_orHalt (ok_of_located (hc.symm.trans hs)))
    have := (moves_of_execute he).depth
    omega
  | restarts hr =>
    rw [hs] at hr
    cases hr

end Machine

/-! ## Runs above a frame -/

open Machine

/-- What a call of a host that restores nothing does to the call stack. -/
theorem HostCall.turn (c : HostCall) {z : Machine} (h : ∀ d, ¬ c.Restores z d) :
    Turn z.calls (c.run z).calls := by
  cases c with
  | step answers => exact turn_step h
  | push line => exact Moves.turn (.single (.book z ..))
  | press code => exact Moves.turn (.single (.book z ..))
  | setTranscripting on | setStatusLineAvailable on | setScreenSplitAvailable on
  | setVariablePitchDefault on =>
    exact (within_edit (fun s => s.protection.within_setFlag _ (by decide) (by decide)) z).turn
  | restore d =>
    have hrefused : ¬ z.accepts d := fun ha => h d ⟨rfl, ha⟩
    dsimp only [run]
    rw [restore_eq]
    cases hc : d.check z.story z.memory.size with
    | ok => exact absurd hc hrefused
    | error fault => exact Moves.turn .refl

namespace Machine

/-- A run of calls of a host that restore nothing, with at least `k` frames after each of them. -/
inductive Above (k : Nat) : Machine → Machine → Prop
  | refl (z : Machine) : Above k z z
  | call {z w : Machine} (c : HostCall) : Above k z w → (∀ d, ¬ c.Restores w d) →
      k ≤ (c.run w).calls.depth → Above k z (c.run w)

theorem Above.reachable {story : Story} {k : Nat} {z w : Machine} (h : Above k z w)
    (hz : Reachable story z) : Reachable story w := by
  induction h with
  | refl => exact hz
  | call c _ _ _ ih => exact ih.call c

/-- **A run leaves the frames below it alone**, and the lowest of its own still returns to where it
was called from. -/
theorem Above.rests {base : List Frame} {a : Address} {v : UInt8} {z w : Machine}
    (h : Above (base.length + 1) z w) (hne : base ≠ []) (hz : z.calls.Rests base a v) :
    w.calls.Rests base a v := by
  induction h with
  | refl => exact hz
  | call c _ hr hd ih => exact (c.turn hr).rests ih hne hd

/-! ## Arguments -/

theorem operandValue_ok {o : Operand} {hint : Hint} {z w : Machine} {v : Int}
    (h : operandValue o hint z = .ok v w) : v = 0 ∨ ∃ raw u, meaning hint raw u = .ok v w := by
  dsimp only [operandValue] at h
  split at h
  · cases h
    exact .inl rfl
  split at h
  · split at h
    · cases h
    · obtain ⟨raw, u, -, hm⟩ := ok_of_bind h
      exact .inr ⟨raw, u, hm⟩
  · exact .inr ⟨o.value, z, h⟩

theorem operandValue_plain {o : Operand} {z w : Machine} {v : Int}
    (h : operandValue o .plain z = .ok v w) : ∃ raw : UInt16, v = raw.toNat := by
  rcases operandValue_ok h with rfl | ⟨raw, u, hm⟩
  · exact ⟨0, rfl⟩
  · cases hm
    exact ⟨raw, rfl⟩

theorem operandValue_packed {o : Operand} {z w : Machine} {v : Int}
    (h : operandValue o .packed z = .ok v w) : ∃ raw : UInt16, v = 2 * raw.toNat := by
  rcases operandValue_ok h with rfl | ⟨raw, u, hm⟩
  · exact ⟨0, rfl⟩
  · cases hm
    exact ⟨raw, rfl⟩

theorem operandValues_args {operands : List Operand} {n : Nat} {z w : Machine} {values : List Int}
    (h : operandValues .call (n + 1) operands z = .ok values w) :
    ∃ args : List UInt16, values = args.map fun a => (a.toNat : Int) := by
  induction operands generalizing n z values with
  | nil =>
    cases h
    exact ⟨[], rfl⟩
  | cons o operands ih =>
    have hhint : Op.call.hint (n + 1) = .plain := by cases n <;> rfl
    obtain ⟨v, u, hv, h⟩ := ok_of_bind h
    obtain ⟨rest, u', hrest, h⟩ := ok_of_bind h
    cases h
    rw [hhint] at hv
    obtain ⟨raw, rfl⟩ := operandValue_plain hv
    obtain ⟨args, rfl⟩ := ih hrest
    exact ⟨raw :: args, rfl⟩

theorem ofInt_toNat (a : UInt16) : UInt16.ofInt a.toNat = a := by
  have hlt := a.toNat_lt
  have hmod : ((a.toNat : Int) % 2 ^ 16).toNat = a.toNat := by omega
  simp only [UInt16.ofInt, hmod, UInt16.ofNat_toNat]

theorem ofInt_packed (w : UInt16) :
    UInt32.ofInt (2 * (w.toNat : Int)) = UInt32.ofNat (2 * w.toNat) := by
  have hlt := w.toNat_lt
  have hmod : (2 * (w.toNat : Int) % 2 ^ 32).toNat = 2 * w.toNat := by omega
  simp only [UInt32.ofInt, hmod]

/-- The call that the instruction makes with these values of its operands. -/
structure MakesCall (i : Instruction) (values : List Int) (c : Call) : Prop where
  values : values = (c.routine.toNat : Int) :: c.args.map fun a => (a.toNat : Int)
  storeTo : c.storeTo = i.storeTo
  returnTo : c.returnTo = i.next

theorem laterOperands_cons (a : Int) (args : List Int) : laterOperands (a :: args) = args := rfl

/-- What a call instruction asks for: its first operand is the packed address of the routine. -/
theorem execute_call {i : Instruction} (hop : i.op = .call) (hi : i.Complete) {z u : Machine}
    {action : Action} (he : execute i z = .ok action u) :
    ∃ values c, operandValues i.op 0 i.operands z = .ok values u ∧ MakesCall i values c ∧
      c.routine.toNat < 0x20000 ∧ action = .call c := by
  obtain ⟨values, u', hv, hperform⟩ := ok_of_bind he
  have hpos : 1 ≤ i.operands.length := by
    have := hi.operands
    rwa [hop] at this
  rw [hop] at hv ⊢
  obtain ⟨o, operands, ho⟩ : ∃ o operands, i.operands = o :: operands :=
    List.exists_cons_of_length_pos hpos
  rw [ho] at hv ⊢
  obtain ⟨v, w, hfirst, h⟩ := ok_of_bind hv
  obtain ⟨rest, w', hrest, h⟩ := ok_of_bind h
  cases h
  obtain ⟨routine, rfl⟩ := operandValue_packed hfirst
  obtain ⟨args, rfl⟩ := operandValues_args hrest
  have hargs : (args.map fun a => (a.toNat : Int)).map UInt16.ofInt = args := by
    simp [Function.comp_def, ofInt_toNat]
  unfold perform performOn at hperform
  simp only [hop, List.getD_cons_zero, laterOperands_cons, hargs, ofInt_packed] at hperform
  cases hperform
  refine ⟨_, _, hv, ⟨?_, rfl, rfl⟩, ?_, rfl⟩
  · simp only [toNat_packed]
    rfl
  · have := routine.toNat_lt
    simp only [toNat_packed]
    omega

/-! ## Locals -/

theorem initialLocals_ok {m : Memory} {a : Address} {n : Nat} {args locals : List UInt16}
    (ha : a.toNat + 2 * n < 0x100000000) (h : initialLocals m a n args = .ok locals) :
    (∀ k < n, a.toNat + 2 * k + 2 ≤ m.size) ∧
      locals = (List.range n).map fun k => args.getD k (m.getWord (a.toNat + 2 * k)) := by
  unfold initialLocals at h
  obtain ⟨defaults, hd, h⟩ := bind_eq_ok_iff.1 h
  cases h
  have hmap := map_of_mapM hd
  have hlen : defaults.length = n := by simpa using (congrArg List.length hmap).symm
  -- every word of the header has been read from where it stands
  have hword : ∀ k (hk : k < n), a.toNat + 2 * k + 2 ≤ m.size ∧
      defaults.get ⟨k, hlen.symm ▸ hk⟩ = m.getWord (a.toNat + 2 * k) := by
    intro k hk
    have hat : (a + UInt32.ofNat (2 * k)).toNat = a.toNat + 2 * k := by
      simp
      omega
    have hget := congrArg (fun l => l[k]?) hmap
    simp only [List.getElem?_map, List.getElem?_range hk, Option.map_some,
      List.getElem?_eq_getElem (hlen.symm ▸ hk), Option.some.injEq, Memory.word_eq, hat] at hget
    split at hget
    · exact ⟨‹_›, (Except.ok.inj hget).symm⟩
    · cases hget
  refine ⟨fun k hk => (hword k hk).1, List.ext_getElem (by simp [hlen]) fun k hk hk' => ?_⟩
  have hk : k < n := by simpa [hlen] using hk
  have hdefault := (hword k hk).2
  simp only [List.get_eq_getElem] at hdefault
  simp [hdefault]

end Machine

/-- The locals with which the routine at `n` starts: its arguments, and the words of its header
where there is none. -/
def Memory.startingLocals (m : Memory) (n : Nat) (args : List UInt16) : List UInt16 :=
  (List.range (m.get n).toNat).map fun k => args.getD k (m.getWord (n + 1 + 2 * k))

namespace Machine

/-- The call has led from `z` into its routine. -/
structure Calls (c : Call) (z w : Machine) : Prop where
  /-- The routine's header lies in memory: the number of its locals and a word for each of them. -/
  header : c.routine.toNat + 1 + 2 * (z.memory.get c.routine.toNat).toNat ≤ z.memory.size
  frames : w.calls.frames = z.calls.frames ++
    [{ locals := z.memory.startingLocals c.routine.toNat c.args, stack := [],
       returnTo := c.returnTo, store := some c.storeTo }]
  pc : w.pc.toNat = c.routine.toNat + 1 + 2 * (z.memory.get c.routine.toNat).toNat
  memory : w.memory = z.memory

theorem calls_of_enter {c : Call} {z w : Machine} (hne : c.routine ≠ 0)
    (hlt : c.routine.toNat < 0x20000) (h : enter c z = .ok () w) : Calls c z w := by
  rcases enter_cases hne z with ⟨fault, he⟩ | ⟨n, locals, hbyte, hn, hlocals, he⟩
  · rw [h] at he
    cases he
  rw [h] at he
  cases he
  obtain ⟨hin, rfl⟩ := Memory.lt_size_of_byte hbyte
  unfold Frame.maxLocals at hn
  have hbehind : (c.routine + 1).toNat = c.routine.toNat + 1 := by
    rw [UInt32.toNat_add]
    simp
    omega
  obtain ⟨hwords, hlocals⟩ := initialLocals_ok (by omega) hlocals
  rw [hbehind] at hwords hlocals
  refine ⟨?_, ?_, ?_, rfl⟩
  · by_cases h0 : (z.memory.get c.routine.toNat).toNat = 0
    · omega
    · have := hwords ((z.memory.get c.routine.toNat).toNat - 1) (by omega)
      omega
  · rw [CallStack.frames_eq, hlocals]
    simp [entered, CallStack.frames, Memory.startingLocals]
  · show (c.routine + 1 + UInt32.ofNat (2 * locals.length)).toNat = _
    rw [UInt32.toNat_add, hbehind, hlocals]
    simp
    omega

/-! ## Storing a result -/

/-- The value is stored in a variable: the frames and the memory before, and those after. -/
inductive Stores (story : Story) (value : UInt16) :
    UInt8 → List Frame → Memory → List Frame → Memory → Prop
  /-- Variable 0 is the stack of the current frame, which is the last one. -/
  | stack (outer : List Frame) (f : Frame) (m : Memory) :
      Stores story value 0 (outer ++ [f]) m (outer ++ [{ f with stack := value :: f.stack }]) m
  | slot {v : UInt8} (outer : List Frame) (f : Frame) (m : Memory) : 1 ≤ v.toNat → v.toNat ≤ 15 →
      v.toNat ≤ f.locals.length →
      Stores story value v (outer ++ [f]) m
        (outer ++ [{ f with locals := f.locals.set (v.toNat - 1) value }]) m
  | global {v : UInt8} (frames : List Frame) (m : Memory) : 16 ≤ v.toNat →
      story.header.globals.toNat + 2 * (v.toNat - 16) + 2 ≤ m.size →
      Stores story value v frames m frames
        (m.putWord (story.header.globals.toNat + 2 * (v.toNat - 16)) value)

theorem checkLocal_ok {f : Frame} {n : UInt8} (h : f.checkLocal n = .ok ()) :
    1 ≤ n.toNat ∧ n.toNat ≤ 15 ∧ n.toNat ≤ f.locals.length := by
  unfold Frame.checkLocal at h
  split at h
  · cases h
  split at h
  · cases h
  rename_i hrange hdeclared
  simp only [not_or, UInt8.lt_iff_toNat_lt, Nat.not_lt, Frame.maxLocals] at hrange
  exact ⟨hrange.1, hrange.2, Nat.not_lt.1 hdeclared⟩

theorem toNat_globalAddress {story : Story} (hglobals : story.header.globals.toNat < 65536)
    {v : UInt8} (hv : 16 ≤ v.toNat) :
    (story.globalAddress (globalOf v)).toNat = story.header.globals.toNat + 2 * (v.toNat - 16) := by
  have hlt := v.toNat_lt
  have hglobal : (globalOf v).toNat = v.toNat - 16 := by
    unfold globalOf
    rw [UInt8.toNat_sub_of_le _ _ (by simpa [UInt8.le_iff_toNat_le] using hv)]
    rfl
  unfold Story.globalAddress
  simp [hglobal]
  omega

theorem setFrame_ok {g : Frame → Except Fault Frame} {z w : Machine}
    (h : setFrame g z = .ok () w) :
    ∃ f, g z.calls.current = .ok f ∧ w = { z with calls := { z.calls with current := f } } := by
  unfold setFrame onFrame at h
  cases hg : g z.calls.current with
  | error fault =>
    simp only [hg] at h
    cases h
  | ok f =>
    simp only [hg] at h
    cases h
    exact ⟨f, rfl, rfl⟩

theorem memory_of_edit {α : Type} {e : Story → Edit α} {z w : Machine} {a : α}
    (h : edit e z = .ok a w) : e z.story z.memory = .ok a w.memory := by
  unfold edit at h
  cases he : e z.story z.memory with
  | ok b m =>
    simp only [he] at h
    cases h
    rfl
  | error fault m =>
    simp only [he] at h
    cases h

theorem setVariable_ok {story : Story} (hglobals : story.header.globals.toNat < 65536) {v : UInt8}
    {value : UInt16} {z w : Machine} (hz : z.story = story)
    (h : setVariable v value z = .ok () w) :
    w.pc = z.pc ∧ Stores story value v z.calls.frames z.memory w.calls.frames w.memory := by
  unfold setVariable at h
  split at h
  · rename_i hv
    subst hv
    obtain ⟨f, hf, rfl⟩ := setFrame_ok h
    unfold Frame.push at hf
    split at hf
    · cases hf
    · cases hf
      rw [frames_eq, frames_eq]
      exact ⟨rfl, .stack ..⟩
  split at h
  · obtain ⟨f, hf, rfl⟩ := setFrame_ok h
    obtain ⟨_, hc, hf⟩ := bind_eq_ok_iff.1 hf
    cases hf
    obtain ⟨h1, h2, h3⟩ := checkLocal_ok hc
    rw [frames_eq, frames_eq, Frame.putLocal_eq]
    exact ⟨rfl, .slot _ _ _ h1 h2 h3⟩
  · rename_i hv
    have hv : 16 ≤ v.toNat := by simpa [UInt8.lt_iff_toNat_lt] using hv
    obtain ⟨hin, hm⟩ := Protection.of_writeWord (memory_of_edit h)
    have hw := eq_of_edit h
    rw [hm, hz, toNat_globalAddress hglobals hv] at hw
    rw [hz, toNat_globalAddress hglobals hv] at hin
    rw [hw]
    exact ⟨rfl, .global _ _ hv hin⟩

/-! ## Calls and their returns -/

theorem Calls.rests {c : Call} {z w : Machine} (h : Calls c z w) :
    w.calls.Rests z.calls.frames.reverse c.returnTo c.storeTo := by
  have hframes := congrArg List.reverse h.frames
  rw [CallStack.frames, List.reverse_reverse, List.reverse_append] at hframes
  exact ⟨[], _, hframes, rfl, rfl⟩

theorem Calls.depth {c : Call} {z w : Machine} (h : Calls c z w) :
    w.calls.depth = z.calls.depth + 1 := by
  have := congrArg List.length h.frames
  simpa [length_frames] using this

/-- A return to the frames `base` goes on where they called, and stores the result there. -/
theorem stores_of_leave {story : Story} (hglobals : story.header.globals.toNat < 65536)
    {base : List Frame} {a : Address} {v : UInt8} {value : UInt16} {z w : Machine}
    (hz : z.story = story) (hr : z.calls.Rests base a v) (h : leave value z = .ok () w)
    (hd : w.calls.depth = base.length) :
    w.pc = a ∧ Stores story value v base.reverse z.memory w.calls.frames w.memory := by
  cases hc : z.calls.callers with
  | nil =>
    rw [leave_main hc] at h
    cases h
  | cons caller rest =>
    have hrest : w.calls.callers = rest := by
      have hm := moves_leave hc value
      rw [h] at hm
      exact hm.calls.1
    obtain ⟨above, f, hs, ha, hv⟩ := hr
    rw [hc] at hs
    -- the frame that is left is the one above `base`
    have hlen := congrArg List.length hs
    simp only [CallStack.depth, hrest] at hd
    simp only [List.length_cons, List.length_append] at hlen
    obtain rfl : above = [] := List.length_eq_zero_iff.1 (by omega)
    simp only [List.nil_append, List.cons.injEq] at hs
    obtain ⟨rfl, rfl⟩ := hs
    rw [leave_caller hc, hv] at h
    obtain ⟨hpc, hstores⟩ := setVariable_ok hglobals (z := z.left caller rest) hz h
    refine ⟨hpc.trans ha, ?_⟩
    rwa [frames_eq (z.left caller rest).calls, show (z.left caller rest).calls.callers.reverse ++
      [(z.left caller rest).calls.current] = (caller :: rest).reverse by simp [left]] at hstores

/-- **Calls and their returns.**  A call instruction that succeeds makes a call with the values of
its operands.  Unless the routine is 0, it puts a new frame on top of the others, with the locals
that the routine's header declares, and goes on behind the header.  As long as there are more frames
than before, those of the callers stay as they are.  When a step goes back to them without a fault,
it does so by returning a value: it goes on behind the call instruction, and the return does nothing
but store the value where that instruction says. -/
theorem call_return {image : Memory} {story : Story} {z w : Machine} {i : Instruction}
    {answers : Answers} (hload : Story.load image = .ok story) (hz : Reachable story z)
    (hi : z.Next i) (hop : i.op = .call) (hstep : step answers z = .ok () w) :
    ∃ values c u, operandValues i.op 0 i.operands (z.fetched z.pc i) = .ok values u ∧
      MakesCall i values c ∧
      (c.routine ≠ 0 → Calls c u w ∧ w.calls.depth = z.calls.depth + 1 ∧
        ∀ x, Above (z.calls.depth + 1) w x →
          x.calls.frames.take z.calls.depth = w.calls.frames.take z.calls.depth ∧
          ∀ answers' y, step answers' x = .ok () y → (∀ d, ¬ RestoresInStep answers' x d) →
            y.calls.depth = z.calls.depth →
            ∃ value v, Flows answers' x (.ret value) v ∧ y.pc = i.next ∧
              Stores story value i.storeTo (w.calls.frames.take z.calls.depth) v.memory
                y.calls.frames y.memory) := by
  have hglobals := Header.tables_lt (Story.load_ok hload).2.1 story.header.globals (by simp)
  cases he : execute i (z.fetched z.pc i) with
  | error fault u =>
    have herror : step answers z = .error _ u := bind_error (advance_of_fault hi he)
    rw [hstep] at herror
    cases herror
  | ok action u =>
    obtain ⟨values, c, hvalues, hc, hlt, rfl⟩ :=
      execute_call hop (Instruction.decode_complete hi.decodes) he
    have henter : enter c u = .ok () w :=
      ok_of_orHalt (ok_of_located ((step_of_plain hi he rfl).symm.trans hstep))
    refine ⟨values, c, u, hvalues, hc, fun hne => ?_⟩
    have hcalls := calls_of_enter hne hlt henter
    have hdepth : u.calls.depth = z.calls.depth := (moves_of_execute he).depth
    -- `base` are the frames that the new one has been put on
    obtain ⟨base, hbase⟩ : ∃ base, base = u.calls.frames.reverse := ⟨_, rfl⟩
    have hw : w.calls.Rests base i.next i.storeTo := by
      rw [hbase, ← hc.returnTo, ← hc.storeTo]
      exact hcalls.rests
    have hlen : base.length = z.calls.depth := by simp [hbase, length_frames, hdepth]
    have hbase : base ≠ [] := by simp [hbase, CallStack.frames]
    rw [← hlen, hw.take_frames]
    refine ⟨hcalls, by rw [hcalls.depth, hdepth, hlen], fun x hx => ?_⟩
    have hx' := hx.rests hbase hw
    refine ⟨hx'.take_frames, fun answers' y hy hno hback => ?_⟩
    obtain ⟨value, v, hflows, hleave⟩ := flows_of_depth_lt hno hy (hback ▸ hx'.length_lt)
    have hv : v.calls.Rests base i.next i.storeTo := by
      refine hflows.moves.turn.rests hx' hbase ?_
      rw [hflows.moves.depth]
      exact hx'.length_lt
    have hw : Reachable story w := by
      have := hz.call (.step answers)
      rwa [HostCall.run, hstep] at this
    have hstory : v.story = story := hflows.moves.story.trans (hx.reachable hw).bounded.runs
    obtain ⟨hpc, hstores⟩ := stores_of_leave hglobals hstory hv hleave hback
    exact ⟨value, v, hflows, hpc, hstores⟩

/-- The small story with other code: it calls a routine that has two locals, with one argument, and
keeps the result in its first global.  The routine returns its first local. -/
def callingImage : Memory :=
  let code : List UInt8 := [0xE0, 0x1F, 0x00, 0x3A, 0x07, 0x10, 0xBA, 0x00]
  let dictionary : List UInt8 := [0, 7, 0, 0]
  let routine : List UInt8 := [2, 0, 1, 0, 2, 0xAB, 1]
  ⟨(smallImage.bytes.toList.take 0x68 ++ code ++ dictionary ++ routine).toArray⟩

def callingStory : Story := .ofImage callingImage

theorem load_calling : Story.load callingImage = .ok callingStory :=
  Story.load_ofImage (by decide +kernel)

theorem step_ok_of_halt? {answers : Answers} {z : Machine} (h : halt? (step answers z) = none) :
    step answers z = .ok () (reached (step answers z)) := by
  cases hs : step answers z with
  | ok _ w => rfl
  | error stop w =>
    rw [hs] at h
    cases h

/-- The routine is entered with its argument and with the default of its second local, and returns
with the first global set. -/
theorem call_return_small :
    let noStore : Answers := ⟨.error .noStore, .error .noStore⟩
    let z := { Machine.start callingStory (Random.ofEntropy 1) with tracing := false }
    let w := reached (step noStore z)
    let y := reached (step noStore w)
    w.calls.frames = [{}, { locals := [7, 2], returnTo := 0x6E, store := some 16 }] ∧
      y.pc = 0x6E ∧ ∃ value v, Flows noStore w (.ret value) v ∧
        Stores callingStory value 16 [{}] v.memory y.calls.frames y.memory := by
  intro noStore z w y
  have hz : Reachable callingStory z := .start _ false
  have hi : z.Next ⟨0x68, .variadic, .many, 0, .call, [⟨.large, 0x3A⟩, ⟨.small, 7⟩], 16, none, [],
      0x6E⟩ := ⟨by decide +kernel, by decide +kernel⟩
  have hz' : step noStore z = .ok () w := step_ok_of_halt? (by decide +kernel)
  have hw : step noStore w = .ok () y := step_ok_of_halt? (by decide +kernel)
  have hframes : w.calls.frames =
      [{}, { locals := [7, 2], returnTo := 0x6E, store := some 16 }] := by decide +kernel
  have hdepth : z.calls.depth = 1 := rfl
  have hy : y.calls.depth = 1 := by decide +kernel
  have hroutine : ∀ values u, operandValues .call 0 [⟨.large, 0x3A⟩, ⟨.small, 7⟩]
      (z.fetched z.pc ⟨0x68, .variadic, .many, 0, .call, [⟨.large, 0x3A⟩, ⟨.small, 7⟩], 16, none,
        [], 0x6E⟩) = .ok values u → values = [0x74, 7] := by
    rintro values u ⟨⟩
    rfl
  obtain ⟨values, c, u, hvalues, hc, hcall⟩ := call_return load_calling hz hi rfl hz'
  have hne : c.routine ≠ 0 := by
    intro h0
    have := hc.values
    rw [hroutine values u hvalues, h0] at this
    cases this
  obtain ⟨-, -, hrun⟩ := hcall hne
  obtain ⟨-, hreturn⟩ := hrun w (.refl w)
  obtain ⟨value, v, hflows, hpc, hstores⟩ := hreturn noStore y hw (by rintro d ⟨_, _, _, ⟨⟩, _⟩)
    (hy.trans hdepth.symm)
  rw [hframes, hdepth] at hstores
  exact ⟨hframes, hpc, value, v, hflows, hstores⟩

end Machine

end ZCode
