/-
  Runs of the machine under a host.

  * `Machine.step` is a step whose requests to the store are answered in a given way; a step of a
    session is one of these (`Session.machine_step`).
  * `HostCall` is what a host can do with a machine, and `Reachable` are the states that any calls
    can lead to.  `Genuine` are those reached with restores of snapshots that were taken from such
    states.
  * Every call is a sequence of elementary changes (`HostCall.changes`), so that what these keep
    holds of all states reached (`Reachable.of_change`, `Genuine.of_change`).
-/
import ZCode.Proofs.Footprint

namespace ZCode

open Relation

namespace Machine

variable {D : Snapshot → Prop} {α : Type}

/-! ## Steps -/

theorem reached_orHalt (act : Run α) (z : Machine) : reached (orHalt act z) = reached (act z) := by
  unfold orHalt EStateM.adaptExcept
  cases act z <;> rfl

theorem reached_located (pc : Address) (act : EStateM Halt Machine α) (z : Machine) :
    reached (located pc act z) = reached (act z) := by
  unfold located
  cases act z with
  | ok => rfl
  | error halt => cases halt <;> rfl

theorem orHalt_congr {act act' : Run α} {z w : Machine} (h : act z = act' w) :
    orHalt act z = orHalt act' w := by
  unfold orHalt EStateM.adaptExcept
  rw [h]

theorem located_congr {pc : Address} {act act' : EStateM Halt Machine α} {z w : Machine}
    (h : act z = act' w) : located pc act z = located pc act' w := by
  unfold located
  rw [h]

theorem ok_of_orHalt {act : Run α} {z w : Machine} {a : α} (h : orHalt act z = .ok a w) :
    act z = .ok a w := by
  unfold orHalt EStateM.adaptExcept at h
  cases hz : act z with
  | ok b u => rw [hz] at h; cases h; rfl
  | error fault u => rw [hz] at h; cases h

theorem ok_of_located {pc : Address} {act : EStateM Halt Machine α} {z w : Machine} {a : α}
    (h : located pc act z = .ok a w) : act z = .ok a w := by
  unfold located at h
  cases hz : act z with
  | ok b u => rw [hz] at h; cases h; rfl
  | error halt u => rw [hz] at h; cases halt <;> cases h

theorem within_orHalt {R : Machine → Machine → Prop} {act : Run α} (h : Within R act) :
    Within R (orHalt act) := fun z => reached_orHalt act z ▸ h z

theorem within_located {R : Machine → Machine → Prop} {act : EStateM Halt Machine α} (pc : Address)
    (h : Within R act) : Within R (located pc act) := fun z => reached_located pc act z ▸ h z

theorem within_setPc (a : Address) : Within Moves (setPc a) := within_book fun _ => rfl

theorem map_of_mapM {β ε : Type} {f : α → Except ε β} {l : List α} {l' : List β}
    (h : l.mapM f = .ok l') : l.map f = l'.map .ok := by
  induction l generalizing l' with
  | nil => cases h; rfl
  | cons x l ih =>
    rw [List.mapM_cons] at h
    cases hx : f x with
    | error e => rw [hx] at h; cases h
    | ok y =>
      rw [hx] at h
      cases hl : l.mapM f with
      | error e => simp only [hl] at h; cases h
      | ok ys => simp only [hl] at h; cases h; simp [hx, ih hl]

theorem length_initialLocals {m : Memory} {a : Address} {n : Nat} {args locals : List UInt16}
    (h : initialLocals m a n args = .ok locals) : locals.length = n := by
  unfold initialLocals at h
  cases hd : (List.range n).mapM fun i => m.word (a + UInt32.ofNat (2 * i)) with
  | error fault => rw [hd] at h; cases h
  | ok defaults =>
    rw [hd] at h
    cases h
    simpa using (congrArg List.length (map_of_mapM hd)).symm

theorem eq_of_look {f : Machine → Except Fault α} {z w : Machine} {a : α}
    (h : look f z = .ok a w) : f z = .ok a ∧ w = z := by
  unfold look at h
  cases hf : f z with
  | ok b => rw [hf] at h; cases h; exact ⟨rfl, rfl⟩
  | error fault => rw [hf] at h; cases h

theorem within_enter (c : Call) : Within (Changes D) (enter c) := by
  unfold enter
  split
  · exact within_changes ((within_setPc _).bind fun _ => within_setVariable _ _)
  refine (within_look _).bind fun n => ?_
  dsimp only
  split
  · exact .throw_bind _ _
  rename_i hn
  intro z
  refine reached_bind (within_look _ z) fun locals w hw => ?_
  obtain ⟨hl, rfl⟩ := eq_of_look hw
  refine reached_bind (within_look _ w) fun calls u hu => ?_
  obtain ⟨hc, rfl⟩ := eq_of_look hu
  have hlen : locals.length ≤ Frame.maxLocals := by
    rw [length_initialLocals hl]
    exact Nat.not_lt.1 hn
  exact (ReflTransGen.single (.call hlen rfl hc)).tail (.move (.book ..))

theorem within_leave (value : UInt16) : Within (Changes D) (leave value) := by
  intro z
  refine reached_bind (within_look _ z) fun r w hr => ?_
  obtain ⟨hp, rfl⟩ := eq_of_look hr
  refine reached_bind ((ReflTransGen.single (.ret hp)).tail (.move (.book ..))) fun _ u _ => ?_
  cases r.1.store with
  | none => exact .refl
  | some v => exact (within_setVariable v value u).changes

theorem within_follow (flow : Flow) : Within (Changes D) (follow flow) := by
  cases flow with
  | next a => exact within_changes (within_setPc a)
  | jump base offset => exact within_changes (within_setPc _)
  | ret value => exact within_leave value

theorem within_beginRead (r : PendingRead) : Within Moves (beginRead r) :=
  within_showStatus.bind fun _ => (within_send _).bind fun _ => (within_book fun _ => rfl).bind
    fun _ => within_resumeRead r

theorem within_apply (action : Action) : Within (Changes D) (apply action) := by
  cases action with
  | flow f => exact (within_orHalt (within_follow f)).bind fun _ => .pure _
  | call c => exact (within_orHalt (within_enter c)).bind fun _ => .pure _
  | read r => exact within_changes ((within_orHalt (within_beginRead r)).bind fun _ => .pure _)
  | save | restore => exact .pure _
  | quit =>
    exact within_changes ((within_book fun _ => rfl).bind fun _ =>
      (within_orHalt (within_send _)).bind fun _ => .throw _)
  | restart =>
    refine (Within.modify fun z => .single (.reload z)).bind fun _ => ?_
    refine (Within.modify fun z => .single (.reset z)).bind fun _ => ?_
    exact within_changes ((within_orHalt (within_send _)).bind fun _ => .throw _)

/-- The machine with the instruction at `pc` remembered, and logged if it is tracing. -/
def fetched (z : Machine) (pc : Address) (i : Instruction) : Machine :=
  { z with last := some i, log := if z.tracing then z.log.push (.trace pc i.render) else z.log }

theorem fetch_eq (pc : Address) (z : Machine) :
    fetch pc z = match Instruction.decode z.story.script z.memory pc with
      | .error fault => .error fault z
      | .ok i => .ok i (z.fetched pc i) := by
  unfold fetch
  cases h : Instruction.decode z.story.script z.memory pc with
  | error fault => exact bind_error (by simp only [look, h])
  | ok i =>
    refine (bind_ok (t := z) (a := i) (by simp only [look, h])).trans ?_
    rw [modify_bind, get_bind]
    unfold fetched
    cases ht : z.tracing <;> rfl

theorem fetch_ok {pc : Address} {z w : Machine} {i : Instruction} (h : fetch pc z = .ok i w) :
    Instruction.decode z.story.script z.memory pc = .ok i ∧ w = z.fetched pc i := by
  rw [fetch_eq] at h
  cases hdecode : Instruction.decode z.story.script z.memory pc with
  | error fault => rw [hdecode] at h; cases h
  | ok j => rw [hdecode] at h; cases h; exact ⟨rfl, rfl⟩

theorem phase_running {z : Machine} : z.phase = .running ↔ z.state = .running := by
  unfold phase
  cases z.state <;> simp

theorem advance_running {z : Machine} (h : z.phase = .running) :
    advance z = located z.pc (do
      let i ← orHalt (fetch z.pc)
      let action ← orHalt (execute i)
      apply action) z := by
  unfold advance
  rw [get_bind, get_bind, h]

theorem advance_waiting {z : Machine} {r : PendingRead} (h : z.phase = .waiting r) :
    advance z = located z.pc (do orHalt (resumeRead r); return none) z := by
  unfold advance
  rw [get_bind, get_bind, h]

theorem advance_terminated {z : Machine} (h : z.phase = .terminated) :
    advance z = .error .quit z := by
  unfold advance
  rw [get_bind, get_bind, h]
  rfl

theorem advance_of_undecoded {z : Machine} {fault : Fault} (hp : z.phase = .running)
    (hd : Instruction.decode z.story.script z.memory z.pc = .error fault) :
    advance z = .error (.fault z.pc z.lastInstruction fault) z := by
  have hfetch : orHalt (fetch z.pc) z = .error (.fault fault) z := by
    simp only [orHalt, EStateM.adaptExcept, fetch_eq, hd]
  rw [advance_running hp, located, bind_error hfetch]

theorem within_fetch (pc : Address) : Within Moves (fetch pc) := by
  refine (within_look _).bind fun i => (within_book fun _ => rfl).bind fun _ =>
    Within.get.bind fun z => ?_
  dsimp only
  split
  · exact (within_addLog _).bind fun _ => .pure _
  · exact .pure _

/-- **A step up to its request to the store is a sequence of elementary changes.** -/
theorem within_advance : Within (Changes D) advance := by
  refine Within.get.bind fun z => Within.get.bind fun _ => ?_
  split
  · exact .throw _
  · exact within_changes
      (within_located _ ((within_orHalt (within_resumeRead _)).bind fun _ => .pure _))
  · exact within_located _ ((within_changes (within_orHalt (within_fetch _))).bind fun i =>
      (within_changes (within_orHalt (within_execute i))).bind fun action => within_apply action)

theorem within_answerSave (i : Instruction) (answer : Except StoreFailure Unit) :
    Within (Changes D) (answerSave i answer) := by
  refine within_located _ ?_
  cases answer with
  | ok => exact within_orHalt (within_follow _)
  | error cause =>
    exact (within_changes (within_orHalt (within_addLog _))).bind fun _ =>
      within_orHalt (within_follow _)

/-! ## Restoring -/

/-- The snapshot fits the story and the size of its memory. -/
def accepts (z : Machine) (d : Snapshot) : Prop := d.check z.story z.memory.size = .ok ()

theorem restore_eq (d : Snapshot) (z : Machine) :
    restore d z = match d.check z.story z.memory.size with
      | .error fault => .error fault z
      | .ok _ => .ok () { z with
          memory := (d.memory.getD default).withSessionBits z.memory.sessionBits
          calls := .ofFrames ((d.frames.getD []).map SavedFrame.toFrame)
          pc := d.pc
          state := .running
          pendingRead := none } := by
  cases h : d.check z.story z.memory.size with
  | error fault => exact bind_error (by simp [look, h])
  | ok => exact bind_ok (t := z) (a := ()) (by simp [look, h])

/-- What a store gave is restored if it is a snapshot that fits. -/
theorem restoreAnswer_ok {answer : Except StoreFailure (List Char)} {z w : Machine}
    (h : restoreAnswer answer z = .ok w) :
    ∃ d, loadAnswer answer = .ok d ∧ z.accepts d ∧ w = reached (restore d z) := by
  unfold restoreAnswer at h
  cases hd : loadAnswer answer with
  | error cause => rw [hd] at h; cases h
  | ok d =>
    rw [hd] at h
    refine ⟨d, rfl, ?_⟩
    unfold accepts
    rw [restore_eq]
    cases hc : d.check z.story z.memory.size with
    | error fault => simp only [bind, Except.bind, restore_eq, hc] at h; cases h
    | ok => simp only [bind, Except.bind, restore_eq, hc] at h; cases h; exact ⟨rfl, rfl⟩

theorem within_resumeAtSave : Within (Changes D) resumeAtSave := by
  refine (within_look _).bind fun i => ?_
  dsimp only
  split
  · exact Within.get.bind fun _ => .throw_bind _ _
  · exact (within_changes (within_book fun _ => rfl)).bind fun _ => within_follow _

theorem changes_answerRestore (i : Instruction) {answer : Except StoreFailure (List Char)}
    {z : Machine} (hD : ∀ d, loadAnswer answer = .ok d → z.accepts d → D d) :
    Changes D z (reached (answerRestore i answer z)) := by
  unfold answerRestore
  rw [reached_located]
  cases h : restoreAnswer answer z with
  | error cause =>
    refine reached_bind (x := get) .refl fun _ w hw => ?_
    cases hw
    simp only [h]
    exact ((within_changes (within_orHalt (within_addLog _))).bind fun _ =>
      within_orHalt (within_follow _)) z
  | ok w =>
    obtain ⟨d, hd, hz, rfl⟩ := restoreAnswer_ok h
    refine reached_bind (x := get) .refl fun _ u hu => ?_
    cases hu
    simp only [h]
    refine reached_bind (.single (.restore (hD d hd hz) hz)) fun _ u hu => ?_
    cases hu
    exact within_orHalt within_resumeAtSave _

/-! ## Steps with the store's answers -/

/-- What a store answers in a step. -/
structure Answers where
  save : Except StoreFailure Unit
  restore : Except StoreFailure (List Char)

/-- One step, with the store's answers given. -/
def step [Stray] (answers : Answers) : EStateM Stop Machine Unit := do
  match ← advance with
  | none => return ()
  | some (.save i) => answerSave i answers.save
  | some (.restore i) => answerRestore i answers.restore

/-- The step restores the snapshot. -/
def RestoresInStep (answers : Answers) (z : Machine) (d : Snapshot) : Prop :=
  ∃ i w, advance z = .ok (some (.restore i)) w ∧ loadAnswer answers.restore = .ok d ∧ w.accepts d

theorem changes_step {answers : Answers} {z : Machine}
    (hD : ∀ d, RestoresInStep answers z d → D d) : Changes D z (reached (step answers z)) := by
  refine reached_bind (within_advance z) fun request w hw => ?_
  cases request with
  | none => exact .refl
  | some request =>
    cases request with
    | save i => exact within_answerSave i _ w
    | restore i => exact changes_answerRestore i fun d hd ha => hD d ⟨i, w, hw, hd, ha⟩

end Machine

/-! ## Sessions -/

/-- The outcome with its state seen through `f`. -/
def mapReached {ε σ τ α : Type} (f : σ → τ) : EStateM.Result ε σ α → EStateM.Result ε τ α
  | .ok a s => .ok a (f s)
  | .error e s => .error e (f s)

namespace Session

/-- What the store of a session answers in the next step. -/
def answers (s : Session) : Machine.Answers :=
  match s.store with
  | none => ⟨.error .noStore, .error .noStore⟩
  | some cell => ⟨(cell.save "").1, cell.restore⟩

theorem mapReached_onMachine {ε α : Type} (act : EStateM ε Machine α) (s : Session) :
    mapReached machine (onMachine act s) = act s.machine := by
  unfold onMachine
  cases act s.machine <;> rfl

theorem restoreFromStore_eq (s : Session) : restoreFromStore s = .ok s.answers.restore s := by
  obtain ⟨z, _ | cell⟩ := s <;> rfl

/-- The answer to a save does not depend on what is saved, and the machine is left alone. -/
theorem saveToStore_eq (data : String) (s : Session) :
    ∃ t, saveToStore data s = .ok s.answers.save t ∧ t.machine = s.machine := by
  obtain ⟨z, _ | ⟨old, _ | reason, restoreError⟩⟩ := s
  · exact ⟨_, rfl, rfl⟩
  · exact ⟨_, rfl, rfl⟩
  · exact ⟨_, rfl, rfl⟩

/-- **A step of a session is a step of its machine.** -/
theorem machine_step (s : Session) :
    mapReached machine (step s) = Machine.step s.answers s.machine := by
  unfold step Machine.step
  cases h : Machine.advance s.machine with
  | error stop z =>
    have hs : onMachine Machine.advance s = .error stop { s with machine := z } := by
      simp only [onMachine, h]
    rw [bind_error h, bind_error hs]
    rfl
  | ok request z =>
    have hs : onMachine Machine.advance s = .ok request { s with machine := z } := by
      simp only [onMachine, h]
    rw [bind_ok h, bind_ok hs]
    cases request with
    | none => rfl
    | some request =>
      cases request with
      | save i =>
        obtain ⟨t, ht, htm⟩ := saveToStore_eq z.snapshot.render { s with machine := z }
        have hk : ((do onMachine (Machine.answerSave i (← saveToStore z.snapshot.render))) :
            EStateM Stop Session Unit) { s with machine := z } =
            onMachine (Machine.answerSave i s.answers.save) t := bind_ok ht
        exact (congrArg _ hk).trans ((mapReached_onMachine _ t).trans (by rw [htm]))
      | restore i =>
        dsimp only
        rw [bind_ok (restoreFromStore_eq _), mapReached_onMachine]
        rfl

end Session

/-! ## Calls of a host -/

/-- What a host can do with a machine.  Asking for the status line or for a snapshot changes
nothing and needs no call. -/
inductive HostCall where
  | step (answers : Machine.Answers)
  | push (line : String)
  | press (code : Int)
  | setTranscripting (on : Bool)
  | setStatusLineAvailable (on : Bool)
  | setScreenSplitAvailable (on : Bool)
  | setVariablePitchDefault (on : Bool)
  | restore (snapshot : Snapshot)

namespace HostCall

open Machine

/-- The state that a call leads to, also if it fails. -/
def run [Stray] : HostCall → Machine → Machine
  | .step answers, z => reached (Machine.step answers z)
  | .push line, z => { z with input := z.input.push line }
  | .press code, z => { z with input := z.input.press code }
  | .setTranscripting on, z => reached (edit (fun _ => Memory.setTranscripting on) z)
  | .setStatusLineAvailable on, z => reached (edit (fun _ => Memory.setStatusLineAvailable on) z)
  | .setScreenSplitAvailable on, z => reached (edit (fun _ => Memory.setScreenSplitAvailable on) z)
  | .setVariablePitchDefault on, z => reached (edit (fun _ => Memory.setVariablePitchDefault on) z)
  | .restore d, z => reached (Machine.restore d z)

/-- The call restores the snapshot. -/
def Restores : HostCall → Machine → Snapshot → Prop
  | .step answers, z, d => RestoresInStep answers z d
  | .restore e, z, d => e = d ∧ z.accepts d
  | _, _, _ => False

/-- **Every call is a sequence of elementary changes.** -/
theorem changes {D : Snapshot → Prop} (c : HostCall) {z : Machine}
    (hD : ∀ d, c.Restores z d → D d) : Changes D z (c.run z) := by
  cases c with
  | step answers => exact changes_step hD
  | push line => exact .single (.move (.book z ..))
  | press code => exact .single (.move (.book z ..))
  | setTranscripting on | setStatusLineAvailable on | setScreenSplitAvailable on
  | setVariablePitchDefault on =>
    exact (within_edit (fun s => s.protection.within_setFlag _ (by decide) (by decide)) z).changes
  | restore d =>
    dsimp only [run]
    by_cases h : z.accepts d
    · exact .single (.restore (hD d ⟨rfl, h⟩) h)
    · unfold accepts at h
      rw [restore_eq]
      cases hc : d.check z.story z.memory.size with
      | error fault => exact .refl
      | ok => exact absurd hc h

end HostCall

/-! ## States reached -/

namespace Machine

/-- A state reached from the start of a story by calls of a host, whatever the story, the store and
the host do. -/
inductive Reachable (story : Story) : Machine → Prop
  | start (random : Random) (tracing : Bool) :
      Reachable story { Machine.start story random with tracing }
  | call {z : Machine} (c : HostCall) : Reachable story z → Reachable story (c.run z)

/-- The snapshot is taken of the machine: by its host, or by a save in its next step. -/
def Takes (z : Machine) (d : Snapshot) : Prop :=
  d = z.snapshot ∨ ∃ i w, advance z = .ok (some (.save i)) w ∧ d = w.snapshot

/-- A state reached by calls that restore nothing but snapshots taken in such states, of this
machine or of another one that runs the story. -/
inductive Genuine (story : Story) : Machine → Prop
  | start (random : Random) (tracing : Bool) :
      Genuine story { Machine.start story random with tracing }
  | call {z source : Machine} (c : HostCall) : Genuine story z → Genuine story source →
      (∀ d, c.Restores z d → source.Takes d) → Genuine story (c.run z)

variable {story : Story} {P : Machine → Prop}

/-- What holds at the start and is kept by every elementary change holds of all states reached. -/
theorem Reachable.of_change {z : Machine} (h : Reachable story z)
    (start : ∀ random tracing, P { Machine.start story random with tracing })
    (step : ∀ z w, Change (fun _ => True) z w → P z → P w) : P z := by
  induction h with
  | start random tracing => exact start random tracing
  | call c _ ih =>
    exact (c.changes fun _ _ => trivial).keep step ih

/-- What holds at the start and is kept by every elementary change, restores of snapshots taken where
it holds included, holds of all genuine states. -/
theorem Genuine.of_change {z : Machine} (h : Genuine story z)
    (start : ∀ random tracing, P { Machine.start story random with tracing })
    (step : ∀ z w source, P source → Change source.Takes z w → P z → P w) : P z := by
  induction h with
  | start random tracing => exact start random tracing
  | call c _ _ hr ih ihs =>
    exact (c.changes hr).keep (fun _ _ => step _ _ _ ihs) ih

end Machine

/-! ## A small story -/

/-- The story of an image that can be loaded. -/
def Story.ofImage (image : Memory) : Story :=
  match Story.load image with
  | .ok story => story
  | .error _ => default

theorem Story.load_ofImage {image : Memory} (h : (Story.load image).toBool = true) :
    Story.load image = .ok (.ofImage image) := by
  unfold ofImage
  cases hload : Story.load image with
  | ok story => rfl
  | error fault =>
    rw [hload] at h
    cases h

/-- A story with three objects, of which the first holds the other two.  It saves, restores and
quits. -/
def smallImage : Memory :=
  let header : List UInt8 := [3, 0, 0, 0, 0, 0, 0, 0x68, 0, 0x70, 0, 0x02, 0, 0x5D, 0, 0x68]
  let objects : List UInt8 :=
    [0, 0, 0, 0, 0, 0, 2, 0, 0x5B] ++ [0, 0, 0, 0, 1, 3, 0, 0, 0x5B] ++ [0, 0, 0, 0, 1, 0, 0, 0, 0x5B]
  let code : List UInt8 := [0xB5, 0xC2, 0xB6, 0xC2, 0xBA, 0, 0, 0]
  let dictionary : List UInt8 := [0, 7, 0, 0]
  ⟨(header ++ .replicate 48 0 ++ objects ++ .replicate 13 0 ++ code ++ dictionary).toArray⟩

def smallStory : Story := .ofImage smallImage

theorem load_small : Story.load smallImage = .ok smallStory := Story.load_ofImage (by decide +kernel)

end ZCode
