/-
  Waiting for a line.

  * `Machine.Resumed` is what becomes of a read that waits: the machine goes on waiting where it is,
    or it goes on behind the read.
  * `Machine.ReadCourse` is what a step does about reading: nothing, an attempt to finish the read that
    waits, or the begin of a read.  There is nothing else (`readCourse_step`).
  * `Machine.Truthful` says that the input's flag tells whether the machine waits.  `waiting_flag` says
    which calls of a host keep this, and which one does not: a restore in the middle of a read.
-/
import ZCode.Proofs.Schedule

namespace ZCode

namespace Machine

variable {ε α : Type} {z w u : Machine} {i : Instruction} {r : PendingRead} {answers : Answers}

/-- The machine waits for a line. -/
def Waiting (z : Machine) : Prop := ∃ r, z.phase = .waiting r

theorem not_waiting (h : z.phase = .running ∨ z.phase = .terminated) : ¬ z.Waiting := by
  rintro ⟨r, hr⟩
  rcases h with h | h <;> rw [h] at hr <;> cases hr

/-! ## Reads that wait -/

/-- The machines differ in memory at most. -/
def OnlyMemory (z w : Machine) : Prop := w = { z with memory := w.memory }

instance : IsPreorder Machine OnlyMemory where
  refl _ := rfl
  trans z w u hw hu := by
    unfold OnlyMemory at *
    rw [hu, hw]

theorem onlyMemory_edit (e : Story → Edit α) : Within OnlyMemory (edit e) := by
  intro z
  unfold edit
  dsimp only
  cases e z.story z.memory <;> rfl

theorem onlyMemory_writeBytes (bytes : List UInt8) (a : Address) :
    Within OnlyMemory (writeBytes a bytes) := by
  induction bytes generalizing a with
  | nil => exact .pure _
  | cons b bytes ih => exact (onlyMemory_edit _).bind fun _ => ih (a + 1)

theorem onlyMemory_writeTokens (tokens : List Token) (block : Address) :
    Within OnlyMemory (writeTokens block tokens) := by
  induction tokens generalizing block with
  | nil => exact .pure _
  | cons t tokens ih =>
    exact Within.get.bind fun _ => (onlyMemory_edit _).bind fun _ => (onlyMemory_edit _).bind
      fun _ => (onlyMemory_edit _).bind fun _ => ih (block + 4)

/-- Storing a line changes memory only. -/
theorem onlyMemory_completeRead (r : PendingRead) (line : String) :
    Within OnlyMemory (completeRead r line) := by
  refine (within_look _).bind fun room => ?_
  dsimp only
  split
  · exact .throw_bind _ _
  exact (onlyMemory_writeBytes _ _).bind fun _ => (within_look _).bind fun _ => Within.get.bind
    fun _ => (onlyMemory_edit _).bind fun _ => onlyMemory_writeTokens _ _

/-- What becomes of the read `r`, for which the machine waits at `z`. -/
inductive Resumed (r : PendingRead) (z : Machine) : Machine → Prop
  /-- There is no line, or the line could not be stored as a whole. -/
  | waits (m : Memory) (lines : List String) :
      Resumed r z { z with memory := m, input := { z.input with lines } }
  | done (m : Memory) (lines : List String) :
      Resumed r z (readDone r { z with memory := m, input := { z.input with lines } })

theorem resumed_resumeRead (r : PendingRead) (z : Machine) :
    Resumed r z (reached (resumeRead r z)) := by
  cases hl : z.input.lines with
  | nil =>
    rw [resumeRead_nil hl]
    exact .waits z.memory z.input.lines
  | cons line rest =>
    have hm := onlyMemory_completeRead r line { z with input := { z.input with lines := rest } }
    rw [resumeRead_cons hl]
    cases hc : completeRead r line { z with input := { z.input with lines := rest } } with
    | ok _ u =>
      rw [hc] at hm
      rw [bind_ok hc]
      show Resumed r z (readDone r u)
      rw [show u = _ from hm]
      exact .done u.memory rest
    | error fault u =>
      rw [hc] at hm
      rw [bind_error hc]
      show Resumed r z u
      rw [show u = _ from hm]
      exact .waits u.memory rest

theorem resumed_step (h : z.phase = .waiting r) (answers : Answers) :
    Resumed r z (reached (step answers z)) := by
  have hr := resumed_resumeRead r z
  have hadvance := advance_waiting h
  unfold step
  cases hz : resumeRead r z with
  | ok _ u =>
    rw [hz] at hr
    rw [bind_ok (hadvance.trans (located_ok (bind_ok (orHalt_ok hz))))]
    exact hr
  | error fault u =>
    have hhalt : orHalt (resumeRead r) z = .error (.fault fault) u := by
      simp only [orHalt, EStateM.adaptExcept, hz]
    rw [hz] at hr
    rw [located, bind_error hhalt] at hadvance
    rw [bind_error hadvance]
    exact hr

/-! ## Reads that begin -/

/-- The next instruction `i` of the machine asks for the read `r`.  At `u` its operands have been
taken, and the status line can be shown. -/
structure Asks (z : Machine) (i : Instruction) (r : PendingRead) (u : Machine) : Prop where
  next : z.Next i
  asked : execute i (z.fetched z.pc i) = .ok (.read r) u
  status : ∃ line, u.statusLine = .ok line

/-- A step that begins a read tries to finish it at once. -/
theorem Asks.step_eq (h : z.Asks i r u) (answers : Answers) :
    ∃ line, step answers z = step answers (u.awaiting r line) := by
  obtain ⟨line, hline⟩ := h.status
  exact ⟨line, bind_eq_bind (advance_of_read h.next h.asked hline)⟩

theorem Asks.resumed (h : z.Asks i r u) (answers : Answers) :
    ∃ line, Resumed r (u.awaiting r line) (reached (step answers z)) := by
  obtain ⟨line, hstep⟩ := h.step_eq answers
  exact ⟨line, hstep ▸ resumed_step rfl answers⟩

/-! ## Steps behind a request -/

/-- What a step can do once the store has answered stays within the relation. -/
structure AnswersWithin (R : Machine → Machine → Prop) : Prop where
  follow : ∀ flow, Within R (follow flow)
  log : ∀ entry, Within R (addLog entry)
  last : ∀ i : Instruction, Within R (modify fun z => { z with last := some i } : Run PUnit)
  restore : ∀ d, Within R (restore d)

section
variable {R : Machine → Machine → Prop} [IsPreorder Machine R]

theorem AnswersWithin.answerSave (h : AnswersWithin R) (i : Instruction)
    (answer : Except StoreFailure Unit) : Within R (answerSave i answer) := by
  refine within_located _ ?_
  cases answer with
  | ok => exact within_orHalt (h.follow _)
  | error cause => exact (within_orHalt (h.log _)).bind fun _ => within_orHalt (h.follow _)

theorem AnswersWithin.resumeAtSave (h : AnswersWithin R) : Within R resumeAtSave := by
  refine (within_look _).bind fun i => ?_
  dsimp only
  split
  · exact Within.get.bind fun _ => .throw_bind _ _
  · exact (h.last i).bind fun _ => h.follow _

theorem AnswersWithin.answerRestore (h : AnswersWithin R) (i : Instruction)
    (answer : Except StoreFailure (List Char)) : Within R (answerRestore i answer) := by
  refine within_located _ (.bind_get fun z => ?_)
  cases hanswer : restoreAnswer answer z with
  | error cause =>
    exact ((within_orHalt (h.log _)).bind fun _ => within_orHalt (h.follow _)) z
  | ok w =>
    obtain ⟨d, -, -, rfl⟩ := restoreAnswer_ok hanswer
    exact IsTrans.trans _ _ _ (h.restore d z) (within_orHalt h.resumeAtSave _)

/-- A step stays within the relation if it does so up to its request. -/
theorem AnswersWithin.step (h : AnswersWithin R) (answers : Answers)
    (hadvance : R z (reached (advance z))) : R z (reached (step answers z)) := by
  refine reached_bind hadvance fun request w _ => ?_
  rcases request with _ | _ | _
  · exact refl w
  · exact h.answerSave _ _ w
  · exact h.answerRestore _ _ w

end

/-! ## Steps that read nothing -/

/-- The input stays as it is, and the machine does not begin to wait. -/
structure Unread (z w : Machine) : Prop where
  input : w.input = z.input
  waiting : w.Waiting → z.Waiting

instance : IsPreorder Machine Unread where
  refl _ := ⟨rfl, id⟩
  trans _ _ _ h h' := ⟨h'.input.trans h.input, h.waiting ∘ h'.waiting⟩

theorem unread_of_kept (hkept : PhaseKept z w) (hinput : w.input = z.input) : Unread z w :=
  ⟨hinput, fun ⟨r, hr⟩ => ⟨r, hkept.phase.symm.trans hr⟩⟩

/-- What commutes with a change of the phase and the input reads nothing. -/
theorem unread_of_commutes {act : EStateM ε Machine α}
    (h : ∀ c : Aside, c.pc = id → c.random = id → act (c.on z) = mapReached c.on (act z)) :
    Unread z (reached (act z)) := by
  have hown := reached_eq_on (c := { Aside.phaseOf z with input := fun _ => z.input }) rfl
    (h _ rfl rfl)
  rw [hown]
  exact unread_of_kept ⟨rfl, rfl⟩ rfl

theorem unread_execute (i : Instruction) : Within Unread (execute i) := fun z =>
  unread_of_commutes fun _ _ hr => commutes_execute (unseen_of_random hr i z)

theorem unread_follow (flow : Flow) : Within Unread (follow flow) := fun z =>
  unread_of_commutes fun _ hpc _ => commutes_follow hpc flow z

theorem unread_enter (call : Call) : Within Unread (enter call) := fun z =>
  unread_of_commutes fun _ hpc _ => commutes_enter hpc call z

theorem unread_addLog (entry : LogEntry) : Within Unread (addLog entry) := fun z =>
  unread_of_commutes fun _ _ _ => commutes_addLog entry z

theorem unread_send (call : OutputCall) : Within Unread (send call) := fun z =>
  unread_of_commutes fun _ _ _ => commutes_send call z

theorem unread_apply {action : Action} (h : ∀ r, action ≠ .read r) :
    Within Unread (apply action) := by
  cases action with
  | read r => exact absurd rfl (h r)
  | flow f => exact (within_orHalt (unread_follow f)).bind fun _ => .pure _
  | call call => exact (within_orHalt (unread_enter call)).bind fun _ => .pure _
  | save | restore => exact .pure _
  | quit =>
    refine Within.bind (Within.modify fun z => ?_) fun _ =>
      (within_orHalt (unread_send _)).bind fun _ => .throw _
    exact ⟨rfl, fun hw => absurd hw (not_waiting (.inr rfl))⟩
  | restart =>
    refine Within.bind (Within.modify fun z => ?_) fun _ => Within.bind (Within.modify fun z => ?_)
      fun _ => (within_orHalt (unread_send _)).bind fun _ => .throw _
    · exact unread_of_kept ⟨rfl, rfl⟩ rfl
    · exact ⟨rfl, fun hw => absurd hw (not_waiting (.inl rfl))⟩

/-- A restore leaves the input alone, with its flag. -/
theorem restore_cases (d : Snapshot) (z : Machine) :
    (¬ z.accepts d ∧ reached (restore d z) = z) ∨
      (z.accepts d ∧ (reached (restore d z)).phase = .running ∧
        (reached (restore d z)).input = z.input) := by
  unfold accepts
  rw [restore_eq]
  cases hc : d.check z.story z.memory.size with
  | error fault => exact .inl ⟨nofun, rfl⟩
  | ok => exact .inr ⟨rfl, rfl, rfl⟩

theorem unread_restore (d : Snapshot) : Within Unread (restore d) := by
  intro z
  rcases restore_cases d z with ⟨-, hsame⟩ | ⟨-, hphase, hinput⟩
  · rw [hsame]
    exact ⟨rfl, id⟩
  · exact ⟨hinput, fun hw => absurd hw (not_waiting (.inl hphase))⟩

theorem unread_answers : AnswersWithin Unread where
  follow := unread_follow
  log := unread_addLog
  last _ := Within.modify fun _ => unread_of_kept ⟨rfl, rfl⟩ rfl
  restore := unread_restore

/-- A step whose instruction asks for no line reads nothing. -/
theorem unread_step {action : Action} (hi : z.Next i)
    (he : execute i (z.fetched z.pc i) = .ok action u) (h : ∀ r, action ≠ .read r) :
    Unread z (reached (step answers z)) := by
  have hu : Unread z u := by
    have := unread_execute i (z.fetched z.pc i)
    rw [he] at this
    exact ⟨this.input, this.waiting⟩
  refine unread_answers.step answers ?_
  rw [advance_of_execute hi he, reached_located]
  exact IsTrans.trans _ _ _ hu (unread_apply h u)

/-! ## What a step does about reading -/

/-- What a step from `z` to `w` does about reading. -/
inductive ReadCourse (z w : Machine) : Prop
  | aside : ¬ z.Waiting → ¬ w.Waiting → w.input = z.input → ReadCourse z w
  | resumes {r : PendingRead} : z.phase = .waiting r → Resumed r z w → ReadCourse z w
  | begins {i : Instruction} {r : PendingRead} {u : Machine} {line : StatusLine} : z.Asks i r u →
      Resumed r (u.awaiting r line) w → ReadCourse z w

/-- Steps that read nothing stand aside. -/
theorem Unread.course (h : Unread z w) (hz : ¬ z.Waiting) : ReadCourse z w :=
  .aside hz (hz ∘ h.waiting) h.input

/-- **Every step takes one of these courses.** -/
theorem readCourse_step (answers : Answers) (z : Machine) :
    ReadCourse z (reached (step answers z)) := by
  cases hp : z.phase with
  | terminated =>
    have hstep : step answers z = .error .quit z := bind_error (advance_terminated hp)
    rw [hstep]
    exact Unread.course ⟨rfl, id⟩ (not_waiting (.inr hp))
  | waiting r => exact .resumes hp (resumed_step hp answers)
  | running =>
    have hz : ¬ z.Waiting := not_waiting (.inl hp)
    cases hd : Instruction.decode z.story.script z.memory z.pc with
    | error fault =>
      have hstep : step answers z = .error _ z := bind_error (advance_of_undecoded hp hd)
      rw [hstep]
      exact Unread.course ⟨rfl, id⟩ hz
    | ok i =>
      have hi : z.Next i := ⟨hp, hd⟩
      have hexecute := unread_execute i (z.fetched z.pc i)
      cases he : execute i (z.fetched z.pc i) with
      | error fault u =>
        have hstep : step answers z = .error _ u := bind_error (advance_of_fault hi he)
        rw [he] at hexecute
        rw [hstep]
        exact Unread.course ⟨hexecute.input, hexecute.waiting⟩ hz
      | ok action u =>
        cases action with
        | read r =>
          cases hs : u.statusLine with
          | error fault =>
            have hstep : step answers z = .error _ u := bind_error (advance_of_no_status hi he hs)
            rw [he] at hexecute
            rw [hstep]
            exact Unread.course ⟨hexecute.input, hexecute.waiting⟩ hz
          | ok line =>
            have hasks : z.Asks i r u := ⟨hi, he, line, hs⟩
            obtain ⟨line', hresumed⟩ := hasks.resumed answers
            exact .begins hasks hresumed
        | flow | call | quit | restart | save | restore =>
          exact Unread.course (unread_step hi he nofun) hz

/-! ## The flag -/

/-- The input's flag tells whether the machine waits. -/
def Truthful (z : Machine) : Prop := z.input.waiting = true ↔ z.Waiting

theorem truthful_of_not_waiting (h : ¬ z.Waiting) : z.Truthful ↔ z.input.waiting = false := by
  unfold Truthful
  rw [iff_false_right h, Bool.not_eq_true]

theorem Resumed.truthful (h : Resumed r z w) (hphase : z.phase = .waiting r)
    (hflag : z.input.waiting = true) : w.Truthful := by
  cases h with
  | waits m lines => exact ⟨fun _ => ⟨r, hphase⟩, fun _ => hflag⟩
  | done m lines => exact (truthful_of_not_waiting (not_waiting (.inl rfl))).2 rfl

/-- A step that has to do with reading leaves the flag truthful. -/
theorem ReadCourse.truthful (h : ReadCourse z w) (hz : z.Waiting → z.input.waiting = true) :
    w.Truthful ∨ ¬ z.Waiting ∧ ¬ w.Waiting ∧ w.input = z.input := by
  cases h with
  | aside hz hw hinput => exact .inr ⟨hz, hw, hinput⟩
  | resumes hr hresumed => exact .inl (hresumed.truthful hr (hz ⟨_, hr⟩))
  | begins _ hresumed => exact .inl (hresumed.truthful rfl rfl)

end Machine

namespace HostCall

open Machine

variable {z w : Machine} {c : HostCall}

/-- The host restores a snapshot in the middle of a read. -/
def Interrupts (c : HostCall) (z : Machine) : Prop := ∃ d, c = .restore d ∧ z.accepts d ∧ z.Waiting

/-- The call is a step that begins a read. -/
def Begins (c : HostCall) (z : Machine) : Prop :=
  ∃ answers i r u, c = .step answers ∧ z.Asks i r u

/-- The call is neither a step nor a restore. -/
def Quiet : HostCall → Prop
  | .step _ | .restore _ => False
  | _ => True

theorem kinds (c : HostCall) :
    (∃ answers, c = .step answers) ∨ (∃ d, c = .restore d) ∨ c.Quiet := by
  cases c with
  | step answers => exact .inl ⟨answers, rfl⟩
  | restore d => exact .inr (.inl ⟨d, rfl⟩)
  | _ => exact .inr (.inr trivial)

theorem Quiet.not_interrupts (h : c.Quiet) : ¬ c.Interrupts z := by
  rintro ⟨d, rfl, -⟩
  exact h

theorem Quiet.not_begins (h : c.Quiet) : ¬ c.Begins z := by
  rintro ⟨answers, i, r, u, rfl, -⟩
  exact h

theorem not_begins_restore {d : Snapshot} : ¬ (HostCall.restore d).Begins z := by
  rintro ⟨answers, i, r, u, hc, -⟩
  cases hc

/-- A quiet call changes memory and the lines at most. -/
theorem Quiet.run_eq (h : c.Quiet) (z : Machine) : ∃ m lines typed,
    c.run z = { z with memory := m, input := { z.input with lines, typed } } := by
  cases c with
  | step | restore => exact absurd h id
  | push line => exact ⟨z.memory, _, z.input.typed, rfl⟩
  | press code =>
    show ∃ m lines typed, { z with input := z.input.press code } = _
    unfold LineInput.press
    split
    · exact ⟨z.memory, _, _, rfl⟩
    split
    · exact ⟨z.memory, z.input.lines, _, rfl⟩
    split
    · exact ⟨z.memory, z.input.lines, z.input.typed, rfl⟩
    · exact ⟨z.memory, z.input.lines, _, rfl⟩
  | setTranscripting on | setStatusLineAvailable on | setScreenSplitAvailable on
  | setVariablePitchDefault on =>
    exact ⟨_, z.input.lines, z.input.typed, onlyMemory_edit _ z⟩

/-- What the call `c` makes of the machine, as to reading. -/
inductive Course (z : Machine) : HostCall → Machine → Prop
  | steps {answers : Answers} : ReadCourse z (reached (Machine.step answers z)) →
      Course z (.step answers) (reached (Machine.step answers z))
  | restores {d : Snapshot} {w : Machine} : z.accepts d → w.phase = .running → w.input = z.input →
      Course z (.restore d) w
  | refuses {d : Snapshot} : ¬ z.accepts d → Course z (.restore d) z
  | quiet {c : HostCall} (m : Memory) (lines : List String) (typed : List Char) : c.Quiet →
      Course z c { z with memory := m, input := { z.input with lines, typed } }

theorem course_run (c : HostCall) (z : Machine) : Course z c (c.run z) := by
  rcases c.kinds with ⟨answers, rfl⟩ | ⟨d, rfl⟩ | hquiet
  · exact .steps (readCourse_step answers z)
  · show Course z _ (reached (Machine.restore d z))
    rcases restore_cases d z with ⟨hrefused, hsame⟩ | ⟨haccepts, hphase, hinput⟩
    · rw [hsame]
      exact .refuses hrefused
    · exact .restores haccepts hphase hinput
  · obtain ⟨m, lines, typed, hrun⟩ := hquiet.run_eq z
    rw [hrun]
    exact .quiet m lines typed hquiet

/-- The flag stays raised wherever the machine waits. -/
theorem Course.flag (h : Course z c w) (hz : z.Waiting → z.input.waiting = true) :
    w.Waiting → w.input.waiting = true := by
  intro hw
  cases h with
  | steps hcourse =>
    rcases hcourse.truthful hz with htrue | ⟨-, hnot, -⟩
    · exact htrue.2 hw
    · exact absurd hw hnot
  | restores _ hphase => exact absurd hw (not_waiting (.inl hphase))
  | refuses | quiet => exact hz hw

/-- A call keeps a truthful flag truthful, unless it interrupts a read. -/
theorem Course.truthful_iff (h : Course z c w) (hz : z.Truthful) :
    w.Truthful ↔ ¬ c.Interrupts z := by
  cases h with
  | steps hcourse =>
    refine ⟨fun _ => nofun, fun _ => ?_⟩
    rcases hcourse.truthful hz.2 with htrue | ⟨hnot, hnot', hinput⟩
    · exact htrue
    · refine (truthful_of_not_waiting hnot').2 ?_
      rw [hinput]
      exact (truthful_of_not_waiting hnot).1 hz
  | restores haccepts hphase hinput =>
    have hflag : z.input.waiting = true ↔ z.Waiting := hz
    rw [truthful_of_not_waiting (not_waiting (.inl hphase)), hinput, ← Bool.not_eq_true, hflag]
    refine not_congr ⟨fun hw => ⟨_, rfl, haccepts, hw⟩, ?_⟩
    rintro ⟨_, -, -, hw⟩
    exact hw
  | refuses hrefused =>
    refine iff_of_true hz ?_
    rintro ⟨_, ⟨⟩, haccepts, -⟩
    exact hrefused haccepts
  | quiet _ _ _ hquiet => exact iff_of_true hz hquiet.not_interrupts

/-- A flag that is not truthful becomes so in a step that begins a read, and in nothing else. -/
theorem Course.untruthful_iff (h : Course z c w) (hz : z.Waiting → z.input.waiting = true)
    (hnot : ¬ z.Truthful) : w.Truthful ↔ c.Begins z := by
  have hwaits : ¬ z.Waiting := fun hw => hnot ⟨fun _ => hw, hz⟩
  have hflag : z.input.waiting ≠ false := fun hf => hnot ((truthful_of_not_waiting hwaits).2 hf)
  cases h with
  | @steps answers hcourse =>
    constructor
    · intro htrue
      cases hcourse with
      | aside _ hw hinput =>
        rw [truthful_of_not_waiting hw, hinput] at htrue
        exact absurd htrue hflag
      | resumes hr => exact absurd ⟨_, hr⟩ hwaits
      | begins hasks => exact ⟨_, _, _, _, rfl, hasks⟩
    · rintro ⟨_, _, _, _, -, hasks⟩
      obtain ⟨line, hresumed⟩ := hasks.resumed answers
      exact hresumed.truthful rfl rfl
  | restores _ hphase hinput =>
    refine iff_of_false ?_ not_begins_restore
    rw [truthful_of_not_waiting (not_waiting (.inl hphase)), hinput]
    exact hflag
  | refuses => exact iff_of_false hnot not_begins_restore
  | quiet _ _ _ hquiet => exact iff_of_false hnot hquiet.not_begins

end HostCall

namespace Machine

open Game (readingStory)

variable {story : Story}

theorem Reachable.flag {z : Machine} (h : Reachable story z) :
    z.Waiting → z.input.waiting = true := by
  induction h with
  | start random tracing => exact fun hw => absurd hw (not_waiting (.inl rfl))
  | call c _ ih => exact (c.course_run _).flag ih

/-- A state reached by calls none of which interrupts a read. -/
inductive Orderly (story : Story) : Machine → Prop
  | start (random : Random) (tracing : Bool) :
      Orderly story { Machine.start story random with tracing }
  | call {z : Machine} (c : HostCall) : Orderly story z → ¬ c.Interrupts z → Orderly story (c.run z)

theorem Orderly.truthful {z : Machine} (h : Orderly story z) : z.Truthful := by
  induction h with
  | start random tracing => exact (truthful_of_not_waiting (not_waiting (.inl rfl))).2 rfl
  | call c _ hc ih => exact ((c.course_run _).truthful_iff ih).2 hc

/-- **The waiting flag tells the truth, except after a restore in the middle of a read.**  Wherever
the machine waits, the flag is raised.  As long as no host restores a snapshot while the machine
waits, it is raised nowhere else.  Such a restore leaves it raised, until the story reads again. -/
theorem waiting_flag {z : Machine} (hz : Reachable story z) :
    (z.Waiting → z.input.waiting = true) ∧
    (Orderly story z → (z.input.waiting = true ↔ z.Waiting)) ∧
    ∀ c : HostCall, (z.Truthful → ((c.run z).Truthful ↔ ¬ c.Interrupts z)) ∧
      (¬ z.Truthful → ((c.run z).Truthful ↔ c.Begins z)) :=
  ⟨hz.flag, Orderly.truthful,
    fun c => ⟨(c.course_run z).truthful_iff, (c.course_run z).untruthful_iff hz.flag⟩⟩

/-- The story begins to read, and its host restores a snapshot of that state. -/
theorem waiting_flag_reading :
    let z := { Machine.start readingStory (Random.ofEntropy 1) with tracing := false }
    let y := (HostCall.step ⟨.error .noStore, .error .noStore⟩).run z
    y.Waiting ∧ y.Truthful ∧ ¬ ((HostCall.restore y.snapshot).run y).Truthful := by
  intro z y
  have hz : Orderly readingStory z := .start _ false
  have hy : Orderly readingStory y := hz.call _ nofun
  have hreachable : Reachable readingStory y := (Reachable.start _ false).call _
  have hwaiting : y.Waiting := ⟨⟨0x63, 0x68, 0x7C⟩, by decide +kernel⟩
  have haccepts : y.accepts y.snapshot :=
    hreachable.bounded.accepts_snapshot hreachable.bounded (by decide +kernel)
  obtain ⟨-, htruthful, hcalls⟩ := waiting_flag hreachable
  refine ⟨hwaiting, htruthful hy, ?_⟩
  rw [(hcalls _).1 (htruthful hy), Classical.not_not]
  exact ⟨_, rfl, haccepts, hwaiting⟩

/-- A state that a host can reach, with the flag raised and no read. -/
theorem not_truthful_reading : ∃ z : Machine, Reachable readingStory z ∧
    z.input.waiting = true ∧ z.phase = .running := by
  let z := { Machine.start readingStory (Random.ofEntropy 1) with tracing := false }
  let y := (HostCall.step ⟨.error .noStore, .error .noStore⟩).run z
  refine ⟨(HostCall.restore y.snapshot).run y, ?_, by decide +kernel, by decide +kernel⟩
  exact ((Reachable.start _ false).call _).call _

end Machine

end ZCode
