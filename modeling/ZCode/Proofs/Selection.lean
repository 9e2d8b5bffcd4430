/-
  The selection of output streams.

  * Only three things change which streams are selected: an instruction that selects or deselects one,
    printing while a table is open, and a restart (`unmoved_step`).  A run without them leaves the
    selection as it is (`Undiverted.unmoved`).
  * `Session.streams_restored`: a snapshot says nothing about the selection.  A restore therefore goes on
    with the selection of the run that restores, which need not be that of the save.
-/
import ZCode.Proofs.Streams
import ZCode.Proofs.Waiting

namespace ZCode

/-- The opcode prints. -/
def Op.Prints : Op → Prop
  | .printText | .printReturn | .newLine | .printAddr | .printPaddr | .printObj | .printChar
  | .printNum => True
  | _ => False

namespace Machine

variable {ε α : Type} {z w u : Machine} {i : Instruction}

/-- The same streams are selected. -/
def Unmoved (z w : Machine) : Prop := w.streams = z.streams

instance : IsPreorder Machine Unmoved where
  refl _ := rfl
  trans _ _ _ h h' := Eq.trans h' h

/-! ## Instructions -/

theorem OnlyMemory.unmoved (h : OnlyMemory z w) : Unmoved z w := by
  rw [show w = _ from h]
  rfl

theorem unmoved_edit (e : Story → Edit α) : Within Unmoved (edit e) := fun z =>
  (onlyMemory_edit e z).unmoved

theorem unmoved_onFrame (g : Frame → Except Fault (α × Frame)) : Within Unmoved (onFrame g) := by
  intro z
  unfold onFrame
  cases g z.calls.current <;> rfl

theorem unmoved_addLog (entry : LogEntry) : Within Unmoved (addLog entry) :=
  Within.modify fun _ => rfl

/-- Only printing and the instruction for it change the selection. -/
theorem Primitive.within_of_unmoved {R : Machine → Machine → Prop} [IsPreorder Machine R]
    {parts : List Part} {x y : Run α} (h : Primitive parts α x y) (hR : ∀ z w, Unmoved z w → R z w)
    (hprint : .text ∈ parts → ∀ text, Within R (Machine.print text)) (hselect : .selection ∉ parts) :
    Within R y := by
  cases h with
  | look => exact within_look _
  | frame => exact fun z => hR _ _ (unmoved_onFrame _ z)
  | edit => exact fun z => hR _ _ (unmoved_edit _ z)
  | print text hmem => exact hprint hmem text
  | outputStream number table hmem => exact absurd hmem hselect
  | draw | send | log => exact fun z => hR _ _ rfl

theorem unmoved_of_composed {parts : List Part} {Q : α → Prop} {x y : Run α}
    (h : Composed (Primitive parts) Q x y) (hprint : .text ∉ parts) (hselect : .selection ∉ parts) :
    Within Unmoved y :=
  h.lift (closed_within Unmoved) fun hpiece =>
    hpiece.within_of_unmoved (fun _ _ => id) (fun hmem => absurd hmem hprint) hselect

theorem unmoved_setVariable (n : UInt8) (value : UInt16) : Within Unmoved (setVariable n value) :=
  have hparts : .frame ∈ [Part.frame, .memory] ∧ .memory ∈ [Part.frame, .memory] := by decide
  unmoved_of_composed (composed_setVariable Stray.usual hparts.1 hparts.2 n value) (by decide)
    (by decide)

theorem unmoved_operandValues (op : Op) (operands : List Operand) (n : Nat) :
    Within Unmoved (operandValues op n operands) :=
  unmoved_of_composed (composed_operandValues (List.mem_singleton.2 rfl) op operands n) (by decide)
    (by decide)

theorem unmoved_showStatus : Within Unmoved showStatus :=
  have h : Composed (Primitive []) (fun _ => True) showStatus showStatus := composed_showStatus _
  unmoved_of_composed h (by decide) (by decide)

theorem text_mem_parts {op : Op} : .text ∈ op.parts ↔ op.Prints := by
  cases op <;> simp [Op.parts, Op.Prints]

theorem selection_mem_parts {op : Op} : .selection ∈ op.parts ↔ op = .outputStream := by
  cases op <;> decide

theorem unmoved_performOn (i : Instruction) (args : List Int) (a b c : Int)
    (hstream : i.op ≠ .outputStream) (hprint : ¬ i.op.Prints) :
    Within Unmoved (performOn i args a b c) :=
  unmoved_of_composed (composed_opcode i args a b c) (mt text_mem_parts.1 hprint)
    (mt selection_mem_parts.1 hstream)

/-- While no table is open, the same streams stay selected. -/
def Steady (z w : Machine) : Prop := z.streams.tables = [] → w.streams = z.streams

instance : IsPreorder Machine Steady where
  refl _ _ := rfl
  trans z w u hw hu hz := by
    have hsame := hw hz
    rw [hu (hsame ▸ hz), hsame]

theorem steady_print (text : List Char) : Within Steady (print text) := by
  refine .bind_get fun z hz => ?_
  show (reached ((if z.streams.tables.isEmpty then _ else _ : Run Unit) z)).streams = _
  rw [if_pos (List.isEmpty_iff.2 hz)]
  split <;> rfl

theorem steady_performOn (i : Instruction) (args : List Int) (a b c : Int)
    (hstream : i.op ≠ .outputStream) : Within Steady (performOn i args a b c) :=
  (composed_opcode i args a b c).lift (closed_within Steady) fun hpiece =>
    hpiece.within_of_unmoved (fun _ _ hsame _ => hsame) (fun _ => steady_print)
      (mt selection_mem_parts.1 hstream)

/-- The instruction may change the selection of streams. -/
def Diverts (z : Machine) (i : Instruction) : Prop :=
  i.op = .outputStream ∨ i.op = .restart ∨ i.op.Prints ∧ z.streams.tables ≠ []

theorem unmoved_execute (h : ¬ z.Diverts i) (hz : w.streams = z.streams) :
    Unmoved w (reached (execute i w)) := by
  simp only [Diverts, not_or, not_and, not_not] at h
  obtain ⟨hstream, -, htables⟩ := h
  refine reached_bind (unmoved_operandValues i.op i.operands 0 w) fun args u hu => ?_
  by_cases hprint : i.op.Prints
  · have hsame : u.streams = w.streams := by
      have := unmoved_operandValues i.op i.operands 0 w
      rwa [hu] at this
    exact steady_performOn i args _ _ _ hstream u (by rw [hsame, hz, htables hprint])
  · exact unmoved_performOn i args _ _ _ hstream hprint u

/-! ## Steps -/

theorem unmoved_leave (value : UInt16) : Within Unmoved (leave value) := by
  refine (within_look _).bind fun popped => ?_
  refine Within.bind (Within.modify fun _ => ?_) fun _ => ?_
  · rfl
  · cases popped.1.store with
    | none => exact .pure _
    | some n => exact unmoved_setVariable n value

theorem unmoved_follow (flow : Flow) : Within Unmoved (follow flow) := by
  cases flow with
  | next | jump => exact Within.modify fun _ => rfl
  | ret value => exact unmoved_leave value

theorem unmoved_enter (c : Call) : Within Unmoved (enter c) := by
  unfold enter
  split
  · exact Within.bind (Within.modify fun _ => rfl) fun _ => unmoved_setVariable _ _
  refine (within_look _).bind fun n => ?_
  dsimp only
  split
  · exact .throw_bind _ _
  · exact (within_look _).bind fun _ => (within_look _).bind fun _ => Within.modify fun _ => rfl

theorem Resumed.unmoved {r : PendingRead} (h : Resumed r z w) : Unmoved z w := by
  cases h <;> rfl

theorem unmoved_resumeRead (r : PendingRead) : Within Unmoved (resumeRead r) := fun z =>
  (resumed_resumeRead r z).unmoved

theorem unmoved_beginRead (r : PendingRead) : Within Unmoved (beginRead r) := by
  refine unmoved_showStatus.bind fun _ => Within.bind (Within.modify fun _ => ?_) fun _ =>
    Within.bind (Within.modify fun _ => ?_) fun _ => unmoved_resumeRead r
  · rfl
  · rfl

theorem unmoved_apply {action : Action} (h : action ≠ .restart) : Within Unmoved (apply action) := by
  cases action with
  | restart => exact absurd rfl h
  | flow f => exact (within_orHalt (unmoved_follow f)).bind fun _ => .pure _
  | call c => exact (within_orHalt (unmoved_enter c)).bind fun _ => .pure _
  | read r => exact (within_orHalt (unmoved_beginRead r)).bind fun _ => .pure _
  | save | restore => exact .pure _
  | quit =>
    refine Within.bind (Within.modify fun _ => ?_) fun _ =>
      Within.bind (within_orHalt (Within.modify fun _ => ?_)) fun _ => .throw _
    · rfl
    · rfl

theorem unmoved_restore (d : Snapshot) : Within Unmoved (restore d) := by
  intro z
  rw [restore_eq]
  cases d.check z.story z.memory.size <;> rfl

theorem unmoved_answers : AnswersWithin Unmoved where
  follow := unmoved_follow
  log := unmoved_addLog
  last _ := Within.modify fun _ => rfl
  restore := unmoved_restore

theorem unmoved_advance (h : ∀ i, z.Next i → ¬ z.Diverts i) : Unmoved z (reached (advance z)) := by
  cases hp : z.phase with
  | terminated =>
    rw [advance_terminated hp]
    rfl
  | waiting r =>
    rw [advance_waiting hp, reached_located]
    exact ((within_orHalt (unmoved_resumeRead r)).bind fun _ => .pure _) z
  | running =>
    cases hd : Instruction.decode z.story.script z.memory z.pc with
    | error fault =>
      rw [advance_of_undecoded hp hd]
      rfl
    | ok i =>
      have hi : z.Next i := ⟨hp, hd⟩
      have hexecute : Unmoved z (reached (execute i (z.fetched z.pc i))) :=
        unmoved_execute (w := z.fetched z.pc i) (h i hi) rfl
      cases he : execute i (z.fetched z.pc i) with
      | error fault u =>
        rw [he] at hexecute
        rw [advance_of_fault hi he]
        exact hexecute
      | ok action u =>
        rw [he] at hexecute
        rw [advance_of_execute hi he, reached_located]
        have hrestart : action ≠ .restart := by
          rintro rfl
          exact h i hi (.inr (.inl (op_of_execute he)))
        exact IsTrans.trans _ _ _ hexecute (unmoved_apply hrestart u)

/-- **Only an instruction that diverts changes the selection of streams.** -/
theorem unmoved_step (answers : Answers) (h : ∀ i, z.Next i → ¬ z.Diverts i) :
    Unmoved z (reached (step answers z)) :=
  unmoved_answers.step answers (unmoved_advance h)

/-! ## Runs -/

/-- The machine `w` is reached from `z` by calls of a host in which no instruction diverts. -/
inductive Undiverted (z : Machine) : Machine → Prop
  | refl : Undiverted z z
  | call {w : Machine} (c : HostCall) : Undiverted z w →
      ((∃ answers, c = .step answers) → ∀ i, w.Next i → ¬ w.Diverts i) → Undiverted z (c.run w)

/-- **A run without such instructions leaves the selection of streams as it is.** -/
theorem Undiverted.unmoved (h : Undiverted z w) : Unmoved z w := by
  induction h with
  | refl => rfl
  | @call w c _ hc ih =>
    refine IsTrans.trans _ _ _ ih ?_
    rcases c.kinds with ⟨answers, rfl⟩ | ⟨d, rfl⟩ | hquiet
    · exact unmoved_step answers (hc ⟨answers, rfl⟩)
    · exact unmoved_restore d w
    · obtain ⟨m, lines, typed, hrun⟩ := hquiet.run_eq w
      rw [hrun]
      rfl

/-! ## Where a text goes -/

/-- The same messages have been sent to the screen. -/
def Silent (z w : Machine) : Prop := w.output = z.output

instance : IsPreorder Machine Silent where
  refl _ := rfl
  trans _ _ _ h h' := Eq.trans h' h

theorem OnlyMemory.silent (h : OnlyMemory z w) : Silent z w := by
  rw [show w = _ from h]
  rfl

theorem silent_printToTable (text : List Char) : Within Silent (printToTable text) := by
  induction text with
  | nil => exact .pure _
  | cons c text ih =>
    refine .bind_get fun z => ?_
    cases z.streams.tables with
    | nil => exact refl z
    | cons t outer =>
      have hwrite : Within Silent (writeByte (t.table + 2 + t.length.toUInt32) (tableCode c)) :=
        fun z => (onlyMemory_edit _ z).silent
      refine (hwrite.bind fun _ => Within.bind (Within.modify fun _ => ?_) fun _ => ih) z
      rfl

/-- The screen receives a text if it is switched on and no table is open. -/
theorem sends_print (text : List Char) (z : Machine) :
    Sends z.output (reached (print text z)).output
      (if z.streams.tables = [] ∧ z.streams.screenOff = false then text else []) := by
  show Sends z.output (reached ((if z.streams.tables.isEmpty then _ else _ : Run Unit) z)).output _
  by_cases htables : z.streams.tables = []
  · rw [if_pos (List.isEmpty_iff.2 htables)]
    cases hoff : z.streams.screenOff with
    | true =>
      rw [if_neg (by decide), if_neg (by simp)]
      exact .refl z.output
    | false =>
      rw [if_pos (by decide), if_pos ⟨htables, rfl⟩]
      exact sends_sendText text List.not_mem_nil z.output
  · rw [if_neg (mt List.isEmpty_iff.1 htables), if_neg (fun h => htables h.1),
      show (reached (printToTable text z)).output = _ from silent_printToTable text z]
    exact .refl z.output

/-- Saves and restores divert nothing. -/
theorem Next.not_diverts (h : z.Next i) (hop : i.op = .save ∨ i.op = .restore) :
    ∀ j, z.Next j → ¬ z.Diverts j := by
  intro j hj
  have hsame : j = i := Except.ok.inj (hj.decodes.symm.trans h.decodes)
  subst hsame
  unfold Diverts
  rcases hop with hop | hop <;> simp [hop, Op.Prints]

end Machine

namespace Session

open Machine

/-- **A restore goes on with the selection of streams of the run that restores.**  It is the selection of
the save if and only if the two are the same, as they are if no instruction has diverted since.  The text
printed next reaches the screen where that of the run that restores would have. -/
theorem streams_restored {story : Story} {s : Session} {i : Instruction}
    (hs : Reachable story s.machine) (hi : s.machine.Next i) (hsave : i.op = .save)
    (hsaved : s.answers.save = .ok ()) :
    ∃ data, (reached (step s)).kept = some data ∧
      ∀ (t : Session) (j : Instruction), Reachable story t.machine → t.machine.Next j →
        j.op = .restore → t.answers.restore = .ok data.toList →
        let saved := (reached (step s)).machine
        let restored := (reached (step t)).machine
        RestoresInStep t.answers t.machine s.machine.snapshot ∧
          saved.streams = s.machine.streams ∧ restored.streams = t.machine.streams ∧
          (restored.streams = saved.streams ↔ t.machine.streams = s.machine.streams) ∧
          (Undiverted saved t.machine → restored.streams = saved.streams) ∧
          ∀ text, Sends restored.output (reached (print text restored)).output
            (if t.machine.streams.tables = [] ∧ t.machine.streams.screenOff = false then text
              else []) := by
  refine ⟨_, kept_step_save hi hsave hsaved, fun t j ht hj hrestore hdata => ?_⟩
  have hkept : (reached (step s)).machine.streams = s.machine.streams := by
    rw [machine_reached_step]
    exact unmoved_step _ (hi.not_diverts (.inl hsave))
  have hkept' : (reached (step t)).machine.streams = t.machine.streams := by
    rw [machine_reached_step]
    exact unmoved_step _ (hj.not_diverts (.inr hrestore))
  intro saved restored
  refine ⟨?_, hkept, hkept', by rw [hkept, hkept'], fun h => ?_, fun text => ?_⟩
  · exact restoresInStep_snapshot hs.bounded hi.pc_lt ht.bounded hj hrestore hdata
  · exact hkept'.trans h.unmoved
  · rw [← hkept']
    exact sends_print text restored

/-- The small story saves, its host turns the transcript on, and the story restores. -/
theorem streams_restored_small :
    let s : Session :=
      ⟨{ Machine.start smallStory (Random.ofEntropy 1) with tracing := false }, some {}⟩
    let u := reached (step s)
    let t : Session := { u with machine := (HostCall.setTranscripting true).run u.machine }
    RestoresInStep t.answers t.machine s.machine.snapshot ∧
      (reached (step t)).machine.streams = u.machine.streams ∧
      Sends (reached (step t)).machine.output
        (reached (print ['x'] (reached (step t)).machine)).output ['x'] := by
  intro s u t
  have hs : Reachable smallStory s.machine := .start _ false
  have hu : Reachable smallStory u.machine := reachable_step (s := s) hs
  have hundiverted : Undiverted u.machine t.machine := by
    clear_value u
    refine .call (.setTranscripting true) .refl ?_
    rintro ⟨answers, hc⟩
    cases hc
  have ht : Reachable smallStory t.machine := by
    clear_value u
    exact hu.call (.setTranscripting true)
  have hi : s.machine.Next ⟨0x68, .short, .zero, 5, .save, [], 0, some ⟨true, 2⟩, [], 0x6A⟩ :=
    ⟨by decide +kernel, by decide +kernel⟩
  have hj : t.machine.Next ⟨0x6A, .short, .zero, 6, .restore, [], 0, some ⟨true, 2⟩, [], 0x6C⟩ :=
    ⟨by decide +kernel, by decide +kernel⟩
  have hstore : t.store.map (·.restoreError) = some none := by decide +kernel
  have hon : t.machine.streams = {} := by decide +kernel
  obtain ⟨data, hkept, hall⟩ := streams_restored (s := s) hs hi rfl rfl
  clear_value s
  obtain ⟨hrestores, -, -, -, hsame, hsends⟩ :=
    hall t _ ht hj rfl (restore_of_kept hkept hstore)
  have hx := hsends ['x']
  rw [hon] at hx
  exact ⟨hrestores, hsame hundiverted, hx⟩

/-- An image whose story saves, prints a letter, switches the screen off and restores. -/
def mutingImage : Memory :=
  let header : List UInt8 := [3, 0, 0, 0, 0, 0, 0, 0x68, 0, 0x78, 0, 0x02, 0, 0x5D, 0, 0x68]
  let rest := (smallImage.bytes.toList.take 0x68).drop 16
  let code : List UInt8 :=
    [0xB5, 0xC2, 0xE5, 0x7F, 0x78, 0xF3, 0x3F, 0xFF, 0xFF, 0xB6, 0xC2, 0xBA, 0, 0, 0, 0]
  let dictionary : List UInt8 := [0, 7, 0, 0]
  ⟨(header ++ rest ++ code ++ dictionary).toArray⟩

def mutingStory : Story := .ofImage mutingImage

/-- The restored story goes on where the save led, but with the screen switched off. -/
theorem restored_prints_nowhere :
    let saving : Answers := ⟨.ok (), .error .noStore⟩
    let z := { Machine.start mutingStory (Random.ofEntropy 1) with tracing := false }
    let restoring : Answers := ⟨.ok (), .ok z.snapshot.render.toList⟩
    let go := (HostCall.step saving).run
    let w := go (go (go z))
    Reachable mutingStory z ∧ (go z).streams = {} ∧
      RestoresInStep restoring w z.snapshot ∧
      (reached (Machine.step restoring w)).pc = (go z).pc ∧
      (reached (Machine.step restoring w)).streams = { screenOff := true } := by
  intro saving z restoring go w
  have hz : Reachable mutingStory z := .start _ false
  have hw : Reachable mutingStory w := ((hz.call _).call _).call _
  have hi : z.Next ⟨0x68, .short, .zero, 5, .save, [], 0, some ⟨true, 2⟩, [], 0x6A⟩ :=
    ⟨by decide +kernel, by decide +kernel⟩
  have hj : w.Next ⟨0x71, .short, .zero, 6, .restore, [], 0, some ⟨true, 2⟩, [], 0x73⟩ :=
    ⟨by decide +kernel, by decide +kernel⟩
  have hon : (go z).streams = {} := by decide +kernel
  have hoff : w.streams = { screenOff := true } := by decide +kernel
  clear_value w
  have hsaved : saving.save = .ok () := rfl
  have hdata : restoring.restore = .ok z.snapshot.render.toList := rfl
  obtain ⟨hrestores, halike, -⟩ :=
    step_restore_alike hz.bounded hi rfl (by decide) hsaved hw.bounded hj rfl hdata
  have hmuted := unmoved_step restoring (hj.not_diverts (.inr rfl))
  exact ⟨hz, hon, hrestores, halike.pc.symm, Eq.trans hmuted hoff⟩

end Session

end ZCode
