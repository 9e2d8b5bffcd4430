/-
  What an instruction neither looks at nor changes while it is carried out.

  * `Commutes f act` says that `act` does to a state seen through `f` what it does to the state
    itself.
  * What stands aside (`Machine.Aside`) are the program counter, the state and the pending read, the
    last instruction, the input, and the source of random numbers as far as draws do not show it.
    The pieces of instructions commute with a change of it (`Primitive.commutes`), and so does carrying
    out an instruction (`commutes_execute`), which leaves all this as it is (`kept_of_execute`).
  * The input and the source of random numbers stand aside of the rest of a step as well, except
    for reads (`commutes_apply`, `commutes_answerSave`, `commutes_answerRestore`).
-/
import ZCode.Proofs.Run

namespace ZCode

variable {ε σ α β : Type}

/-- The action does to a state seen through `f` what it does to the state itself. -/
def Commutes (f : σ → σ) (act : EStateM ε σ α) : Prop := ∀ s, act (f s) = mapReached f (act s)

theorem reached_mapReached (f : σ → σ) (r : EStateM.Result ε σ α) :
    reached (mapReached f r) = f (reached r) := by
  cases r <;> rfl

section
variable {f : σ → σ}

/-- From a given state, the second action need only be looked at where the first one leads. -/
theorem mapReached_bind {x : EStateM ε σ α} {g : α → EStateM ε σ β} {s : σ}
    (hx : x (f s) = mapReached f (x s))
    (hg : ∀ a t, x s = .ok a t → g a (f t) = mapReached f (g a t)) :
    (x >>= g) (f s) = mapReached f ((x >>= g) s) := by
  cases hs : x s with
  | ok a t =>
    rw [hs] at hx
    rw [bind_ok hs, bind_ok hx]
    exact hg a t hs
  | error e t =>
    rw [hs] at hx
    rw [bind_error hs, bind_error hx]
    rfl

theorem Commutes.bind {x : EStateM ε σ α} {g : α → EStateM ε σ β} (hx : Commutes f x)
    (hg : ∀ a, Commutes f (g a)) : Commutes f (x >>= g) :=
  fun s => mapReached_bind (hx s) fun a t _ => hg a t

theorem Commutes.pure (a : α) : Commutes f (pure a : EStateM ε σ α) := fun _ => rfl

theorem Commutes.throw (e : ε) : Commutes f (throw e : EStateM ε σ α) := fun _ => rfl

theorem Commutes.throw_bind (e : ε) (g : α → EStateM ε σ β) :
    Commutes f ((MonadExcept.throw e : EStateM ε σ α) >>= g) := fun _ => rfl

theorem Commutes.modify {g : σ → σ} (h : ∀ s, g (f s) = f (g s)) :
    Commutes f (modify g : EStateM ε σ PUnit) := fun s => congrArg (EStateM.Result.ok _) (h s)

theorem Commutes.bind_get {g : σ → EStateM ε σ β} (h : ∀ s, g (f s) (f s) = mapReached f (g s s)) :
    Commutes f (get >>= g) := h

end

namespace Machine

/-- Drawing from the range `n` does not show the change. -/
def Aside.Draws (c : Aside) (n : Int64) : Prop :=
  ∀ r, (c.random r).draw n = ((r.draw n).1, c.random (r.draw n).2)

/-! ## Primitive actions -/

variable {c : Aside}

theorem commutes_look {f : Machine → Except Fault α} (h : ∀ z, f (c.on z) = f z) :
    Commutes c.on (look f) := by
  intro z
  unfold look
  rw [h]
  cases f z <;> rfl

theorem commutes_edit (e : Story → Edit α) : Commutes c.on (edit e) := by
  intro z
  have he : e (c.on z).story (c.on z).memory = e z.story z.memory := rfl
  unfold edit
  dsimp only
  rw [he]
  cases e z.story z.memory <;> rfl

theorem commutes_onFrame (g : Frame → Except Fault (α × Frame)) : Commutes c.on (onFrame g) := by
  intro z
  have hg : g (c.on z).calls.current = g z.calls.current := rfl
  unfold onFrame
  rw [hg]
  cases g z.calls.current <;> rfl

theorem commutes_send (call : OutputCall) : Commutes c.on (send call) := .modify fun _ => rfl

theorem commutes_addLog (entry : LogEntry) : Commutes c.on (addLog entry) := .modify fun _ => rfl

/-! ## Printing and streams -/

theorem commutes_printToTable (text : List Char) : Commutes c.on (printToTable text) := by
  induction text with
  | nil => exact .pure _
  | cons x text ih =>
    refine .bind_get fun z => ?_
    have ht : (c.on z).streams.tables = z.streams.tables := rfl
    rw [ht]
    cases z.streams.tables with
    | nil => rfl
    | cons t outer =>
      exact ((commutes_edit _).bind fun _ => (Commutes.modify fun _ => by rfl).bind fun _ => ih) z

theorem commutes_print (text : List Char) : Commutes c.on (print text) := by
  refine .bind_get fun z => ?_
  have hs : (c.on z).streams = z.streams := rfl
  simp only [hs]
  split
  · split
    · exact Commutes.modify (fun _ => by rfl) z
    · rfl
  · exact commutes_printToTable text z

theorem commutes_selectTable (table : Address) : Commutes c.on (selectTable table) := by
  refine .bind_get fun z => ?_
  have hs : (c.on z).streams = z.streams := rfl
  dsimp only
  rw [hs]
  split
  · rfl
  · rfl

theorem commutes_deselectTable : Commutes c.on deselectTable := by
  refine .bind_get fun z => ?_
  have ht : (c.on z).streams.tables = z.streams.tables := rfl
  rw [ht]
  cases z.streams.tables with
  | nil => rfl
  | cons t outer => exact ((Commutes.modify fun _ => by rfl).bind fun _ => commutes_edit _) z

theorem commutes_outputStream (number : Int) (table : Option Int) :
    Commutes c.on (outputStream number table) := by
  unfold outputStream
  split
  · exact .pure _
  split
  · exact .modify fun _ => rfl
  split
  · exact commutes_edit _
  split
  · split
    · exact .throw _
    · exact commutes_selectTable _
  split
  · exact commutes_deselectTable
  split
  · exact commutes_addLog _
  · exact .throw _

/-! ## Instructions -/

/-- Only draws show a change of what stands aside. -/
theorem Primitive.commutes {parts : List Part} {x y : Run α} (h : Primitive parts α x y)
    (hdraw : .random ∉ parts) : Commutes c.on y := by
  cases h with
  | look hsees => exact commutes_look (hsees c)
  | frame => exact commutes_onFrame _
  | edit => exact commutes_edit _
  | print text => exact commutes_print text
  | outputStream number table => exact commutes_outputStream number table
  | draw range hmem => exact absurd hmem hdraw
  | send call => exact commutes_send call
  | log entry => exact commutes_addLog entry

theorem closed_commutes (c : Aside) : Closed fun _ _ y => Commutes c.on y :=
  ⟨.pure, .throw, .bind⟩

theorem commutes_of_composed {parts : List Part} {Q : α → Prop} {x y : Run α}
    (h : Composed (Primitive parts) Q x y) (hdraw : .random ∉ parts) : Commutes c.on y :=
  h.lift (closed_commutes c) fun hpiece => hpiece.commutes hdraw

theorem commutes_operandValues (op : Op) (operands : List Operand) (n : Nat) :
    Commutes c.on (operandValues op n operands) :=
  commutes_of_composed (composed_operandValues (List.mem_singleton.2 rfl) op operands n) (by decide)

theorem commutes_setVariable (v : UInt8) (value : UInt16) : Commutes c.on (setVariable v value) :=
  have hparts : .frame ∈ [Part.frame, .memory] ∧ .memory ∈ [Part.frame, .memory] := by decide
  commutes_of_composed (composed_setVariable Stray.usual hparts.1 hparts.2 v value) (by decide)

theorem commutes_storeResult (i : Instruction) (v : UInt16) : Commutes c.on (storeResult i v) :=
  (commutes_setVariable _ _).bind fun _ => .pure _

theorem commutes_draw {n : Int64} (h : c.Draws n) : Commutes c.on (draw n) := by
  intro z
  have hdraw : (c.on z).random.draw n = _ := h z.random
  unfold draw
  rw [get_bind, get_bind, hdraw]
  rfl

theorem random_mem_parts {op : Op} : .random ∈ op.parts ↔ op = .random := by
  cases op <;> decide

theorem commutes_performOn (i : Instruction) (args : List Int) (x y w : Int)
    (h : i.op = .random → c.Draws (Int64.ofInt x)) :
    Commutes c.on (performOn i args x y w) := by
  by_cases hop : i.op = .random
  · unfold performOn
    rw [hop]
    exact (commutes_draw (h hop)).bind fun _ => commutes_storeResult i _
  · exact commutes_of_composed (composed_opcode i args x y w) (mt random_mem_parts.1 hop)

/-- The instruction draws from no range that would show the change. -/
def Unseen (c : Aside) (i : Instruction) (z : Machine) : Prop :=
  ∀ args u, operandValues i.op 0 i.operands z = .ok args u → i.op = .random →
    c.Draws (Int64.ofInt (args.getD 0 0))

/-- **Carrying out an instruction commutes with every change of what stands aside.** -/
theorem commutes_execute {i : Instruction} {z : Machine} (h : Unseen c i z) :
    execute i (c.on z) = mapReached c.on (execute i z) :=
  mapReached_bind (commutes_operandValues _ _ _ z) fun args u hu =>
    commutes_performOn i args _ _ _ (h args u hu) u

theorem unseen_of_random (h : c.random = id) (i : Instruction) (z : Machine) : Unseen c i z := by
  intro args u _ _ r
  rw [h]
  rfl

/-- What commutes with putting in place what is there already leaves it alone. -/
theorem reached_eq_on {act : EStateM ε Machine α} {z : Machine} (hown : c.on z = z)
    (h : act (c.on z) = mapReached c.on (act z)) : reached (act z) = c.on (reached (act z)) := by
  rw [hown] at h
  exact (congrArg reached h).trans (reached_mapReached _ _)

/-- What kind of step comes next is as before. -/
structure PhaseKept (z w : Machine) : Prop where
  state : w.state = z.state
  pendingRead : w.pendingRead = z.pendingRead

theorem PhaseKept.phase {z w : Machine} (h : PhaseKept z w) : w.phase = z.phase := by
  unfold Machine.phase
  rw [h.state, h.pendingRead]

/-- The phase put back to that of a machine. -/
def Aside.phaseOf (z : Machine) : Aside :=
  { state := fun _ => z.state, pendingRead := fun _ => z.pendingRead }

theorem phaseKept {act : EStateM ε Machine α} {z : Machine}
    (h : act ((Aside.phaseOf z).on z) = mapReached (Aside.phaseOf z).on (act z)) :
    PhaseKept z (reached (act z)) := by
  have hown := reached_eq_on (c := .phaseOf z) rfl h
  rw [hown]
  exact ⟨rfl, rfl⟩

/-- What stands aside stays as it is. -/
theorem kept_of_execute {i : Instruction} {z u : Machine} {action : Action}
    (h : execute i z = .ok action u) :
    u.pc = z.pc ∧ u.phase = z.phase ∧ u.last = z.last ∧ u.input = z.input := by
  let own : Aside := ⟨fun _ => z.pc, fun _ => z.state, fun _ => z.pendingRead, fun _ => z.last,
    fun _ => z.input, id⟩
  have hown := reached_eq_on (c := own) rfl (commutes_execute (unseen_of_random rfl i z))
  rw [h, reached_ok] at hown
  rw [hown]
  exact ⟨rfl, rfl, rfl, rfl⟩

/-! ## The rest of a step -/

theorem mapReached_orHalt {act : Run α} {z : Machine} (h : act (c.on z) = mapReached c.on (act z)) :
    orHalt act (c.on z) = mapReached c.on (orHalt act z) := by
  unfold orHalt EStateM.adaptExcept
  rw [h]
  cases act z <;> rfl

theorem commutes_orHalt {act : Run α} (h : Commutes c.on act) : Commutes c.on (orHalt act) :=
  fun z => mapReached_orHalt (h z)

theorem commutes_setPc (h : c.pc = id) (a : Address) : Commutes c.on (setPc a) :=
  .modify fun _ => by simp [Aside.on, h]

theorem commutes_enter (h : c.pc = id) (call : Call) : Commutes c.on (enter call) := by
  unfold enter
  split
  · exact (commutes_setPc h _).bind fun _ => commutes_setVariable _ _
  refine (commutes_look fun _ => rfl).bind fun n => ?_
  dsimp only
  split
  · exact .throw_bind _ _
  · exact (commutes_look fun _ => rfl).bind fun _ => (commutes_look fun _ => rfl).bind fun _ =>
      .modify fun _ => by simp [Aside.on, h]

theorem commutes_leave (h : c.pc = id) (value : UInt16) : Commutes c.on (leave value) := by
  refine (commutes_look fun _ => rfl).bind fun popped => ?_
  refine (Commutes.modify fun _ => by simp [Aside.on, h]).bind fun _ => ?_
  cases popped.1.store with
  | none => exact .pure _
  | some v => exact commutes_setVariable v value

theorem commutes_follow (h : c.pc = id) (flow : Flow) : Commutes c.on (follow flow) := by
  cases flow with
  | next a => exact commutes_setPc h a
  | jump base offset => exact commutes_setPc h _
  | ret value => exact commutes_leave h value

/-- A change that a host makes between steps: more lines, and another source of random numbers. -/
def Aside.hosted (lines : List String) (random : Random → Random) : Aside :=
  { input := fun l => { l with lines := l.lines ++ lines }, random }

section
variable {lines : List String} {ρ : Random → Random}

theorem mapReached_located (pc : Address) {act : EStateM Halt Machine α} {z : Machine}
    (h : act ((Aside.hosted lines ρ).on z) = mapReached (Aside.hosted lines ρ).on (act z)) :
    located pc act ((Aside.hosted lines ρ).on z) =
      mapReached (Aside.hosted lines ρ).on (located pc act z) := by
  unfold located
  rw [h]
  cases act z with
  | ok => rfl
  | error halt => cases halt <;> rfl

/-- What comes after an instruction does not show what a host does, unless it is a read. -/
theorem commutes_apply {action : Action} (h : ∀ r, action ≠ .read r) :
    Commutes (Aside.hosted lines ρ).on (apply action) := by
  cases action with
  | read r => exact absurd rfl (h r)
  | flow f => exact (commutes_orHalt (commutes_follow rfl f)).bind fun _ => .pure _
  | call call => exact (commutes_orHalt (commutes_enter rfl call)).bind fun _ => .pure _
  | save | restore => exact .pure _
  | quit =>
    exact (Commutes.modify fun _ => by rfl).bind fun _ =>
      (commutes_orHalt (commutes_send _)).bind fun _ => .throw _
  | restart =>
    exact (Commutes.modify fun _ => by dsimp only [Aside.on]).bind fun _ =>
      (Commutes.modify fun _ => by rfl).bind fun _ =>
        (commutes_orHalt (commutes_send _)).bind fun _ => .throw _

theorem commutes_answerSave (i : Instruction) (answer : Except StoreFailure Unit) :
    Commutes (Aside.hosted lines ρ).on (answerSave i answer) := by
  intro z
  apply mapReached_located
  cases answer with
  | ok => exact commutes_orHalt (commutes_follow rfl _) z
  | error cause =>
    exact ((commutes_orHalt (commutes_addLog _)).bind fun _ => commutes_orHalt (commutes_follow rfl _)) z

theorem commutes_resumeAtSave : Commutes (Aside.hosted lines ρ).on resumeAtSave := by
  refine (commutes_look fun _ => rfl).bind fun i => ?_
  dsimp only
  split
  · exact .bind_get fun _ => rfl
  · exact (Commutes.modify fun _ => by rfl).bind fun _ => commutes_follow rfl _

theorem commutes_restore (d : Snapshot) : Commutes (Aside.hosted lines ρ).on (restore d) := by
  intro z
  have hcheck : d.check ((Aside.hosted lines ρ).on z).story ((Aside.hosted lines ρ).on z).memory.size =
      d.check z.story z.memory.size := rfl
  rw [restore_eq, restore_eq, hcheck]
  cases d.check z.story z.memory.size <;> rfl

theorem restoreAnswer_hosted (answer : Except StoreFailure (List Char)) (z : Machine) :
    restoreAnswer answer ((Aside.hosted lines ρ).on z) =
      (restoreAnswer answer z).map (Aside.hosted lines ρ).on := by
  unfold restoreAnswer
  cases loadAnswer answer with
  | error cause => rfl
  | ok d =>
    simp only [bind, Except.bind]
    rw [commutes_restore d z]
    cases restore d z <;> rfl

theorem commutes_answerRestore (i : Instruction) (answer : Except StoreFailure (List Char)) :
    Commutes (Aside.hosted lines ρ).on (answerRestore i answer) := by
  intro z
  apply mapReached_located
  rw [get_bind, get_bind, restoreAnswer_hosted]
  cases restoreAnswer answer z with
  | ok w => exact commutes_orHalt commutes_resumeAtSave w
  | error cause =>
    exact ((commutes_orHalt (commutes_addLog _)).bind fun _ => commutes_orHalt (commutes_follow rfl _)) z

/-! ## Reads -/

theorem commutes_writeBytes (bytes : List UInt8) (a : Address) :
    Commutes c.on (writeBytes a bytes) := by
  induction bytes generalizing a with
  | nil => exact .pure _
  | cons b bytes ih => exact (commutes_edit _).bind fun _ => ih (a + 1)

theorem commutes_writeTokens (tokens : List Token) (block : Address) :
    Commutes c.on (writeTokens block tokens) := by
  induction tokens generalizing block with
  | nil => exact .pure _
  | cons t tokens ih =>
    exact .bind_get fun z => ((commutes_edit _).bind fun _ => (commutes_edit _).bind fun _ =>
      (commutes_edit _).bind fun _ => ih (block + 4)) z

theorem commutes_completeRead (r : PendingRead) (line : String) :
    Commutes c.on (completeRead r line) := by
  refine (commutes_look fun _ => rfl).bind fun room => ?_
  dsimp only
  split
  · exact .throw_bind _ _
  exact (commutes_writeBytes _ _).bind fun _ => (commutes_look fun _ => rfl).bind fun _ =>
    .bind_get fun z => ((commutes_edit _).bind fun _ => commutes_writeTokens _ _) z

theorem resumeRead_nil {z : Machine} (h : z.input.lines = []) (r : PendingRead) :
    resumeRead r z = .ok () z := by
  have hnone : z.input.read? = none := by simp [LineInput.read?, h]
  unfold resumeRead
  rw [get_bind, hnone]
  rfl

/-- The machine behind a read that has been completed. -/
def readDone (r : PendingRead) (z : Machine) : Machine :=
  { z with state := .running, pendingRead := none, pc := r.next,
           input := { z.input with waiting := false } }

theorem resumeRead_cons {z : Machine} {line : String} {rest : List String}
    (h : z.input.lines = line :: rest) (r : PendingRead) :
    resumeRead r z = (do completeRead r line; modify (readDone r))
      { z with input := { z.input with lines := rest } } := by
  have hsome : z.input.read? = some (line, { z.input with lines := rest }) := by
    simp [LineInput.read?, h]
  unfold resumeRead
  rw [get_bind, hsome]
  rfl

theorem commutes_readDone (r : PendingRead) (line : String) : Commutes (Aside.hosted lines ρ).on
    (do completeRead r line; modify (readDone r)) :=
  (commutes_completeRead r line).bind fun _ => .modify fun _ => rfl

/-- A read takes the line that it would have taken without the host, if there is one. -/
theorem mapReached_resumeRead (r : PendingRead) {z : Machine} (h : z.input.lines = [] → lines = []) :
    resumeRead r ((Aside.hosted lines ρ).on z) =
      mapReached (Aside.hosted lines ρ).on (resumeRead r z) := by
  have hlines : ((Aside.hosted lines ρ).on z).input.lines = z.input.lines ++ lines := rfl
  cases hl : z.input.lines with
  | nil =>
    have hnil : ((Aside.hosted lines ρ).on z).input.lines = [] := by rw [hlines, hl, h hl]; rfl
    rw [resumeRead_nil hl, resumeRead_nil hnil]
    rfl
  | cons line rest =>
    rw [hl] at hlines
    rw [resumeRead_cons hl, resumeRead_cons hlines]
    exact commutes_readDone r line { z with input := { z.input with lines := rest } }

/-- The machine as it starts to wait for a line. -/
def awaiting (z : Machine) (r : PendingRead) (status : StatusLine) : Machine :=
  { z with
    output := (z.output.push (.status status)).push .flush
    state := .waiting
    pendingRead := some r
    input := { z.input with waiting := true } }

theorem beginRead_eq (r : PendingRead) (z : Machine) :
    beginRead r z = match z.statusLine with
      | .error fault => .error fault z
      | .ok status => resumeRead r (z.awaiting r status) := by
  unfold beginRead showStatus
  cases h : z.statusLine with
  | error fault => exact bind_error (bind_error (by simp only [look, h]))
  | ok status =>
    have hlook : look statusLine z = .ok status z := by simp only [look, h]
    have hshow : (do send (.status (← look statusLine))) z =
        .ok () { z with output := z.output.push (.status status) } := bind_ok hlook
    exact bind_ok hshow

theorem mapReached_beginRead (r : PendingRead) {z : Machine} (h : z.input.lines = [] → lines = []) :
    beginRead r ((Aside.hosted lines ρ).on z) =
      mapReached (Aside.hosted lines ρ).on (beginRead r z) := by
  have hstatus : ((Aside.hosted lines ρ).on z).statusLine = z.statusLine := rfl
  rw [beginRead_eq, beginRead_eq, hstatus]
  cases z.statusLine with
  | error fault => rfl
  | ok status => exact mapReached_resumeRead r (z := z.awaiting r status) h

end

end Machine

end ZCode
