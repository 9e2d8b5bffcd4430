/-
  The moments at which a host hands over its lines.

  * `Session.step_feed`: with more lines behind those that wait, a step does what it does without
    them, unless it stops to wait for a line.  Then it does what the next step will do once there
    are lines.
  * `Schedule` are the ways to play a game with a list of lines: the host hands over the next one
    between any two steps.  Each of them follows the game in which all lines are there from the
    start (`Game.follows`).
  * `schedule_result` draws the conclusion: the moments do not matter.
-/
import Mathlib.Logic.Function.Iterate
import ZCode.Proofs.Aside
import ZCode.Proofs.Calls

namespace ZCode

open Relation

theorem bind_eq_bind {ε σ α β : Type} {x y : EStateM ε σ α} {f : α → EStateM ε σ β} {s t : σ}
    (h : x s = y t) : (x >>= f) s = (y >>= f) t := by
  show EStateM.bind x f s = EStateM.bind y f t
  simp only [EStateM.bind, h]

namespace Machine

/-- The machine with more lines behind those that wait to be read. -/
def feed (lines : List String) (z : Machine) : Machine :=
  { z with input := { z.input with lines := z.input.lines ++ lines } }

/-- The machine when the clock, which gives the seeds of random mode, shows `now`. -/
def setClock (now : Int64) (z : Machine) : Machine :=
  { z with random := { z.random with entropy := now } }

/-- The machine waits for a line, and there is none. -/
def Waits (z : Machine) : Prop := (∃ r, z.phase = .waiting r) ∧ z.input.lines = []

/-! ## Steps under a host -/

/-- The machine needs a line in its next step. -/
inductive Demands (z : Machine) : Prop
  | waiting {r : PendingRead} : z.phase = .waiting r → Demands z
  | read {i : Instruction} {r : PendingRead} {u : Machine} : z.Next i →
      execute i (z.fetched z.pc i) = .ok (.read r) u → Demands z

/-- A read without a line does nothing. -/
theorem advance_of_waits {z : Machine} (h : z.Waits) : advance z = .ok none z := by
  obtain ⟨⟨r, hr⟩, hlines⟩ := h
  rw [advance_waiting hr]
  exact located_ok (bind_ok (orHalt_ok (resumeRead_nil hlines r)))

/-- A read whose status line can be shown is from then on a read that waits. -/
theorem advance_of_read {z u : Machine} {i : Instruction} {r : PendingRead} {status : StatusLine}
    (hi : z.Next i) (he : execute i (z.fetched z.pc i) = .ok (.read r) u)
    (hs : u.statusLine = .ok status) : advance z = advance (u.awaiting r status) := by
  have hpc : (u.awaiting r status).pc = z.pc := (kept_of_execute he).1
  have hbegin : orHalt (beginRead r) u = orHalt (resumeRead r) (u.awaiting r status) := by
    simp only [orHalt, EStateM.adaptExcept, beginRead_eq, hs]
  rw [advance_of_execute hi he, advance_waiting (r := r) rfl, hpc]
  simp only [located, apply, bind_eq_bind hbegin]

theorem advance_of_no_status {z u : Machine} {i : Instruction} {r : PendingRead} {fault : Fault}
    (hi : z.Next i) (he : execute i (z.fetched z.pc i) = .ok (.read r) u)
    (hs : u.statusLine = .error fault) :
    advance z = .error (.fault z.pc u.lastInstruction fault) u := by
  have hbegin : orHalt (beginRead r) u = .error (.fault fault) u := by
    simp only [orHalt, EStateM.adaptExcept, beginRead_eq, hs]
  rw [advance_of_execute hi he]
  simp only [located, apply, bind_error hbegin]

section
variable {lines : List String} {ρ : Random → Random} {z : Machine}

/-- A step does not show what a host does, if it needs no line or had one anyway. -/
theorem advance_hosted (hlines : z.Demands → z.input.lines = [] → lines = [])
    (hunseen : ∀ i, z.Next i → Unseen (Aside.hosted lines ρ) i (z.fetched z.pc i)) :
    advance ((Aside.hosted lines ρ).on z) =
      mapReached (Aside.hosted lines ρ).on (advance z) := by
  obtain ⟨z', hz'⟩ : ∃ z', z' = (Aside.hosted lines ρ).on z := ⟨_, rfl⟩
  have hphase : z'.phase = z.phase := by rw [hz']; rfl
  have hdecode : Instruction.decode z'.story.script z'.memory z'.pc =
      Instruction.decode z.story.script z.memory z.pc := by rw [hz']; rfl
  rw [← hz']
  cases hp : z.phase with
  | terminated =>
    rw [advance_terminated hp, advance_terminated (hphase.trans hp), hz']
    rfl
  | waiting r =>
    rw [advance_waiting hp, advance_waiting (hphase.trans hp), hz']
    apply mapReached_located
    refine mapReached_bind (mapReached_orHalt ?_) fun _ _ _ => rfl
    exact mapReached_resumeRead r (hlines (.waiting hp))
  | running =>
    cases hd : Instruction.decode z.story.script z.memory z.pc with
    | error fault =>
      rw [advance_of_undecoded hp hd, advance_of_undecoded (hphase.trans hp) (hdecode.trans hd), hz']
      rfl
    | ok i =>
      have hi : z.Next i := ⟨hp, hd⟩
      have hi' : z'.Next i := ⟨hphase.trans hp, hdecode.trans hd⟩
      have hexecute : execute i (z'.fetched z'.pc i) = mapReached (Aside.hosted lines ρ).on
          (execute i (z.fetched z.pc i)) := by
        rw [hz']
        exact commutes_execute (hunseen i hi)
      cases he : execute i (z.fetched z.pc i) with
      | error fault u =>
        rw [he] at hexecute
        rw [advance_of_fault hi he, advance_of_fault hi' hexecute, hz']
        rfl
      | ok action u =>
        rw [he] at hexecute
        rw [advance_of_execute hi he, advance_of_execute hi' hexecute, hz']
        apply mapReached_located
        cases action with
        | read r =>
          have hinput : u.input = z.input := (kept_of_execute he).2.2.2
          refine mapReached_bind (mapReached_orHalt (mapReached_beginRead r ?_)) fun _ _ _ => rfl
          rw [hinput]
          exact hlines (.read hi he)
        | flow | call | quit | restart | save | restore => exact commutes_apply (by simp) u

end

/-- With more lines, a step does what it does without them; or it stops to wait, and with more lines
does what the next step does. -/
theorem advance_feed (lines : List String) (z : Machine) :
    advance (z.feed lines) = mapReached (feed lines) (advance z) ∨
      ∃ w, advance z = .ok none w ∧ w.Waits ∧ advance (z.feed lines) = advance (w.feed lines) := by
  by_cases hlines : z.Demands → z.input.lines = [] → lines = []
  · exact .inl (advance_hosted (ρ := id) hlines fun i _ => unseen_of_random rfl i _)
  have hnone : z.input.lines = [] := Classical.byContradiction fun h => hlines fun _ h' => absurd h' h
  have hdemands : z.Demands := Classical.byContradiction fun h => hlines fun h' => absurd h' h
  cases hdemands with
  | @waiting r hp =>
    have hwaits : z.Waits := ⟨⟨r, hp⟩, hnone⟩
    exact .inr ⟨z, advance_of_waits hwaits, hwaits, rfl⟩
  | @read i r u hi he =>
    have hinput : u.input = z.input := (kept_of_execute he).2.2.2
    have hi' : (z.feed lines).Next i := ⟨hi.running, hi.decodes⟩
    have he' : execute i ((z.feed lines).fetched (z.feed lines).pc i) =
        .ok (.read r) (u.feed lines) := by
      have := commutes_execute (unseen_of_random (c := .hosted lines id) rfl i (z.fetched z.pc i))
      rwa [he] at this
    cases hs : u.statusLine with
    | error fault =>
      left
      rw [advance_of_no_status hi he hs, advance_of_no_status hi' he' hs]
      rfl
    | ok status =>
      have hwaits : (u.awaiting r status).Waits :=
        ⟨⟨r, rfl⟩, (congrArg LineInput.lines hinput).trans hnone⟩
      refine .inr ⟨u.awaiting r status, ?_, hwaits, advance_of_read hi' he' hs⟩
      rw [advance_of_read hi he hs]
      exact advance_of_waits hwaits

/-! ## The clock -/

theorem draws_of_ne_zero {n : Int64} (h : n ≠ 0) (now : Int64) (lines : List String) :
    (Aside.hosted lines fun r => { r with entropy := now }).Draws n := by
  intro r
  unfold Random.draw
  split
  · rfl
  split
  · rfl
  · rename_i hpos hneg
    refine absurd (Int64.toInt_inj.1 ?_) h
    rw [Int64.lt_iff_toInt_lt] at hpos hneg
    omega

/-- A draw from the range 0 leaves predictable mode. -/
theorem advance_of_reseed {z u : Machine} {i : Instruction} {args : List Int} (hi : z.Next i)
    (hop : i.op = .random)
    (hargs : operandValues i.op 0 i.operands (z.fetched z.pc i) = .ok args u)
    (hzero : Int64.ofInt (args.getD 0 0) = 0) :
    ∃ w, w.random.predictable = false ∧
      (advance z = .ok none w ∨ ∃ stop, advance z = .error stop w) := by
  let u' : Machine := { u with random := u.random.enterRandomMode }
  have hexecute : execute i (z.fetched z.pc i) = storeResult i 0 u' := by
    unfold execute
    rw [bind_ok hargs]
    have hzero : Int64.ofInt (args.getD 0 Stray.number) = 0 := hzero
    unfold perform performOn
    rw [hop, hzero]
    rfl
  have hpredictable : (reached (storeResult i 0 u')).random.predictable = false := by
    rw [reached_eq_on (c := { random := fun _ => u'.random }) rfl (commutes_storeResult i 0 u')]
    rfl
  cases hstore : storeResult i 0 u' with
  | error fault w =>
    rw [hstore] at hexecute hpredictable
    exact ⟨w, hpredictable, .inr ⟨_, advance_of_fault hi hexecute⟩⟩
  | ok action w =>
    rw [hstore] at hexecute hpredictable
    obtain ⟨_, _, _, ⟨⟩⟩ := ok_of_bind hstore
    refine ⟨{ w with pc := i.next }, hpredictable, .inl ?_⟩
    rw [advance_of_execute hi hexecute]
    rfl

/-! ## Where steps come to rest -/

theorem phase_of_follow {flow : Flow} {z w : Machine} (h : follow flow z = .ok () w) :
    w.phase = z.phase := by
  have hkept := phaseKept (commutes_follow rfl flow z)
  rw [h] at hkept
  exact hkept.phase

theorem phase_of_enter {call : Call} {z w : Machine} (h : enter call z = .ok () w) :
    w.phase = z.phase := by
  have hkept := phaseKept (commutes_enter rfl call z)
  rw [h] at hkept
  exact hkept.phase

/-- A read that does not fault either has its line or waits on. -/
theorem rests_of_resumeRead {r : PendingRead} {z w : Machine} (hp : z.phase = .waiting r)
    (h : resumeRead r z = .ok () w) : w.phase = .running ∨ w.Waits := by
  cases hl : z.input.lines with
  | nil =>
    rw [resumeRead_nil hl] at h
    cases h
    exact .inr ⟨⟨r, hp⟩, hl⟩
  | cons line rest =>
    rw [resumeRead_cons hl] at h
    obtain ⟨_, u, -, ⟨⟩⟩ := ok_of_bind h
    exact .inl rfl

theorem rests_of_beginRead {r : PendingRead} {z w : Machine} (h : beginRead r z = .ok () w) :
    w.phase = .running ∨ w.Waits := by
  rw [beginRead_eq] at h
  cases hs : z.statusLine with
  | error fault =>
    rw [hs] at h
    cases h
  | ok status =>
    rw [hs] at h
    exact rests_of_resumeRead (z := z.awaiting r status) rfl h

theorem rests_of_apply {action : Action} {z w : Machine} {request : Option StoreRequest}
    (hz : z.phase = .running) (h : apply action z = .ok request w) :
    w.phase = .running ∨ request = none ∧ w.Waits := by
  cases action with
  | flow f =>
    obtain ⟨_, u, hu, ⟨⟩⟩ := ok_of_bind h
    exact .inl ((phase_of_follow (ok_of_orHalt hu)).trans hz)
  | call call =>
    obtain ⟨_, u, hu, ⟨⟩⟩ := ok_of_bind h
    exact .inl ((phase_of_enter (ok_of_orHalt hu)).trans hz)
  | read r =>
    obtain ⟨_, u, hu, ⟨⟩⟩ := ok_of_bind h
    exact (rests_of_beginRead (ok_of_orHalt hu)).imp_right fun hw => ⟨rfl, hw⟩
  | save | restore =>
    cases h
    exact .inl hz
  | quit =>
    obtain ⟨_, _, _, h⟩ := ok_of_bind h
    obtain ⟨_, _, _, ⟨⟩⟩ := ok_of_bind h
  | restart =>
    obtain ⟨_, _, _, h⟩ := ok_of_bind h
    obtain ⟨_, _, _, h⟩ := ok_of_bind h
    obtain ⟨_, _, _, ⟨⟩⟩ := ok_of_bind h

/-- A step up to its request to the store goes on, or waits for a line that is not there. -/
theorem rests_of_advance {z w : Machine} {request : Option StoreRequest}
    (h : advance z = .ok request w) : w.phase = .running ∨ request = none ∧ w.Waits := by
  cases hp : z.phase with
  | terminated =>
    rw [advance_terminated hp] at h
    cases h
  | waiting r =>
    rw [advance_waiting hp] at h
    obtain ⟨_, u, hu, ⟨⟩⟩ := ok_of_bind (ok_of_located h)
    exact (rests_of_resumeRead hp (ok_of_orHalt hu)).imp_right fun hw => ⟨rfl, hw⟩
  | running =>
    cases hd : Instruction.decode z.story.script z.memory z.pc with
    | error fault =>
      rw [advance_of_undecoded hp hd] at h
      cases h
    | ok i =>
      cases he : execute i (z.fetched z.pc i) with
      | error fault u =>
        rw [advance_of_fault ⟨hp, hd⟩ he] at h
        cases h
      | ok action u =>
        rw [advance_of_execute ⟨hp, hd⟩ he] at h
        exact rests_of_apply ((kept_of_execute he).2.1.trans hp) (ok_of_located h)

theorem running_of_answerSave {i : Instruction} {answer : Except StoreFailure Unit} {z w : Machine}
    (hz : z.phase = .running) (h : answerSave i answer z = .ok () w) : w.phase = .running := by
  have hact := ok_of_located h
  cases answer with
  | ok => exact (phase_of_follow (ok_of_orHalt hact)).trans hz
  | error cause =>
    obtain ⟨_, u, ⟨⟩, hfollow⟩ := ok_of_bind hact
    exact (phase_of_follow (ok_of_orHalt hfollow)).trans hz

theorem phase_of_resumeAtSave {z w : Machine} (h : resumeAtSave z = .ok () w) :
    w.phase = z.phase := by
  obtain ⟨i, u, hlook, hrest⟩ := ok_of_bind h
  obtain ⟨-, rfl⟩ := eq_of_look hlook
  dsimp only at hrest
  split at hrest
  · obtain ⟨_, _, _, hthrow⟩ := ok_of_bind hrest
    cases hthrow
  · obtain ⟨_, _, ⟨⟩, hfollow⟩ := ok_of_bind hrest
    exact (phase_of_follow hfollow).trans rfl

theorem running_of_answerRestore {i : Instruction} {answer : Except StoreFailure (List Char)}
    {z w : Machine} (hz : z.phase = .running) (h : answerRestore i answer z = .ok () w) :
    w.phase = .running := by
  have hact := ok_of_located h
  rw [get_bind] at hact
  cases hr : restoreAnswer answer z with
  | ok y =>
    rw [hr] at hact
    obtain ⟨d, -, haccepts, rfl⟩ := restoreAnswer_ok hr
    obtain ⟨_, u, ⟨⟩, hresume⟩ := ok_of_bind hact
    refine (phase_of_resumeAtSave (ok_of_orHalt hresume)).trans ?_
    rw [restore_eq, show d.check z.story z.memory.size = .ok () from haccepts]
    rfl
  | error cause =>
    rw [hr] at hact
    obtain ⟨_, u, ⟨⟩, hfollow⟩ := ok_of_bind hact
    exact (phase_of_follow (ok_of_orHalt hfollow)).trans hz

/-- After a step the story goes on, or waits for a line that is not there. -/
theorem rests_of_step {answers : Answers} {z w : Machine} (h : step answers z = .ok () w) :
    w.phase = .running ∨ w.Waits := by
  obtain ⟨request, u, hadvance, hanswer⟩ := ok_of_bind h
  have hrests := rests_of_advance hadvance
  cases request with
  | none =>
    cases hanswer
    exact hrests.imp_right And.right
  | some request =>
    have hrunning : u.phase = .running := by simpa using hrests
    cases request with
    | save i => exact .inl (running_of_answerSave hrunning hanswer)
    | restore i => exact .inl (running_of_answerRestore hrunning hanswer)

end Machine

/-! ## Sessions -/

namespace Session

/-- The session with its machine changed. -/
def lift (f : Machine → Machine) (s : Session) : Session := { s with machine := f s.machine }

/-- The session with more lines behind those that wait to be read. -/
def feed (lines : List String) (s : Session) : Session := s.lift (Machine.feed lines)

/-- The session when the clock shows `now`. -/
def setClock (now : Int64) (s : Session) : Session := s.lift (Machine.setClock now)

theorem onMachine_lift {ε α : Type} {f : Machine → Machine} {act : EStateM ε Machine α} {s : Session}
    (h : act (f s.machine) = mapReached f (act s.machine)) :
    onMachine act (s.lift f) = mapReached (lift f) (onMachine act s) := by
  have hs : act (s.lift f).machine = act (f s.machine) := rfl
  unfold onMachine
  rw [hs, h]
  cases act s.machine <;> rfl

theorem saveToStore_lift (f : Machine → Machine) (data : String) :
    Commutes (lift f) (saveToStore data) := by
  rintro ⟨z, _ | cell⟩ <;> rfl

section
variable {lines : List String} {ρ : Random → Random}

/-- A step of a session does not show what a host does, if the step of its machine does not. -/
theorem step_hosted {s : Session}
    (h : Machine.advance ((Machine.Aside.hosted lines ρ).on s.machine) =
      mapReached (Machine.Aside.hosted lines ρ).on (Machine.advance s.machine)) :
    step (s.lift (Machine.Aside.hosted lines ρ).on) =
      mapReached (lift (Machine.Aside.hosted lines ρ).on) (step s) := by
  refine mapReached_bind (onMachine_lift h) fun request t _ => ?_
  cases request with
  | none => rfl
  | some request =>
    cases request with
    | save i =>
      exact mapReached_bind (x := saveToStore t.machine.snapshot.render)
        (saveToStore_lift _ _ t) fun answer u _ =>
          onMachine_lift (Machine.commutes_answerSave i answer u.machine)
    | restore i =>
      refine mapReached_bind (x := restoreFromStore) ?_ fun answer u _ =>
        onMachine_lift (Machine.commutes_answerRestore i answer u.machine)
      rw [restoreFromStore_eq, restoreFromStore_eq]
      rfl

end

/-- A step that asks nothing of the store is that of the machine. -/
theorem step_of_none {s : Session} {z : Machine} (h : Machine.advance s.machine = .ok none z) :
    step s = .ok () { s with machine := z } := by
  have hs : onMachine Machine.advance s = .ok none { s with machine := z } := by
    simp only [onMachine, h]
  unfold step
  rw [bind_ok hs]
  rfl

/-- **With more lines, a step does what it does without them; or it stops to wait, and with more
lines does what the next step does.** -/
theorem step_feed (lines : List String) (s : Session) :
    step (s.feed lines) = mapReached (feed lines) (step s) ∨
      ∃ t, step s = .ok () t ∧ t.machine.Waits ∧ step (s.feed lines) = step (t.feed lines) := by
  rcases Machine.advance_feed lines s.machine with h | ⟨z, hz, hwaits, h⟩
  · exact .inl (step_hosted (ρ := id) h)
  · refine .inr ⟨_, step_of_none hz, hwaits, bind_eq_bind ?_⟩
    simp only [onMachine, feed, lift, h]

/-- The clock does not matter to a step that leaves the generator predictable. -/
theorem step_setClock (now : Int64) {s : Session}
    (h : (reached (step s)).machine.random.predictable = true) :
    step (s.setClock now) = mapReached (setClock now) (step s) := by
  have hlift : setClock now = lift (Machine.Aside.hosted [] fun r => { r with entropy := now }).on := by
    funext t
    simp [setClock, lift, Machine.setClock, Machine.Aside.on, Machine.Aside.hosted]
  rw [hlift]
  refine step_hosted (Machine.advance_hosted (fun _ _ => rfl) fun i hi args u hargs hop => ?_)
  refine Machine.draws_of_ne_zero (fun hzero => ?_) now []
  obtain ⟨w, hw, hadvance | ⟨stop, hadvance⟩⟩ := Machine.advance_of_reseed hi hop hargs hzero
  · rw [step_of_none hadvance] at h
    exact absurd h (by simp [hw])
  · have hstep : step s = .error stop { s with machine := w } :=
      bind_error (by simp only [onMachine, hadvance])
    rw [hstep] at h
    exact absurd h (by simp [hw])

/-- **A run that comes to rest waits for a line that is not there.** -/
theorem waits_of_run {fuel : Nat} {s t : Session} (h : run fuel s = .ok true t) :
    t.machine.Waits := by
  induction fuel generalizing s with
  | zero => cases h
  | succ fuel ih =>
    obtain ⟨_, u, hstep, h⟩ := ok_of_bind h
    rw [get_bind] at h
    split at h
    · exact ih h
    · rename_i hphase
      cases h
      have hmachine := machine_step s
      rw [hstep] at hmachine
      exact (Machine.rests_of_step hmachine.symm).resolve_left hphase

/-- A run goes on after its first step, or ends with it. -/
theorem run_succ (s : Session) :
    (∀ fuel, run (fuel + 1) s = run fuel (reached (step s))) ∨
      ∀ fuel, reached (run (fuel + 1) s) = reached (step s) := by
  cases hstep : step s with
  | error stop t => exact .inr fun fuel => by rw [run, bind_error hstep]; rfl
  | ok _ t =>
    by_cases hphase : t.machine.phase = .running
    · exact .inl fun fuel => by rw [run, bind_ok hstep, get_bind, if_pos hphase]; rfl
    · exact .inr fun fuel => by rw [run, bind_ok hstep, get_bind, if_neg hphase]; rfl

theorem reached_run_succ (fuel : Nat) (s : Session) :
    reached (run (fuel + 1) s) = reached (run fuel s) ∨
      reached (run (fuel + 1) s) = reached (step (reached (run fuel s))) := by
  induction fuel generalizing s with
  | zero =>
    right
    rcases run_succ s with h | h
    · rw [h]
      rfl
    · exact h 0
  | succ fuel ih =>
    rcases run_succ s with h | h
    · rw [h, h]
      exact ih _
    · exact .inl ((h _).trans (h _).symm)

end Session

/-! ## Games -/

/-- A session, and the lines that its host has not yet handed over. -/
structure Game where
  session : Session
  coming : List String

namespace Game

/-- What can happen next in a game that never draws on the clock: the host hands over a line, or the
story takes a step, whatever the clock shows. -/
inductive Goes : Game → Game → Prop
  | push (s : Session) (line : String) (coming : List String) :
      Goes ⟨s, line :: coming⟩ ⟨s.lift (HostCall.push line).run, coming⟩
  | step (s : Session) (coming : List String) (now : Int64) :
      (reached (Session.step (s.setClock now))).machine.random.predictable = true →
      Goes ⟨s, coming⟩ ⟨reached (Session.step (s.setClock now)), coming⟩

/-- The ways to play: lines are handed over between any two steps. -/
abbrev Schedule : Game → Game → Prop := ReflTransGen Goes

/-- All lines are consumed and the story waits for another, or it has quit. -/
def Done (g : Game) : Prop :=
  g.session.machine.Waits ∧ g.coming = [] ∨ g.session.machine.phase = .terminated

/-- The session with all lines handed over at once, while the clock stands still. -/
def full (g : Game) : Session := (g.session.feed g.coming).setClock 0

/-- Handing over a line changes nothing of the game with all lines.  A step is one of that game, or
one that waits for a line which is there in that game. -/
theorem Goes.full {g g' : Game} (h : Goes g g') :
    g'.full = reached (Session.step g.full) ∨ Session.step g'.full = Session.step g.full := by
  cases h with
  | push s line coming =>
    right
    have hfull : Game.full ⟨s.lift (HostCall.push line).run, coming⟩ = Game.full ⟨s, line :: coming⟩ := by
      simp [Game.full, Session.feed, Session.setClock, Session.lift, HostCall.run, Machine.feed,
        LineInput.push]
    rw [hfull]
  | step s coming now h =>
    have hclock : Session.step (s.setClock 0) =
        mapReached (Session.setClock 0) (Session.step (s.setClock now)) :=
      Session.step_setClock 0 h
    have hreached : reached (Session.step (s.setClock 0)) =
        (reached (Session.step (s.setClock now))).setClock 0 := by
      rw [hclock, reached_mapReached]
    rcases Session.step_feed coming (s.setClock 0) with hfeed | ⟨t, ht, -, hfeed⟩
    · left
      show ((reached (Session.step (s.setClock now))).setClock 0).feed coming =
        reached (Session.step ((s.setClock 0).feed coming))
      rw [hfeed, reached_mapReached, hreached]
    · right
      show Session.step (((reached (Session.step (s.setClock now))).setClock 0).feed coming) =
        Session.step ((s.setClock 0).feed coming)
      rw [hfeed, ← hreached, ht]
      rfl

/-- The session after a step. -/
def next (s : Session) : Session := reached (Session.step s)

/-- **Every way to play follows the game with all lines**, or is at a wait that this game does not
have. -/
theorem follows {g g' : Game} (h : Schedule g g') :
    ∃ n, next^[n] g.full = g'.full ∨ Session.step (next^[n] g.full) = Session.step g'.full := by
  induction h with
  | refl => exact ⟨0, .inl rfl⟩
  | tail _ hgoes ih =>
    obtain ⟨n, hn⟩ := ih
    have hstep := hn.elim (congrArg Session.step) id
    rcases hgoes.full with hnext | hsame
    · refine ⟨n + 1, .inl ?_⟩
      rw [Function.iterate_succ_apply', next, hstep, hnext]
    -- The step waits for a line that is there in the game with all lines, which stays behind.
    · exact ⟨n, .inr (hstep.trans hsame.symm)⟩

/-- A game that is done does not go on. -/
theorem Done.next_full {g : Game} (h : g.Done) : next g.full = g.full := by
  rcases h with ⟨hwaits, hcoming⟩ | hphase
  · have hfull : g.full.machine.Waits := by
      obtain ⟨hr, hlines⟩ := hwaits
      exact ⟨hr, by simp [full, Session.feed, Session.setClock, Session.lift, Machine.feed,
        Machine.setClock, hlines, hcoming]⟩
    rw [next, Session.step_of_none (Machine.advance_of_waits hfull)]
    rfl
  · have hadvance : Machine.advance g.full.machine = .error .quit g.full.machine :=
      Machine.advance_terminated hphase
    have hstep : Session.step g.full = .error .quit g.full :=
      bind_error (by simp only [Session.onMachine, hadvance])
    rw [next, hstep]
    rfl

theorem Schedule.iterate {g g' : Game} (h : Schedule g g') (hd : g'.Done) :
    ∃ n, next^[n] g.full = g'.full := by
  obtain ⟨n, hn | hn⟩ := follows h
  · exact ⟨n, hn⟩
  · refine ⟨n + 1, ?_⟩
    rw [Function.iterate_succ_apply', next, hn]
    exact hd.next_full

/-- Two ways to play to the end lead to the same session, up to the clock. -/
theorem Schedule.full_eq {g a b : Game} (ha : Schedule g a) (hb : Schedule g b) (hda : a.Done)
    (hdb : b.Done) : a.full = b.full := by
  obtain ⟨n, hn⟩ := Schedule.iterate ha hda
  obtain ⟨m, hm⟩ := Schedule.iterate hb hdb
  -- Both ends are on the way of one game, and neither goes on.
  calc a.full = next^[m] a.full := (Function.iterate_fixed hda.next_full m).symm
    _ = next^[m] (next^[n] g.full) := by rw [hn]
    _ = next^[n] (next^[m] g.full) := Function.Commute.iterate_iterate_self next m n _
    _ = next^[n] b.full := by rw [hm]
    _ = b.full := Function.iterate_fixed hdb.next_full n

/-- A run is a way to play, if it leaves the generator predictable throughout. -/
theorem schedule_run {s : Session} (coming : List String) {fuel : Nat}
    (h : ∀ k ≤ fuel, (reached (Session.run k s)).machine.random.predictable = true) :
    Schedule ⟨s, coming⟩ ⟨reached (Session.run fuel s), coming⟩ := by
  induction fuel with
  | zero => exact .refl
  | succ fuel ih =>
    have hbefore := ih fun k hk => h k (by omega)
    have hafter := h (fuel + 1) (by omega)
    rcases Session.reached_run_succ fuel s with hsame | hstep
    · rwa [hsame]
    · rw [hstep] at hafter ⊢
      -- The clock goes on showing what it shows.
      exact hbefore.tail (.step _ coming (reached (Session.run fuel s)).machine.random.entropy hafter)

/-- **The result of a game does not depend on when its lines arrive.**  All ways to play that end
with every line consumed, or with the story's own end, end in the same state and have shown the same.
Runs are among these ways, and they come to rest only for want of a line. -/
theorem schedule_result {g a b : Game} (ha : Schedule g a) (hb : Schedule g b) (hda : a.Done)
    (hdb : b.Done) :
    (a.session.machine.memory = b.session.machine.memory ∧
      a.session.machine.calls = b.session.machine.calls ∧
      a.session.machine.pc = b.session.machine.pc ∧
      a.session.machine.phase = b.session.machine.phase ∧
      a.session.machine.streams = b.session.machine.streams ∧
      a.session.machine.output = b.session.machine.output) ∧
    (∀ (s : Session) (coming : List String) (fuel : Nat),
      (∀ k ≤ fuel, (reached (Session.run k s)).machine.random.predictable = true) →
      Schedule ⟨s, coming⟩ ⟨reached (Session.run fuel s), coming⟩) ∧
    ∀ (s t : Session) (fuel : Nat), Session.run fuel s = .ok true t → t.machine.Waits := by
  have hfull : a.full.machine = b.full.machine := by rw [Schedule.full_eq ha hb hda hdb]
  refine ⟨⟨?_, ?_, ?_, ?_, ?_, ?_⟩, fun s coming fuel h => schedule_run coming h,
    fun s t fuel h => Session.waits_of_run h⟩
  · exact congrArg (fun z => z.memory) hfull
  · exact congrArg (fun z => z.calls) hfull
  · exact congrArg (fun z => z.pc) hfull
  · exact congrArg (fun z => z.phase) hfull
  · exact congrArg (fun z => z.streams) hfull
  · exact congrArg (fun z => z.output) hfull

/-- An image whose story reads two lines. -/
def readingImage : Memory :=
  let header : List UInt8 := [3, 0, 0, 0, 0, 0, 0, 0x78, 0, 0x80, 0, 0x02, 0, 0x5D, 0, 0x78]
  let rest := (smallImage.bytes.toList.take 0x63).drop 16
  let buffers : List UInt8 := [3, 0, 0, 0, 0, 1] ++ .replicate 15 0
  let code : List UInt8 := [0xE4, 0x5F, 0x63, 0x68, 0xE4, 0x5F, 0x63, 0x68]
  let dictionary : List UInt8 := [0, 7, 0, 0]
  ⟨(header ++ rest ++ buffers ++ code ++ dictionary).toArray⟩

def readingStory : Story := .ofImage readingImage

/-- The one line is handed over before the first step, or after the story has begun to wait. -/
theorem schedule_result_small :
    let s : Session :=
      { machine := Machine.start readingStory ((Random.ofEntropy 1).enterPredictableMode 7) }
    let early := reached (Session.run 2 (s.lift (HostCall.push "A").run))
    let late := reached (Session.run 2 ((reached (Session.run 2 s)).lift (HostCall.push "A").run))
    (reached (Session.run 2 s)).machine.Waits ∧ early.machine.memory.get 0x64 = 97 ∧
      early.machine.memory = late.machine.memory ∧ early.machine.output = late.machine.output := by
  intro s early late
  have hrest (t : Session) (h : ∀ k < 3, (reached (Session.run k t)).machine.random.predictable = true)
      (coming : List String) : Schedule ⟨t, coming⟩ ⟨reached (Session.run 2 t), coming⟩ :=
    schedule_run coming fun k hk => h k (by omega)
  have ha : Schedule ⟨s, ["A"]⟩ ⟨early, []⟩ :=
    .head (.push s "A" []) (hrest _ (by decide +kernel) [])
  have hb : Schedule ⟨s, ["A"]⟩ ⟨late, []⟩ :=
    (hrest s (by decide +kernel) ["A"]).trans
      (.head (.push _ "A" []) (hrest _ (by decide +kernel) []))
  have hda : Done ⟨early, []⟩ :=
    .inl ⟨⟨⟨⟨0x63, 0x68, 0x80⟩, by decide +kernel⟩, by decide +kernel⟩, rfl⟩
  have hdb : Done ⟨late, []⟩ :=
    .inl ⟨⟨⟨⟨0x63, 0x68, 0x80⟩, by decide +kernel⟩, by decide +kernel⟩, rfl⟩
  have hwaits : (reached (Session.run 2 s)).machine.Waits :=
    ⟨⟨⟨0x63, 0x68, 0x7C⟩, by decide +kernel⟩, by decide +kernel⟩
  have hstored : early.machine.memory.get 0x64 = 97 := by decide +kernel
  clear_value early late
  obtain ⟨⟨hmemory, -, -, -, -, houtput⟩, -, -⟩ := schedule_result ha hb hda hdb
  exact ⟨hwaits, hstored, hmemory, houtput⟩

end Game

end ZCode
