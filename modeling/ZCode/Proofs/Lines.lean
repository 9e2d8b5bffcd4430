/-
  The lines of input of a game.

  * `linesOf` cuts a text into lines.  `Console.Serves` says of a console that it hands out lines one
    after the other, and that nothing else it does touches them.
  * `Play.Use` is what a game makes of a line: it goes to the story, or it answers a prompt for a file
    name.
  * `Play.Turn` and `Play.Ending` are what a step of a game can do, with the lines that it uses
    (`Play.uses_step`).  `Play.run_lines` says it of whole games.
-/
import ZCode.Proofs.Buffers
import ZCode.Recording

namespace ZCode

variable {σ α β : Type}

/-! ## Lines -/

/-- The lines of a text, each with its line end.  The last one may lack it. -/
def linesOf : List Char → List (List Char)
  | [] => []
  | c :: text =>
    if c = '\n' then [c] :: linesOf text
    else match linesOf text with
      | [] => [[c]]
      | line :: lines => (c :: line) :: lines

/-- The outside hands out lines in their order, and nothing else that it does touches them. -/
structure Console.Serves (c : Console (StateM σ)) (lines : σ → List (List Char)) : Prop where
  next : ∀ s, (c.readLine s).1 = (lines s).head?
  rest : ∀ s, lines (c.readLine s).2 = (lines s).tail
  write : ∀ bytes s, lines (c.write bytes s).2 = lines s
  log : ∀ entry s, lines (c.log entry s).2 = lines s
  readFile : ∀ path s, lines (c.readFile path s).2 = lines s
  writeFile : ∀ path bytes s, lines (c.writeFile path bytes s).2 = lines s

/-- The machine when what it has produced has been shown and logged. -/
def Machine.drained (z : Machine) : Machine := { z with output := #[], log := #[] }

namespace Recording

theorem linesOf_splitLine {text : List Char} (h : text ≠ []) (seen : List Char) :
    ∃ line rest, splitLine seen text = (seen.reverse ++ line, rest) ∧
      linesOf text = line :: linesOf rest := by
  induction text generalizing seen with
  | nil => exact absurd rfl h
  | cons c text ih =>
    by_cases hc : c = '\n'
    · refine ⟨[c], text, ?_, ?_⟩
      · rw [splitLine, if_pos hc, List.reverse_cons]
      · rw [linesOf, if_pos hc]
    rw [splitLine, if_neg hc, linesOf, if_neg hc]
    by_cases htext : text = []
    · subst htext
      exact ⟨[c], [], by rw [splitLine, List.reverse_cons], rfl⟩
    · obtain ⟨line, rest, hsplit, hlines⟩ := ih htext (c :: seen)
      refine ⟨c :: line, rest, ?_, ?_⟩
      · rw [hsplit, List.reverse_cons, List.append_assoc]
        rfl
      · rw [hlines]

/-- A recording serves the lines of its input. -/
theorem serves : console.Serves fun r => linesOf r.input := by
  have hread (r : Recording) : (r.readLine).1 = (linesOf r.input).head? ∧
      linesOf r.readLine.2.input = (linesOf r.input).tail := by
    unfold readLine
    by_cases hinput : r.input = []
    · rw [if_pos (by rw [hinput]; rfl), hinput]
      exact ⟨rfl, rfl⟩
    · obtain ⟨line, rest, hsplit, hlines⟩ := linesOf_splitLine hinput []
      rw [if_neg (by simpa using hinput), hsplit, hlines]
      exact ⟨rfl, rfl⟩
  refine ⟨fun r => (hread r).1, fun r => (hread r).2, fun _ _ => rfl, fun _ _ => rfl,
    fun _ _ => rfl, fun path bytes r => ?_⟩
  show linesOf (r.writeFile path bytes).2.input = linesOf r.input
  unfold writeFile
  split <;> rfl

end Recording

namespace Play

/-! ## What a game makes of a line -/

/-- A line of input is handed to the story, or taken as a file name. -/
inductive Use where
  | story (text : String)
  | prompt (name : List Char)
  deriving DecidableEq, Repr

/-- The name in a line, without the white space around it. -/
def NameIn (line name : List Char) : Prop :=
  ∃ before after, line = before ++ name ++ after ∧ (∀ c ∈ before, isSpace c = true) ∧
    (∀ c ∈ after, isSpace c = true) ∧ (∀ c ∈ name.head?, isSpace c = false) ∧
    ∀ c ∈ name.getLast?, isSpace c = false

theorem nameIn_trimSpace (line : List Char) : NameIn line (trimSpace line) := by
  obtain ⟨after, hafter, hspace, hlast⟩ := exists_ending isSpace (line.dropWhile isSpace)
  refine ⟨line.takeWhile isSpace, after, ?_, fun c hc => List.mem_takeWhile_imp hc, hspace, ?_, hlast⟩
  · unfold trimSpace
    rw [List.append_assoc, ← hafter, List.takeWhile_append_dropWhile]
  · intro c hc
    have hhead : (line.dropWhile isSpace).head? = some c := by
      rw [hafter, List.head?_append]
      have : (trimSpace line).head? = some c := hc
      unfold trimSpace at this
      rw [this]
      rfl
    have hnot := List.head?_dropWhile_not isSpace line
    rwa [hhead] at hnot

/-- The use that is made of a line. -/
inductive Use.Of (line : List Char) : Use → Prop
  | story {text : List Char} : LineText line text → Of line (.story (String.ofList text))
  | prompt {name : List Char} : NameIn line name → Of line (.prompt name)

/-! ## Actions that leave the lines alone -/

/-- The action uses no line, and what it gives has the property. -/
def Quiet (lines : σ → List (List Char)) (act : StateM σ α) (post : α → Prop) : Prop :=
  ∀ s, lines (act s).2 = lines s ∧ post (act s).1

section
variable {lines : σ → List (List Char)} {post : α → Prop} {post' : β → Prop}

theorem Quiet.pure {a : α} (h : post a) : Quiet lines (pure a) post := fun _ => ⟨rfl, h⟩

theorem Quiet.bind {x : StateM σ α} {f : α → StateM σ β} (hx : Quiet lines x post)
    (hf : ∀ a, post a → Quiet lines (f a) post') : Quiet lines (x >>= f) post' := by
  intro s
  obtain ⟨hlines, hpost⟩ := hx s
  obtain ⟨hlines', hpost'⟩ := hf _ hpost (x s).2
  exact ⟨hlines'.trans hlines, hpost'⟩

theorem Quiet.seq {x : StateM σ α} {f : α → StateM σ β} (hx : ∀ s, lines (x s).2 = lines s)
    (hf : ∀ a, Quiet lines (f a) post') : Quiet lines (x >>= f) post' :=
  Quiet.bind (fun s => ⟨hx s, trivial⟩) fun a (_ : True) => hf a

end

section
variable {c : Console (StateM σ)} {lines : σ → List (List Char)} (hc : c.Serves lines) (p : Play)
include hc

theorem quiet_emit (call : OutputCall) :
    Quiet lines (p.emit c call) fun q => q.machine = p.machine := by
  unfold emit
  dsimp only
  split
  · exact .seq (hc.write _) fun _ => .pure rfl
  · exact .pure rfl

theorem quiet_emitAll (calls : List OutputCall) :
    Quiet lines (p.emitAll c calls) fun q => q.machine = p.machine := by
  induction calls generalizing p with
  | nil => exact .pure rfl
  | cons call calls ih =>
    refine (quiet_emit hc p call).bind fun q hq => ?_
    rw [← hq]
    exact ih q

theorem quiet_logAll (debug : Bool) (entries : List LogEntry) :
    Quiet lines (logAll c debug entries) fun _ => True := by
  induction entries with
  | nil => exact .pure trivial
  | cons e entries ih =>
    unfold logAll
    split
    · exact .seq (hc.log e) fun _ => ih
    · exact ih

/-- Showing and logging empties what the machine has produced. -/
theorem quiet_drain : Quiet lines (p.drain c) fun q => q.machine = p.machine.drained :=
  (quiet_logAll hc _ _).bind fun _ _ => quiet_emitAll hc _ _

theorem quiet_fail (reason : String) : Quiet lines (p.fail c reason) fun code => code = 1 :=
  (quiet_emit hc p .flush).bind fun _ _ => .seq (hc.log _) fun _ => .pure rfl

end

/-! ## Actions that use lines -/

/-- The action uses lines, the next ones first.  What it gives is related to the lines there were and
to the uses. -/
def Uses (lines : σ → List (List Char)) (act : StateM σ α)
    (post : List (List Char) → List Use → α → Prop) : Prop :=
  ∀ s, ∃ uses : List Use, lines (act s).2 = (lines s).drop uses.length ∧ post (lines s) uses (act s).1

section
variable {lines : σ → List (List Char)} {post : List (List Char) → List Use → α → Prop}

theorem Uses.pure {a : α} (h : ∀ ls, post ls [] a) : Uses lines (pure a) post :=
  fun s => ⟨[], rfl, h (lines s)⟩

theorem Uses.mono {act : StateM σ α} {post' : List (List Char) → List Use → α → Prop}
    (h : Uses lines act post) (himp : ∀ ls uses a, post ls uses a → post' ls uses a) :
    Uses lines act post' := by
  intro s
  obtain ⟨uses, hrest, hpost⟩ := h s
  exact ⟨uses, hrest, himp _ _ _ hpost⟩

theorem Quiet.uses {act : StateM σ α} {good : α → Prop} (h : Quiet lines act good)
    (hpost : ∀ ls a, good a → post ls [] a) : Uses lines act post := by
  intro s
  obtain ⟨hlines, hgood⟩ := h s
  exact ⟨[], hlines, hpost _ _ hgood⟩

theorem Quiet.bind_uses {x : StateM σ β} {f : β → StateM σ α} {good : β → Prop}
    (hx : Quiet lines x good) (hf : ∀ b, good b → Uses lines (f b) post) :
    Uses lines (x >>= f) post := by
  intro s
  obtain ⟨hlines, hgood⟩ := hx s
  obtain ⟨uses, hrest, hpost⟩ := hf _ hgood (x s).2
  rw [hlines] at hrest hpost
  exact ⟨uses, hrest, hpost⟩

theorem Uses.bind_quiet {x : StateM σ β} {f : β → StateM σ α}
    {mid : List (List Char) → List Use → β → Prop} (hx : Uses lines x mid)
    (hf : ∀ ls uses b, mid ls uses b → Quiet lines (f b) (post ls uses)) :
    Uses lines (x >>= f) post := by
  intro s
  obtain ⟨uses, hrest, hmid⟩ := hx s
  obtain ⟨hlines, hpost⟩ := hf _ _ _ hmid (x s).2
  exact ⟨uses, hlines.trans hrest, hpost⟩

theorem Uses.bind {x : StateM σ β} {f : β → StateM σ α}
    {mid : List (List Char) → List Use → β → Prop} (hx : Uses lines x mid)
    (hf : ∀ ls uses b, mid ls uses b → Uses lines (f b) fun ls' more a =>
      ls' = ls.drop uses.length → post ls (uses ++ more) a) : Uses lines (x >>= f) post := by
  intro s
  obtain ⟨uses, hrest, hmid⟩ := hx s
  obtain ⟨more, hrest', hpost⟩ := hf _ _ _ hmid (x s).2
  refine ⟨uses ++ more, ?_, hpost hrest⟩
  rw [List.length_append, ← List.drop_drop, ← hrest]
  exact hrest'

/-- A line is read, if there is one. -/
theorem uses_readLine {c : Console (StateM σ)} (hc : c.Serves lines)
    {f : Option (List Char) → StateM σ α}
    (hnone : Quiet lines (f none) (post [] []))
    (hsome : ∀ line rest, ∃ use, Quiet lines (f (some line)) (post (line :: rest) [use])) :
    Uses lines (c.readLine >>= f) post := by
  intro s
  have hbind : (c.readLine >>= f) s = f (lines s).head? (c.readLine s).2 := by
    rw [← hc.next]
    rfl
  have hrest := hc.rest s
  rw [hbind]
  cases hs : lines s with
  | nil =>
    rw [hs] at hrest
    obtain ⟨hlines, hpost⟩ := hnone (c.readLine s).2
    exact ⟨[], hlines.trans hrest, hpost⟩
  | cons line rest =>
    rw [hs] at hrest
    obtain ⟨use, hquiet⟩ := hsome line rest
    obtain ⟨hlines, hpost⟩ := hquiet (c.readLine s).2
    exact ⟨[use], hlines.trans hrest, hpost⟩

end

/-! ## Prompts -/

/-- What a prompt for a file name takes of the lines, and what it gives. -/
inductive Asked : List (List Char) → List Use → Except StoreFailure String → Prop
  | named {line name : List Char} {rest : List (List Char)} : NameIn line name → name ≠ [] →
      Asked (line :: rest) [.prompt name] (.ok (String.ofList name))
  | blank {line : List Char} {rest : List (List Char)} : NameIn line [] →
      Asked (line :: rest) [.prompt []] (.error (.host "no file name given"))
  | exhausted : Asked [] [] (.error (.host "EOF"))

/-- What a store in a file answers to a save, for the name that was asked for. -/
def Saved (c : Console (StateM σ)) (data : String) :
    Except StoreFailure String → Except StoreFailure Unit → Prop
  | .error cause, answer => answer = .error cause
  | .ok name, answer => ∃ s, answer =
      (c.writeFile name (Utf8.encode data.toList) s).1.mapError fun e => .host e.message

/-- What it answers to a restore. -/
def Fetched (c : Console (StateM σ)) :
    Except StoreFailure String → Except StoreFailure (List Char) → Prop
  | .error cause, answer => answer = .error cause
  | .ok name, answer => ∃ s, answer =
      ((c.readFile name s).1.map Utf8.decode).mapError fun e => .host e.message

section
variable {c : Console (StateM σ)} {lines : σ → List (List Char)} (hc : c.Serves lines) (p : Play)
include hc

theorem uses_askFileName : Uses lines (p.askFileName c) fun ls uses r =>
    r.1.machine = p.machine ∧ Asked ls uses r.2 := by
  refine (quiet_emitAll hc p _).bind_uses fun q hq => uses_readLine hc (.pure ⟨hq, .exhausted⟩) ?_
  intro line rest
  refine ⟨.prompt (trimSpace line), ?_⟩
  have hname := nameIn_trimSpace line
  dsimp only
  split
  · rename_i hblank
    rw [hblank] at hname ⊢
    exact .pure ⟨hq, .blank hname⟩
  · rename_i hne
    exact .pure ⟨hq, .named hname hne⟩

theorem uses_saveToFile (data : String) : Uses lines (p.saveToFile c data) fun ls uses r =>
    r.1.machine = p.machine ∧ ∃ name, Asked ls uses name ∧ Saved c data name r.2 := by
  refine (uses_askFileName hc p).bind_quiet fun ls uses ⟨q, name⟩ ⟨hq, hname⟩ => ?_
  cases name with
  | error cause => exact .pure ⟨hq, _, hname, rfl⟩
  | ok name =>
    have hwrite : Quiet lines (c.writeFile name (Utf8.encode data.toList)) fun r =>
        ∃ s, r = (c.writeFile name (Utf8.encode data.toList) s).1 :=
      fun s => ⟨hc.writeFile _ _ s, s, rfl⟩
    refine hwrite.bind fun r ⟨s, hr⟩ => ?_
    cases r with
    | ok | error => exact .pure ⟨hq, _, hname, s, by rw [← hr]; rfl⟩

theorem uses_restoreFromFile : Uses lines (p.restoreFromFile c) fun ls uses r =>
    r.1.machine = p.machine ∧ ∃ name, Asked ls uses name ∧ Fetched c name r.2 := by
  refine (uses_askFileName hc p).bind_quiet fun ls uses ⟨q, name⟩ ⟨hq, hname⟩ => ?_
  cases name with
  | error cause => exact .pure ⟨hq, _, hname, rfl⟩
  | ok name =>
    have hread : Quiet lines (c.readFile name) fun r => ∃ s, r = (c.readFile name s).1 :=
      fun s => ⟨hc.readFile _ s, s, rfl⟩
    refine hread.bind fun r ⟨s, hr⟩ => ?_
    cases r with
    | ok | error => exact .pure ⟨hq, _, hname, s, by rw [← hr]; rfl⟩

end

/-! ## Steps -/

/-- The outcome without its state. -/
def outcome {ε : Type} : EStateM.Result ε σ α → Except ε α
  | .ok a _ => .ok a
  | .error e _ => .error e

theorem ok_of_outcome {ε : Type} {r : EStateM.Result ε σ α} {a : α} (h : .ok a = outcome r) :
    ∃ s, r = .ok a s := by
  cases r with
  | ok b s =>
    cases h
    exact ⟨s, rfl⟩
  | error e s => cases h

/-- What a step of the machine, with the save or restore it may ask for, takes of the lines, and what
it leads to. -/
inductive Advanced (c : Console (StateM σ)) (lines : List (List Char)) (z : Machine) :
    List Use → Except Stop Unit → Machine → Prop
  | alone {w : Machine} : Machine.advance z = .ok none w → Advanced c lines z [] (.ok ()) w.drained
  | stopped {stop : Stop} {w : Machine} : Machine.advance z = .error stop w →
      Advanced c lines z [] (.error stop) w.drained
  | saved {w : Machine} {i : Instruction} {uses : List Use} {name : Except StoreFailure String}
      {answer : Except StoreFailure Unit} : Machine.advance z = .ok (some (.save i)) w →
      Asked lines uses name → Saved c w.drained.snapshot.render name answer →
      Advanced c lines z uses (outcome (Machine.answerSave i answer w.drained))
        (reached (Machine.answerSave i answer w.drained)).drained
  | restored {w : Machine} {i : Instruction} {uses : List Use} {name : Except StoreFailure String}
      {answer : Except StoreFailure (List Char)} : Machine.advance z = .ok (some (.restore i)) w →
      Asked lines uses name → Fetched c name answer →
      Advanced c lines z uses (outcome (Machine.answerRestore i answer w.drained))
        (reached (Machine.answerRestore i answer w.drained)).drained

theorem onMachine_eq (p : Play) (act : EStateM Stop Machine α) :
    p.onMachine act = (outcome (act p.machine), { p with machine := reached (act p.machine) }) := by
  unfold onMachine
  cases act p.machine <;> rfl

theorem uses_advance {c : Console (StateM σ)} {lines : σ → List (List Char)} (hc : c.Serves lines)
    (p : Play) : Uses lines (p.advance c) fun ls uses r =>
      Advanced c ls p.machine uses r.1 r.2.machine := by
  unfold advance
  rw [onMachine_eq]
  refine (quiet_drain hc _).bind_uses fun q hq => ?_
  cases hadvance : Machine.advance p.machine with
  | error stop w =>
    rw [hadvance] at hq
    refine .pure fun ls => ?_
    rw [hq]
    exact .stopped hadvance
  | ok request w =>
    rw [hadvance] at hq
    have hmachine : q.machine = w.drained := hq
    cases request with
    | none =>
      refine .pure fun ls => ?_
      rw [hmachine]
      exact .alone hadvance
    | some request =>
      cases request with
      | save i =>
        refine (uses_saveToFile hc q _).bind_quiet
          fun ls uses ⟨q', answer⟩ ⟨hq', name, hname, hsaved⟩ => ?_
        dsimp only at hq' hsaved ⊢
        rw [onMachine_eq, hq', hmachine]
        rw [hmachine] at hsaved
        refine (quiet_drain hc _).bind fun u hu => .pure ?_
        rw [hu]
        exact .saved hadvance hname hsaved
      | restore i =>
        refine (uses_restoreFromFile hc q).bind_quiet
          fun ls uses ⟨q', answer⟩ ⟨hq', name, hname, hfetched⟩ => ?_
        dsimp only at hq' hfetched ⊢
        rw [onMachine_eq, hq', hmachine]
        refine (quiet_drain hc _).bind fun u hu => .pure ?_
        rw [hu]
        exact .restored hadvance hname hfetched

/-- A step that goes on leaves a machine that runs, or one that waits and for which no line is there. -/
theorem Advanced.rests {c : Console (StateM σ)} {ls : List (List Char)} {z w : Machine}
    {uses : List Use} (h : Advanced c ls z uses (.ok ()) w) :
    w.phase = .running ∨ uses = [] ∧ w.Waits := by
  generalize ho : (.ok () : Except Stop Unit) = o at h
  cases h with
  | alone hadvance => exact (Machine.rests_of_advance hadvance).imp_right fun h => ⟨rfl, h.2⟩
  | stopped => cases ho
  | @saved u i _ _ answer hadvance =>
    have hrunning := (Machine.rests_of_advance hadvance).resolve_right nofun
    obtain ⟨w, hanswer⟩ := ok_of_outcome ho
    have hw : w.phase = .running := Machine.running_of_answerSave (z := u.drained) hrunning hanswer
    rw [hanswer]
    exact .inl hw
  | @restored u i _ _ answer hadvance =>
    have hrunning := (Machine.rests_of_advance hadvance).resolve_right nofun
    obtain ⟨w, hanswer⟩ := ok_of_outcome ho
    have hw : w.phase = .running := Machine.running_of_answerRestore (z := u.drained) hrunning hanswer
    rw [hanswer]
    exact .inl hw

/-- A step of a game that goes on.  The lines are those that are left before it. -/
inductive Turn (c : Console (StateM σ)) (lines : List (List Char)) (z : Machine) :
    List Use → Machine → Prop
  | runs {uses : List Use} {w : Machine} : Advanced c lines z uses (.ok ()) w →
      w.phase = .running → Turn c lines z uses w
  | reads {line text : List Char} {rest : List (List Char)} {w : Machine} : lines = line :: rest →
      Advanced c lines z [] (.ok ()) w → w.Waits → LineText line text →
      Turn c lines z [.story (String.ofList text)]
        { w with input := w.input.push (String.ofList text) }
  | restarts {uses : List Use} {w : Machine} {statusLine : Bool} {memory : Memory} :
      Advanced c lines z uses (.error .restart) w →
      Memory.advertise statusLine w.memory = .ok () memory → Turn c lines z uses { w with memory }

/-- A step that ends the game: the story quits, there is a fault, or the story waits for a line and
none is left. -/
inductive Ending (c : Console (StateM σ)) (lines : List (List Char)) (z : Machine) :
    List Use → ExitCode → Prop
  | quit {uses : List Use} {w : Machine} : Advanced c lines z uses (.error .quit) w →
      Ending c lines z uses 0
  | fault {uses : List Use} {w : Machine} {pc : Address} {instruction : String} {cause : Fault} :
      Advanced c lines z uses (.error (.fault pc instruction cause)) w → Ending c lines z uses 1
  | starved {w : Machine} : lines = [] → Advanced c lines z [] (.ok ()) w → w.Waits →
      Ending c lines z [] 0

/-- A game of some steps, which has ended with an exit code or not. -/
inductive Played (c : Console (StateM σ)) :
    List (List Char) → Machine → List Use → Option ExitCode → Prop
  | unfinished {lines : List (List Char)} {z : Machine} : Played c lines z [] none
  | ended {lines : List (List Char)} {z : Machine} {uses : List Use} {code : ExitCode} :
      Ending c lines z uses code → Played c lines z uses (some code)
  | turn {lines : List (List Char)} {z w : Machine} {uses more : List Use}
      {result : Option ExitCode} : Turn c lines z uses w →
      Played c (lines.drop uses.length) w more result → Played c lines z (uses ++ more) result

/-! ## Bounds -/

section
variable {c : Console (StateM σ)} {ls : List (List Char)} {z w : Machine} {uses : List Use}

theorem changes_drained {D : Snapshot → Prop} (z : Machine) : Machine.Changes D z z.drained :=
  .single (.move (.book z ..))

theorem Advanced.changes {o : Except Stop Unit} (h : Advanced c ls z uses o w) :
    Machine.Changes (fun _ => True) z w := by
  have hadvance := Machine.within_advance (D := fun _ => True) z
  cases h with
  | alone h | stopped h =>
    rw [h] at hadvance
    exact hadvance.trans (changes_drained _)
  | @saved u i _ _ answer h =>
    rw [h] at hadvance
    exact ((hadvance.trans (changes_drained u)).trans
      (Machine.within_answerSave i answer _)).trans (changes_drained _)
  | @restored u i _ _ answer h =>
    rw [h] at hadvance
    exact ((hadvance.trans (changes_drained u)).trans
      (Machine.changes_answerRestore i fun _ _ _ => trivial)).trans (changes_drained _)

theorem Advanced.bounded {story : Story} {o : Except Stop Unit} (h : Advanced c ls z uses o w)
    (hz : z.Bounded story) : w.Bounded story :=
  h.changes.keep (fun _ _ => .change) hz

/-- A memory with a header can be told what the terminal can do. -/
theorem advertise_ok {m : Memory} (h : 1 < m.size) (statusLine : Bool) :
    ∃ m', Memory.advertise statusLine m = .ok () m' := by
  unfold Memory.advertise Memory.setStatusLineAvailable Memory.setScreenSplitAvailable
    Memory.setVariablePitchDefault
  have hset {i : Nat} (hi : i ≤ 7) (on : Bool) {m : Memory} (h : 1 < m.size) :
      ∃ m', Memory.setFlag 0x01 i on m = .ok () m' ∧ 1 < m'.size :=
    ⟨_, (Memory.setFlag_eq hi on m).trans (if_pos h), by rwa [Memory.size_put]⟩
  obtain ⟨m₁, h₁, hsize₁⟩ := hset (i := 4) (by decide) (!statusLine) h
  obtain ⟨m₂, h₂, hsize₂⟩ := hset (i := 5) (by decide) false hsize₁
  obtain ⟨m₃, h₃, -⟩ := hset (i := 6) (by decide) false hsize₂
  exact ⟨m₃, by rw [bind_ok h₁, bind_ok h₂, h₃]⟩

theorem size_of_advertise {m m' : Memory} {statusLine : Bool}
    (h : Memory.advertise statusLine m = .ok () m') : m'.size = m.size := by
  have hset {i : Nat} (hi : i ≤ 7) {on : Bool} {m m' : Memory}
      (h : Memory.setFlag 0x01 i on m = .ok () m') : m'.size = m.size := by
    rw [Memory.setFlag_eq hi] at h
    split at h
    · cases h
      exact Memory.size_put ..
    · cases h
  obtain ⟨_, m₁, h₁, h⟩ := ok_of_bind h
  obtain ⟨_, m₂, h₂, h₃⟩ := ok_of_bind h
  rw [hset (by decide) h₃, hset (by decide) h₂, hset (by decide) h₁]

theorem Turn.bounded {story : Story} (h : Turn c ls z uses w) (hz : z.Bounded story) :
    w.Bounded story := by
  cases h with
  | runs hadvanced => exact hadvanced.bounded hz
  | reads _ hadvanced =>
    obtain ⟨hruns, hsize, hcalls, htables⟩ := hadvanced.bounded hz
    exact ⟨hruns, hsize, hcalls, htables⟩
  | restarts hadvanced hadvertise =>
    obtain ⟨hruns, hsize, hcalls, htables⟩ := hadvanced.bounded hz
    exact ⟨hruns, (size_of_advertise hadvertise).trans hsize, hcalls, htables⟩

end

/-! ## Whole steps -/

/-- What is done with a line for the story, if there is one. -/
inductive Fed (z : Machine) : List (List Char) → List Use → Except ExitCode Play → Prop
  | line {line text : List Char} {rest : List (List Char)} {q : Play} : LineText line text →
      q.machine = { z with input := z.input.push (String.ofList text) } →
      Fed z (line :: rest) [.story (String.ofList text)] (.ok q)
  | exhausted : Fed z [] [] (.error 0)

section
variable {c : Console (StateM σ)} {lines : σ → List (List Char)} (hc : c.Serves lines) (p : Play)
include hc

theorem uses_feedLine : Uses lines (p.feedLine c) (Fed p.machine) := by
  refine (quiet_emit hc p .flush).bind_uses fun q hq => uses_readLine hc ?_ ?_
  · exact (quiet_emitAll hc q _).bind fun _ _ => .pure .exhausted
  · intro line rest
    refine ⟨_, .pure (.line (lineText_trimLineEnd line) ?_)⟩
    rw [hq]

/-- A restart goes on. -/
theorem quiet_afterRestart (hsize : 1 < p.machine.memory.size) :
    Quiet lines (p.afterRestart c) fun r => ∃ q statusLine memory, r = .ok q ∧
      Memory.advertise statusLine p.machine.memory = .ok () memory ∧
      q.machine = { p.machine with memory } := by
  obtain ⟨memory, hmemory⟩ := advertise_ok hsize p.terminal.statusLine
  have hadvertise : p.advertise = .ok { p with machine := { p.machine with memory } } := by
    unfold advertise
    rw [hmemory]
  unfold afterRestart
  rw [hadvertise]
  exact (quiet_logAll hc _ _).bind fun _ _ => .pure ⟨_, _, memory, rfl, hmemory, rfl⟩

/-- **A step of a game is a turn, or ends it.** -/
theorem uses_step {story : Story} (hsize : 1 < story.image.size) (hp : p.machine.Bounded story) :
    Uses lines (p.step c) fun ls uses r =>
      match r with
      | .ok q => Turn c ls p.machine uses q.machine
      | .error code => Ending c ls p.machine uses code := by
  refine (uses_advance hc p).bind fun ls uses ⟨o, q⟩ hadvanced => ?_
  dsimp only at hadvanced ⊢
  have hq := hadvanced.bounded hp
  cases o with
  | ok _ =>
    dsimp only
    split
    · rename_i hrunning
      refine .pure fun _ _ => ?_
      rw [List.append_nil]
      exact .runs hadvanced hrunning
    · rename_i hrunning
      obtain ⟨rfl, hwaits⟩ := hadvanced.rests.resolve_left hrunning
      refine (uses_feedLine hc q).mono fun ls' more r hfed hls => ?_
      subst hls
      cases hfed with
      | line htext hmachine =>
        dsimp only
        rw [hmachine]
        exact .reads rfl hadvanced hwaits htext
      | exhausted => exact .starved rfl hadvanced hwaits
  | error stop =>
    cases stop with
    | quit =>
      refine ((quiet_emit hc q .flush).bind fun _ _ => .pure rfl).uses fun _ r hr _ => ?_
      rw [← hr, List.append_nil]
      exact .quit hadvanced
    | restart =>
      refine (quiet_afterRestart hc q (by rwa [hq.size])).uses fun _ r hr _ => ?_
      obtain ⟨q', statusLine, memory, rfl, hadvertise, hmachine⟩ := hr
      dsimp only
      rw [List.append_nil, hmachine]
      exact .restarts hadvanced hadvertise
    | fault pc instruction cause =>
      have hfail (reason : String) : Quiet lines (do return .error (← q.fail c reason))
          fun r : Except ExitCode Play => r = .error 1 :=
        (quiet_fail hc q reason).bind fun code hcode => .pure (congrArg _ hcode)
      refine (hfail _).uses fun _ r hr _ => ?_
      rw [hr, List.append_nil]
      exact .fault hadvanced

/-- **A game is made of turns, up to its end.** -/
theorem uses_run {story : Story} (hsize : 1 < story.image.size) (hp : p.machine.Bounded story)
    (fuel : Nat) : Uses lines (p.run c fuel) fun ls uses result =>
      Played c ls p.machine uses result := by
  induction fuel generalizing p with
  | zero => exact .pure fun _ => .unfinished
  | succ fuel ih =>
    refine (uses_step hc p hsize hp).bind fun ls uses r hr => ?_
    cases r with
    | error code =>
      refine .pure fun _ _ => ?_
      rw [List.append_nil]
      exact .ended hr
    | ok q =>
      refine (ih q (hr.bounded hp)).mono fun ls' more result hplayed hls => ?_
      rw [hls] at hplayed
      exact .turn hr hplayed

/-- The machine for an image is within the bounds of its story. -/
theorem quiet_load (o : Options) (entropy : Int64) (image : Memory) :
    Quiet lines (load c o entropy image) fun r => ∀ z, r = .ok z →
      ∃ story : Story, 1 < story.image.size ∧ z.Bounded story := by
  unfold load
  cases hload : Story.load image with
  | error fault =>
    dsimp only
    split
    · exact (quiet_logAll hc _ _).bind fun _ _ => .pure (by rintro _ ⟨⟩)
    · exact .pure (by rintro _ ⟨⟩)
  | ok story =>
    have hstory (random : Random) : ∀ z,
        (.ok { Machine.start story random with tracing := o.debug } : Except Fault Machine) = .ok z →
        ∃ story : Story, 1 < story.image.size ∧ z.Bounded story := by
      rintro _ ⟨⟩
      obtain ⟨himage, hread, -⟩ := Story.load_ok hload
      refine ⟨story, ?_, (Machine.Reachable.start random o.debug).bounded⟩
      rw [himage]
      exact Nat.lt_of_lt_of_le (by decide) (Header.read_ok hread).1
    dsimp only
    split
    · exact (quiet_logAll hc _ _).bind fun _ _ => (quiet_logAll hc _ _).bind fun _ _ =>
        .pure (hstory _)
    · exact (quiet_logAll hc _ _).bind fun _ _ => .pure (hstory _)

/-- A game starts within the bounds of its story, and with all lines left. -/
theorem quiet_start (o : Options) (interactive : Bool) (entropy : Int64) :
    Quiet lines (start c o interactive entropy) fun r => ∀ p, r = .ok p →
      ∃ story : Story, 1 < story.image.size ∧ p.machine.Bounded story := by
  have hfatal (reason : String) : Quiet lines (do c.log (.fatal reason); return .error 1)
      fun r : Except ExitCode Play => ∀ p, r = .ok p →
        ∃ story : Story, 1 < story.image.size ∧ p.machine.Bounded story :=
    .seq (hc.log _) fun _ => .pure (by rintro _ ⟨⟩)
  refine .seq (hc.readFile o.story) fun file => ?_
  cases file with
  | error e => exact hfatal _
  | ok bytes =>
    refine (quiet_load hc o entropy _).bind fun r hr => ?_
    cases r with
    | error fault => exact hfatal _
    | ok z =>
      obtain ⟨story, hsize, hbounded⟩ := hr z rfl
      obtain ⟨hruns, hmemory, hcalls, htables⟩ := hbounded
      obtain ⟨memory, hadvertise⟩ := advertise_ok (by rwa [hmemory]) interactive
      have hp (width : Int) :
          advertise { machine := z, terminal := { width, statusLine := interactive } } =
            .ok { machine := { z with memory }, terminal := { width, statusLine := interactive } } := by
        unfold advertise
        rw [hadvertise]
      dsimp only
      rw [hp]
      refine .pure ?_
      rintro _ ⟨⟩
      exact ⟨story, hsize, hruns, (size_of_advertise hadvertise).trans hmemory, hcalls, htables⟩

end

/-! ## The lines of a game -/

section
variable {c : Console (StateM σ)} {ls : List (List Char)} {z w : Machine} {uses : List Use}

theorem Asked.each {name : Except StoreFailure String} (h : Asked ls uses name) :
    List.Forall₂ Use.Of (ls.take uses.length) uses := by
  cases h with
  | named hname => exact .cons (.prompt hname) .nil
  | blank hname => exact .cons (.prompt hname) .nil
  | exhausted => exact .nil

theorem Advanced.each {o : Except Stop Unit} (h : Advanced c ls z uses o w) :
    List.Forall₂ Use.Of (ls.take uses.length) uses := by
  cases h with
  | alone => exact .nil
  | stopped => exact .nil
  | saved _ hasked => exact hasked.each
  | restored _ hasked => exact hasked.each

theorem Turn.each (h : Turn c ls z uses w) : List.Forall₂ Use.Of (ls.take uses.length) uses := by
  cases h with
  | runs hadvanced => exact hadvanced.each
  | reads hls _ _ htext =>
    subst hls
    exact .cons (.story htext) .nil
  | restarts hadvanced => exact hadvanced.each

theorem Ending.each {code : ExitCode} (h : Ending c ls z uses code) :
    List.Forall₂ Use.Of (ls.take uses.length) uses := by
  cases h with
  | quit hadvanced => exact hadvanced.each
  | fault hadvanced => exact hadvanced.each
  | starved => exact .nil

/-- The lines are used in their order, each of them once. -/
theorem Played.each {result : Option ExitCode} (h : Played c ls z uses result) :
    List.Forall₂ Use.Of (ls.take uses.length) uses := by
  induction h with
  | unfinished => exact .nil
  | ended hending => exact hending.each
  | turn hturn _ ih =>
    rw [List.length_append, List.take_add]
    exact List.rel_append hturn.each ih

end

/-- **A game hands out its input line by line, to the story and to prompts.**  The outside serves the
lines of its input.  Whatever the story does, and after any number of steps, what was handed to the
story and what was taken as a file name, in this order, are the first lines of the input, each of them
once: the story gets them without their line ends, and a prompt without the white space around.  All
other lines are left.  A game ends only when the story quits, when there is a fault, or when the story
waits for a line and none is left. -/
theorem run_lines {c : Console (StateM σ)} {input : σ → List Char}
    (hc : c.Serves fun s => linesOf (input s)) {o : Options} {interactive : Bool} {entropy : Int64}
    {s s' : σ} {p : Play} (hstart : start c o interactive entropy s = (.ok p, s')) (fuel : Nat) :
    ∃ uses, Played c (linesOf (input s)) p.machine uses (p.run c fuel s').1 ∧
      List.Forall₂ Use.Of ((linesOf (input s)).take uses.length) uses ∧
      linesOf (input (p.run c fuel s').2) = (linesOf (input s)).drop uses.length := by
  obtain ⟨hlines, hbounded⟩ := quiet_start hc o interactive entropy s
  rw [hstart] at hlines hbounded
  obtain ⟨story, hsize, hp⟩ := hbounded p rfl
  obtain ⟨uses, hrest, hplayed⟩ := uses_run hc p hsize hp fuel s'
  dsimp only at hlines hrest hplayed
  rw [hlines] at hrest hplayed
  exact ⟨uses, hplayed, hplayed.each, hrest⟩

/-- An image whose story reads a line, restores and quits. -/
def askingImage : Memory :=
  let code : List UInt8 := [0xB6, 0xC2, 0xBA, 0]
  let dictionary : List UInt8 := [0, 7, 0, 0]
  ⟨(Game.readingImage.bytes.toList.take 0x7C ++ code ++ dictionary).toArray⟩

/-- The story gets the first of three lines, the prompt for a file name the second, and the last one
is left. -/
theorem run_lines_asking :
    let c := Recording.console
    let o : Options := { story := "story" }
    let r : Recording :=
      { input := "look\r\n game \nrest".toList, files := [("story", askingImage.bytes.toList)] }
    ∃ p r', start c o false 1 r = (.ok p, r') ∧ ∃ uses,
      Played c (linesOf r.input) p.machine uses (some 0) ∧ uses.length = 2 ∧
      List.Forall₂ Use.Of ((linesOf r.input).take 2) uses := by
  intro c o r
  let result := match start c o false 1 r with
    | (.ok p, r') => p.run c 8 r'
    | (.error code, r') => (some code, r')
  have hresult : result.1 = some 0 ∧ (linesOf result.2.input).length = 1 := by decide +kernel
  have hok : (start c o false 1 r).1.toBool = true := by decide +kernel
  obtain ⟨started, r', hstart⟩ : ∃ a b, start c o false 1 r = (a, b) := ⟨_, _, rfl⟩
  cases started with
  | error code =>
    rw [hstart] at hok
    cases hok
  | ok p =>
    obtain ⟨uses, hplayed, heach, hrest⟩ := run_lines Recording.serves hstart 8
    have hp : result = p.run c 8 r' := by simp only [result, hstart]
    rw [hp, hrest, List.length_drop] at hresult
    have hthree : (linesOf r.input).length = 3 := by decide +kernel
    have htwo : uses.length = 2 := by omega
    rw [hresult.1] at hplayed
    rw [htwo] at heach
    exact ⟨p, r', hstart, uses, hplayed, htwo, heach⟩

end Play

end ZCode
