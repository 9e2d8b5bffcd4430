/-
  A session: a machine with a store that keeps one snapshot in memory.
-/
import ZCode.Machine.Step

namespace ZCode

/-- A store that keeps the last snapshot it was given.  The host can set what it holds and make it
fail. -/
structure SaveCell where
  data : Option String := none
  saveError : Option String := none
  restoreError : Option String := none
  deriving DecidableEq, Repr, Inhabited

namespace SaveCell

/-- Keeps a snapshot. -/
def save (c : SaveCell) (data : String) : Except StoreFailure Unit × SaveCell :=
  match c.saveError with
  | some reason => (.error (.host reason), c)
  | none => (.ok (), { c with data := some data })

/-- Gives what was kept last, nothing at first. -/
def restore (c : SaveCell) : Except StoreFailure (List Char) :=
  match c.restoreError with
  | some reason => .error (.host reason)
  | none => .ok (c.data.getD "").toList

end SaveCell

structure Session where
  machine : Machine
  /-- Where snapshots go.  Without a store, saves and restores fail. -/
  store : Option SaveCell := none
  deriving Inhabited

namespace Session

/-- An action on the machine of a session. -/
def onMachine {ε α : Type} (act : EStateM ε Machine α) : EStateM ε Session α := fun s =>
  let store := s.store
  match act s.machine with
  | .ok a machine => .ok a { machine, store }
  | .error e machine => .error e { machine, store }

/-- What the store answers to a request for a save. -/
def saveToStore (data : String) : EStateM Stop Session (Except StoreFailure Unit) := do
  match (← get).store with
  | none => return .error .noStore
  | some cell =>
    let (answer, cell) := cell.save data
    modify fun s => { s with store := some cell }
    return answer

/-- What the store answers to a request for a restore. -/
def restoreFromStore : EStateM Stop Session (Except StoreFailure (List Char)) := do
  match (← get).store with
  | none => return .error .noStore
  | some cell => return cell.restore

/-- One step. -/
def step : EStateM Stop Session Unit := do
  match ← onMachine Machine.advance with
  | none => return ()
  | some (.save i) =>
    let answer ← saveToStore (← get).machine.snapshot.render
    onMachine (Machine.answerSave i answer)
  | some (.restore i) =>
    let answer ← restoreFromStore
    onMachine (Machine.answerRestore i answer)

/-- Steps until the story waits for a line or stops, at most `fuel` of them.  The result says whether
the story is at rest. -/
def run : Nat → EStateM Stop Session Bool
  | 0 => return false
  | fuel + 1 => do
    step
    if (← get).machine.phase = .running then run fuel else return true

end Session

end ZCode
