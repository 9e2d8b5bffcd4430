/-
  The log of a session.
-/
import ZCode.Fault

namespace ZCode

inductive LogLevel where
  | debug
  | info
  | warning
  | fatal
  deriving DecidableEq, Repr, Inhabited

def LogLevel.label : LogLevel → String
  | .debug => "debug"
  | .info => "info"
  | .warning => "warning"
  | .fatal => "fatal"

/-- Why a store gave or took no snapshot. -/
inductive StoreFailure where
  /-- There is no store. -/
  | noStore
  /-- The store's own reason. -/
  | host (reason : String)
  /-- What the store gave is no snapshot of this story. -/
  | rejected (fault : Fault)
  deriving DecidableEq, Repr

def StoreFailure.message : StoreFailure → String
  | .noStore => "no save store configured"
  | .host reason => reason
  | .rejected fault => fault.message

inductive LogEntry where
  /-- A header was read. -/
  | header (staticBase highBase pc : Address)
  /-- A story was loaded. -/
  | loaded
  /-- An instruction was decoded. -/
  | trace (pc : Address) (instruction : String)
  /-- An opcode for screens and sounds was passed over. -/
  | ignored (name : String) (args : List Int)
  /-- A stream was selected that nothing listens to. -/
  | notRecorded (stream : Int)
  | noSaveStore
  | saveFailed (cause : StoreFailure)
  | restoreFailed (cause : StoreFailure)
  | restarted
  | fatal (reason : String)
  deriving DecidableEq, Repr

namespace LogEntry

def level : LogEntry → LogLevel
  | header .. | loaded | trace .. => .debug
  | ignored .. | notRecorded _ | noSaveStore | saveFailed _ | restoreFailed _ => .warning
  | restarted => .info
  | fatal _ => .fatal

def message : LogEntry → String
  | header staticBase highBase pc =>
    s!"header: static {staticBase.hex}, himem {highBase.hex}, pc {pc.hex}"
  | loaded => "story loaded"
  | trace pc instruction => s!"0x{hexUpper pc.toNat 4}: {instruction}"
  | ignored name _ => "ignoring " ++ name
  | notRecorded stream => s!"output stream {stream} (command script) is not recorded"
  | noSaveStore => "save requested but no save store is configured"
  | saveFailed _ => "save failed"
  | restoreFailed _ => "restore failed"
  | restarted => "story restarted"
  | fatal reason => reason

end LogEntry

end ZCode
