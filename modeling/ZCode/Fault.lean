/-
  Everything that can go wrong, as causes, and the one place that puts causes into words.

  * `Fault` is a cause in its family: a refused access to memory, unreadable text, an instruction
    that cannot be carried out, a broken machine, an image that cannot be loaded, a snapshot that
    does not fit the story; `dictionary` and `restoredSave` say where a fault arose.
  * `Fault.message` is its wording.
-/
import ZCode.OpFamily
import ZCode.Text.Quoted

namespace ZCode

/-- A byte address in story memory. -/
abbrev Address := UInt32

/-- An address as messages show it. -/
def Address.hex (a : Address) : String := "0x" ++ hexUpper a.toNat

/-- Why an access to memory is refused. -/
inductive AccessCause where
  | beyondEnd (size : Nat)
  | bitRange (bit : Nat)
  | highMemory (base : Address)
  | staticMemory (base : Address)
  | headerField
  deriving DecidableEq, Repr

/-- Why a text cannot be read or encoded. -/
inductive TextCause where
  | nestedAbbreviation (code : Nat)
  | undefinedZscii (code : UInt16)
  | unencodable (c : Char)
  deriving DecidableEq, Repr

/-- Why an instruction cannot be decoded or carried out. -/
inductive InstructionCause where
  | extendedForm (opcode version : UInt8)
  | unknownOpcode (family : OpFamily) (number : Nat) (opcode version : UInt8)
  | missingOperands (name : String) (needed got : Nat)
  | invalidObject (object count : UInt16)
  | attributeRange (number : UInt16)
  | notAmongChildren (object parent : UInt16)
  | insertIntoItself (object : UInt16)
  | invalidProperty (property : UInt16)
  | noSuchProperty (object property : UInt16)
  | longPropertyRead (size property object : UInt16)
  | longPropertyWrite (size property object : UInt16)
  | multiplicationOverflow (a b : Int)
  | divisionByZero
  | remainderByZero
  | streamNeedsTable
  | unknownStream (number : Int)
  | tablesTooDeep (limit : Nat)
  | noTableSelected
  | noRoomForText (buffer : Address)
  deriving DecidableEq, Repr

/-- Why the machine's frames or variables do not allow an action. -/
inductive MachineCause where
  | stackOverflow
  | popFromEmptyStack
  | stackUnderflow
  | localRange (index : UInt8)
  | undeclaredLocal (index : UInt8) (declared : Nat)
  | callStackOverflow
  | returnFromMain
  | tooManyLocals (routine : Address) (count : UInt8)
  | variableRange (number : UInt16)
  | notASave (pc : Address) (name : String)
  deriving DecidableEq, Repr

/-- Why an image is no story. -/
inductive StoryCause where
  | tooShort (size needed : Nat)
  | unsupportedVersion (version : UInt8)
  | staticBase (base : Address)
  | badChecksum (stored computed : UInt16)
  | shortDictionaryEntries
  | dictionaryPastEnd
  deriving DecidableEq, Repr

/-- Why a snapshot cannot be restored. -/
inductive SnapshotCause where
  | malformed
  | formatVersion (found expected : Int)
  | badChecksum (found expected : String)
  | memorySize (found expected : Nat)
  | frameCount (found : Nat)
  | frameSize (index locals stack : Nat)
  | storeTarget (index : Nat) (target : Int)
  | pcOutside (pc : Address)
  deriving DecidableEq, Repr

/-- A fault: its cause, and the place where it arose if that is not the running instruction. -/
inductive Fault where
  | access (address : Address) (cause : AccessCause)
  | text (cause : TextCause)
  | instruction (cause : InstructionCause)
  | machine (cause : MachineCause)
  | story (cause : StoryCause)
  | snapshot (cause : SnapshotCause)
  | dictionary (fault : Fault)
  | restoredSave (fault : Fault)
  deriving DecidableEq, Repr

/-! ## Wording -/

def AccessCause.message : AccessCause → String
  | .beyondEnd size => s!"beyond end of memory (size 0x{hexUpper size})"
  | .bitRange bit => s!"bit {bit} out of range"
  | .highMemory base => s!"read from high memory (base {base.hex})"
  | .staticMemory base => s!"write to static memory (base {base.hex})"
  | .headerField => "write to read-only header field"

def TextCause.message : TextCause → String
  | .nestedAbbreviation code => s!"abbreviation code {code} inside an abbreviation"
  | .undefinedZscii code => s!"undefined ZSCII character {code.toNat}"
  | .unencodable c => s!"cannot encode {quoteChar c}"

def InstructionCause.message : InstructionCause → String
  | .extendedForm opcode version =>
    s!"extended form opcode 0x{hexUpper opcode.toNat 2} not supported in version {version.toNat}"
  | .unknownOpcode family number opcode version =>
    s!"unknown opcode {family.label}:{number} (0x{hexUpper opcode.toNat 2}) for version {version.toNat}"
  | .missingOperands name needed got => s!"{name} needs {needed} operands, got {got}"
  | .invalidObject object count => s!"invalid object {object.toNat} (table holds {count.toNat})"
  | .attributeRange number => s!"attribute {number.toNat} out of bounds"
  | .notAmongChildren object parent =>
    s!"object {object.toNat} not found among children of {parent.toNat}"
  | .insertIntoItself object => s!"cannot insert object {object.toNat} into itself"
  | .invalidProperty property => s!"invalid property {property.toNat}"
  | .noSuchProperty object property => s!"object {object.toNat} has no property {property.toNat}"
  | .longPropertyRead size property object =>
    s!"get_prop on {size.toNat} byte property {property.toNat} of object {object.toNat}"
  | .longPropertyWrite size property object =>
    s!"put_prop on {size.toNat} byte property {property.toNat} of object {object.toNat}"
  | .multiplicationOverflow a b => s!"multiplication overflow: {a} * {b}"
  | .divisionByZero => "division by zero"
  | .remainderByZero => "division by zero (mod)"
  | .streamNeedsTable => "output_stream 3 needs a table address"
  | .unknownStream number => s!"unknown output stream {number}"
  | .tablesTooDeep limit => s!"output stream 3 nested more than {limit} deep"
  | .noTableSelected => "output stream 3 is not selected"
  | .noRoomForText buffer => s!"text buffer at {buffer.hex} has no room"

def MachineCause.message : MachineCause → String
  | .stackOverflow => "stack overflow"
  | .popFromEmptyStack => "trying to pop from empty stack"
  | .stackUnderflow => "stack underflow"
  | .localRange index => s!"local var index {index.toNat} out of bounds"
  | .undeclaredLocal index declared =>
    s!"local {index.toNat} not declared (routine has {declared})"
  | .callStackOverflow => "call stack overflow"
  | .returnFromMain => "return from main routine"
  | .tooManyLocals routine count => s!"routine at {routine.hex} declares {count.toNat} locals"
  | .variableRange number => s!"variable {number.toNat} out of range"
  | .notASave pc name => s!"restored pc {pc.hex} is not a save instruction ({name})"

def StoryCause.message : StoryCause → String
  | .tooShort size needed => s!"too short: {size} bytes, header needs {needed}"
  | .unsupportedVersion version => s!"unsupported version {version.toNat}"
  | .staticBase base => s!"static memory base {base.hex} outside image"
  | .badChecksum stored computed =>
    s!"checksum mismatch: header 0x{hexUpper stored.toNat 4}, computed 0x{hexUpper computed.toNat 4}"
  | .shortDictionaryEntries => "dictionary entries shorter than an encoded word"
  | .dictionaryPastEnd => "dictionary runs past end of story"

def SnapshotCause.message : SnapshotCause → String
  | .malformed => "decoding save data"
  | .formatVersion found expected => s!"format version {found}, expected {expected}"
  | .badChecksum found expected => s!"checksum {found} does not match story {expected}"
  | .memorySize found expected => s!"memory is {found} bytes, story has {expected}"
  | .frameCount found => s!"{found} routines"
  | .frameSize index locals stack =>
    s!"routine {index} has {locals} locals and {stack} stack entries"
  | .storeTarget index target => s!"routine {index} stores to variable {target}"
  | .pcOutside pc => s!"pc {pc.hex} outside memory"

/-- A fault in words: its family, then its cause. -/
def Fault.message : Fault → String
  | .access address cause => s!"memory access at {address.hex}: {cause.message}"
  | .text cause => "text: " ++ cause.message
  | .instruction cause => "instruction: " ++ cause.message
  | .machine cause => "interpreter: " ++ cause.message
  | .story cause => "story file: " ++ cause.message
  | .snapshot cause => "invalid save data: " ++ cause.message
  | .dictionary fault => "dictionary: " ++ fault.message
  | .restoredSave fault => "decoding restored save instruction: " ++ fault.message

/-- The fault without the places it arose in. -/
def Fault.root : Fault → Fault
  | .dictionary fault => fault.root
  | .restoredSave fault => fault.root
  | fault => fault

end ZCode
