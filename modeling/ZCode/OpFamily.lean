/-
  The four tables of opcodes.
-/
namespace ZCode

/-- The table an opcode number refers to: opcodes of no, one and two operands, and of any number. -/
inductive OpFamily where
  | zero
  | one
  | two
  | many
  deriving DecidableEq, Repr, Inhabited

/-- The family's name in fault messages. -/
def OpFamily.label : OpFamily → String
  | .zero => "0OP"
  | .one => "1OP"
  | .two => "2OP"
  | .many => "VAR"

end ZCode
