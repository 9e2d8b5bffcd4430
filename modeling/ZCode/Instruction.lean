/-
  Decoded instructions, their written form, and where control goes after them.
-/
import ZCode.Fault
import ZCode.Opcode
import ZCode.Stray
import ZCode.Word

namespace ZCode

/-- How an operand is stored. -/
inductive OperandKind where
  | large
  | small
  /-- The number of a variable that holds the value. -/
  | var
  | omitted
  deriving DecidableEq, Repr, Inhabited

structure Operand where
  kind : OperandKind
  value : UInt16
  deriving DecidableEq, Repr, Inhabited

/-- How an instruction is laid out. -/
inductive Form where
  | long
  | short
  | variadic
  deriving DecidableEq, Repr, Inhabited

/-- A branch is taken when the condition is `onTrue`.  Offsets 0 and 1 return that value, others go
to the address behind the instruction plus the offset less 2. -/
structure Branch where
  onTrue : Bool
  offset : Int
  deriving DecidableEq, Repr, Inhabited

structure Instruction where
  address : Address
  form : Form
  family : OpFamily
  number : Nat
  op : Op
  operands : List Operand
  /-- The variable for the result, if the opcode stores one. -/
  storeTo : UInt8
  branch : Option Branch
  /-- The text in the code, if the opcode has one. -/
  text : List Char
  /-- The address behind the instruction. -/
  next : Address
  deriving DecidableEq, Repr, Inhabited

/-- Where control goes within or out of a routine. -/
inductive Flow where
  | next (address : Address)
  /-- To `offset - 2` bytes behind `base`. -/
  | jump (base : Address) (offset : Int)
  | ret (value : UInt16)
  deriving DecidableEq, Repr, Inhabited

/-- The address a jump goes to. -/
def jumpTarget (base : Address) (offset : Int) : Address := UInt32.ofInt (base.toNat + offset - 2)

namespace Instruction

/-- Where the branch of an instruction leads under a condition. -/
def branchOn [Stray] (i : Instruction) (condition : Bool) : Flow :=
  let b := i.branch.getD ⟨Stray.condition, Stray.number⟩
  if condition ≠ b.onTrue then .next i.next
  else if b.offset = 0 then .ret 0
  else if b.offset = 1 then .ret 1
  else .jump i.next b.offset

/-! ## Written form -/

/-- The name of a variable: the stack, a local or a global. -/
def variableName (v : UInt8) : String :=
  if v = 0 then "varsp"
  else if v < 0x10 then s!"varl{v.toNat}"
  else s!"varg{v.toNat - 0x10}"

/-- An operand as its opcode means it. -/
def renderOperand (o : Operand) (hint : Hint) : String :=
  if o.kind = .var then variableName o.value.toUInt8
  else match hint with
    | .plain => toString o.value.toNat
    | .signed => toString (signed o.value)
    | .address => "0x" ++ hexUpper o.value.toNat 4
    | .packed => "0x" ++ hexUpper (2 * o.value.toNat) 4
    | .reference => variableName o.value.toUInt8

/-- A branch of an instruction that ends at `next`. -/
def renderBranch (next : Address) (b : Branch) : String :=
  (if b.onTrue then " ?" else " ?!") ++
    if b.offset = 0 then "rfalse"
    else if b.offset = 1 then "rtrue"
    else "0x" ++ hexUpper (jumpTarget next b.offset).toNat 4

/-- The instruction in one line: name, operands, text, result and branch. -/
def render (i : Instruction) : String :=
  let operands := i.operands.mapIdx fun n o => " " ++ renderOperand o (i.op.hint n)
  i.op.info.name ++ String.join operands ++
    (if i.op.info.hasText then s!" ({quoteText i.text})" else "") ++
    (if i.op.info.stores then " -> " ++ variableName i.storeTo else "") ++
    match i.branch with
    | some b => renderBranch i.next b
    | none => ""

end Instruction

end ZCode
