/-
  The opcodes of versions 1 to 3: their names, operands and what follows these in the code.
-/
import ZCode.OpFamily

namespace ZCode

/-- How the value of an operand is meant. -/
inductive Hint where
  | plain
  | signed
  /-- A byte address. -/
  | address
  /-- A packed address. -/
  | packed
  /-- The number of a variable. -/
  | reference
  deriving DecidableEq, Repr, Inhabited

/-- What an opcode is made of. -/
structure OpInfo where
  name : String
  /-- The meaning of the operands; further ones are meant like the last. -/
  hints : List Hint := []
  minOperands : Nat := 0
  /-- Whether a byte with the variable for the result follows. -/
  stores : Bool := false
  /-- Whether a branch follows. -/
  branches : Bool := false
  /-- Whether a text follows. -/
  hasText : Bool := false
  /-- The first version that has the opcode. -/
  minVersion : UInt8 := 0
  deriving Repr, Inhabited

/-- The opcodes. -/
inductive Op where
  | je
  | jl
  | jg
  | decChk
  | incChk
  | jin
  | testBits
  | bitOr
  | bitAnd
  | testAttr
  | setAttr
  | clearAttr
  | store
  | insertObj
  | loadw
  | loadb
  | getProp
  | getPropAddr
  | getNextProp
  | add
  | sub
  | mul
  | div
  | mod
  | jz
  | getSibling
  | getChild
  | getParent
  | getPropLen
  | inc
  | dec
  | printAddr
  | removeObj
  | printObj
  | ret
  | jump
  | printPaddr
  | load
  | bitNot
  | rtrue
  | rfalse
  | printText
  | printReturn
  | nop
  | save
  | restore
  | restart
  | retPopped
  | pop
  | quit
  | newLine
  | showStatus
  | verify
  | call
  | storew
  | storeb
  | putProp
  | sread
  | printChar
  | printNum
  | random
  | push
  | pull
  | splitWindow
  | setWindow
  | outputStream
  | inputStream
  | soundEffect
  deriving DecidableEq, Repr, Inhabited

namespace Op

/-- What each opcode is made of. -/
def info : Op → OpInfo
  | .je => { name := "je", hints := [.plain], minOperands := 2, branches := true }
  | .jl => { name := "jl", hints := [.signed, .signed], minOperands := 2, branches := true }
  | .jg => { name := "jg", hints := [.signed, .signed], minOperands := 2, branches := true }
  | .decChk =>
    { name := "dec_chk", hints := [.reference, .signed], minOperands := 2, branches := true }
  | .incChk =>
    { name := "inc_chk", hints := [.reference, .signed], minOperands := 2, branches := true }
  | .jin => { name := "jin", hints := [.plain, .plain], minOperands := 2, branches := true }
  | .testBits => { name := "test", hints := [.plain, .plain], minOperands := 2, branches := true }
  | .bitOr => { name := "or", hints := [.plain, .plain], minOperands := 2, stores := true }
  | .bitAnd => { name := "and", hints := [.plain, .plain], minOperands := 2, stores := true }
  | .testAttr =>
    { name := "test_attr", hints := [.plain, .plain], minOperands := 2, branches := true }
  | .setAttr => { name := "set_attr", hints := [.plain, .plain], minOperands := 2 }
  | .clearAttr => { name := "clear_attr", hints := [.plain, .plain], minOperands := 2 }
  | .store => { name := "store", hints := [.reference, .plain], minOperands := 2 }
  | .insertObj => { name := "insert_obj", hints := [.plain, .plain], minOperands := 2 }
  | .loadw => { name := "loadw", hints := [.address, .plain], minOperands := 2, stores := true }
  | .loadb => { name := "loadb", hints := [.address, .plain], minOperands := 2, stores := true }
  | .getProp => { name := "get_prop", hints := [.plain, .plain], minOperands := 2, stores := true }
  | .getPropAddr =>
    { name := "get_prop_addr", hints := [.plain, .plain], minOperands := 2, stores := true }
  | .getNextProp =>
    { name := "get_next_prop", hints := [.plain, .plain], minOperands := 2, stores := true }
  | .add => { name := "add", hints := [.signed, .signed], minOperands := 2, stores := true }
  | .sub => { name := "sub", hints := [.signed, .signed], minOperands := 2, stores := true }
  | .mul => { name := "mul", hints := [.signed, .signed], minOperands := 2, stores := true }
  | .div => { name := "div", hints := [.signed, .signed], minOperands := 2, stores := true }
  | .mod => { name := "mod", hints := [.signed, .signed], minOperands := 2, stores := true }
  | .jz => { name := "jz", hints := [.plain], minOperands := 1, branches := true }
  | .getSibling =>
    { name := "get_sibling", hints := [.plain], minOperands := 1, stores := true, branches := true }
  | .getChild =>
    { name := "get_child", hints := [.plain], minOperands := 1, stores := true, branches := true }
  | .getParent => { name := "get_parent", hints := [.plain], minOperands := 1, stores := true }
  | .getPropLen => { name := "get_prop_len", hints := [.address], minOperands := 1, stores := true }
  | .inc => { name := "inc", hints := [.reference], minOperands := 1 }
  | .dec => { name := "dec", hints := [.reference], minOperands := 1 }
  | .printAddr => { name := "print_addr", hints := [.address], minOperands := 1 }
  | .removeObj => { name := "remove_obj", hints := [.plain], minOperands := 1 }
  | .printObj => { name := "print_obj", hints := [.plain], minOperands := 1 }
  | .ret => { name := "ret", hints := [.plain], minOperands := 1 }
  | .jump => { name := "jump", hints := [.signed], minOperands := 1 }
  | .printPaddr => { name := "print_paddr", hints := [.packed], minOperands := 1 }
  | .load => { name := "load", hints := [.reference], minOperands := 1, stores := true }
  | .bitNot => { name := "not", hints := [.plain], minOperands := 1, stores := true }
  | .rtrue => { name := "rtrue" }
  | .rfalse => { name := "rfalse" }
  | .printText => { name := "print", hasText := true }
  | .printReturn => { name := "print_ret", hasText := true }
  | .nop => { name := "nop" }
  | .save => { name := "save", branches := true }
  | .restore => { name := "restore", branches := true }
  | .restart => { name := "restart" }
  | .retPopped => { name := "ret_popped" }
  | .pop => { name := "pop" }
  | .quit => { name := "quit" }
  | .newLine => { name := "new_line" }
  | .showStatus => { name := "show_status", minVersion := 3 }
  | .verify => { name := "verify", branches := true, minVersion := 3 }
  | .call => { name := "call", hints := [.packed, .plain], minOperands := 1, stores := true }
  | .storew => { name := "storew", hints := [.address, .plain, .plain], minOperands := 3 }
  | .storeb => { name := "storeb", hints := [.address, .plain, .plain], minOperands := 3 }
  | .putProp => { name := "put_prop", hints := [.plain, .plain, .plain], minOperands := 3 }
  | .sread => { name := "sread", hints := [.address, .address], minOperands := 2 }
  | .printChar => { name := "print_char", hints := [.plain], minOperands := 1 }
  | .printNum => { name := "print_num", hints := [.signed], minOperands := 1 }
  | .random => { name := "random", hints := [.signed], minOperands := 1, stores := true }
  | .push => { name := "push", hints := [.plain], minOperands := 1 }
  | .pull => { name := "pull", hints := [.reference], minOperands := 1 }
  | .splitWindow => { name := "split_window", hints := [.plain], minOperands := 1, minVersion := 3 }
  | .setWindow => { name := "set_window", hints := [.plain], minOperands := 1, minVersion := 3 }
  | .outputStream =>
    { name := "output_stream", hints := [.signed, .address], minOperands := 1, minVersion := 3 }
  | .inputStream => { name := "input_stream", hints := [.plain], minOperands := 1, minVersion := 3 }
  | .soundEffect => { name := "sound_effect", hints := [.plain], minVersion := 3 }

/-- The opcode with a number in a family. -/
def ofNumber? : OpFamily → Nat → Option Op
  | .two, 1 => some .je
  | .two, 2 => some .jl
  | .two, 3 => some .jg
  | .two, 4 => some .decChk
  | .two, 5 => some .incChk
  | .two, 6 => some .jin
  | .two, 7 => some .testBits
  | .two, 8 => some .bitOr
  | .two, 9 => some .bitAnd
  | .two, 10 => some .testAttr
  | .two, 11 => some .setAttr
  | .two, 12 => some .clearAttr
  | .two, 13 => some .store
  | .two, 14 => some .insertObj
  | .two, 15 => some .loadw
  | .two, 16 => some .loadb
  | .two, 17 => some .getProp
  | .two, 18 => some .getPropAddr
  | .two, 19 => some .getNextProp
  | .two, 20 => some .add
  | .two, 21 => some .sub
  | .two, 22 => some .mul
  | .two, 23 => some .div
  | .two, 24 => some .mod
  | .one, 0 => some .jz
  | .one, 1 => some .getSibling
  | .one, 2 => some .getChild
  | .one, 3 => some .getParent
  | .one, 4 => some .getPropLen
  | .one, 5 => some .inc
  | .one, 6 => some .dec
  | .one, 7 => some .printAddr
  | .one, 9 => some .removeObj
  | .one, 10 => some .printObj
  | .one, 11 => some .ret
  | .one, 12 => some .jump
  | .one, 13 => some .printPaddr
  | .one, 14 => some .load
  | .one, 15 => some .bitNot
  | .zero, 0 => some .rtrue
  | .zero, 1 => some .rfalse
  | .zero, 2 => some .printText
  | .zero, 3 => some .printReturn
  | .zero, 4 => some .nop
  | .zero, 5 => some .save
  | .zero, 6 => some .restore
  | .zero, 7 => some .restart
  | .zero, 8 => some .retPopped
  | .zero, 9 => some .pop
  | .zero, 10 => some .quit
  | .zero, 11 => some .newLine
  | .zero, 12 => some .showStatus
  | .zero, 13 => some .verify
  | .many, 0 => some .call
  | .many, 1 => some .storew
  | .many, 2 => some .storeb
  | .many, 3 => some .putProp
  | .many, 4 => some .sread
  | .many, 5 => some .printChar
  | .many, 6 => some .printNum
  | .many, 7 => some .random
  | .many, 8 => some .push
  | .many, 9 => some .pull
  | .many, 10 => some .splitWindow
  | .many, 11 => some .setWindow
  | .many, 19 => some .outputStream
  | .many, 20 => some .inputStream
  | .many, 21 => some .soundEffect
  | _, _ => none

/-- The meaning of operand `i`. -/
def hint (op : Op) (i : Nat) : Hint := op.info.hints.getD i (op.info.hints.getLastD .plain)

end Op

end ZCode
