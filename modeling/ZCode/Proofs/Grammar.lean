/-
  The grammar of instructions.

  * `Grammar.Code s m` describes an instruction: its form with the operands, its opcode, and the
    text, the result and the branch as far as the opcode has them.  A form holds only what it can
    express.
  * `Code.bytes` is the instruction as it is written and `Code.instruction` what it is decoded to.
    A type byte has fields behind the first omitted operand, which nobody looks at.  They are given
    by `filler`, and are omitted ones as well in the standard writing.
  * Each reader reads what is written and nothing else (`byte_spans` up to `readTail_spans`), hence
    so does the decoder (`decode_iff_code`).
-/
import ZCode.Proofs.Decode
import ZCode.Proofs.Memory

namespace ZCode

/-! ## Bytes in memory -/

namespace Memory

/-- The bytes stand in memory from `n` on. -/
def Holds (m : Memory) (n : Nat) : List UInt8 → Prop
  | [] => True
  | b :: bytes => n < m.size ∧ m.get n = b ∧ m.Holds (n + 1) bytes

instance (m : Memory) : (n : Nat) → (bytes : List UInt8) → Decidable (m.Holds n bytes)
  | _, [] => .isTrue trivial
  | n, b :: bytes =>
    have := instDecidableHolds m (n + 1) bytes
    inferInstanceAs (Decidable (n < m.size ∧ m.get n = b ∧ m.Holds (n + 1) bytes))

variable {m : Memory}

theorem Holds.fits {n : Nat} {bytes : List UInt8} (h : m.Holds n bytes) :
    n + bytes.length ≤ max n m.size := by
  induction bytes generalizing n with
  | nil => exact Nat.le_max_left _ _
  | cons b bytes ih =>
    have hn := h.1
    have := ih h.2.2
    simp only [List.length_cons]
    omega

theorem holds_append {n : Nat} {xs ys : List UInt8} :
    m.Holds n (xs ++ ys) ↔ m.Holds n xs ∧ m.Holds (n + xs.length) ys := by
  induction xs generalizing n with
  | nil => simp [Holds]
  | cons x xs ih =>
    simp only [List.cons_append, Holds, ih, List.length_cons, Nat.add_assoc, Nat.add_comm 1,
      and_assoc]

/-- The bytes stand in memory from `a` up to `a'`. -/
def Spans (m : Memory) (a : Address) (bytes : List UInt8) (a' : Address) : Prop :=
  m.Holds a.toNat bytes ∧ a'.toNat = a.toNat + bytes.length

variable {a a' : Address}

@[simp] theorem spans_nil : m.Spans a [] a' ↔ a = a' := by
  simp only [Spans, Holds, List.length_nil, Nat.add_zero, true_and]
  exact UInt32.toNat_inj.trans eq_comm

theorem Holds.spans (hm : m.size < 0x100000000) {bytes : List UInt8} (h : m.Holds a.toNat bytes) :
    m.Spans a bytes (UInt32.ofNat (a.toNat + bytes.length)) := by
  refine ⟨h, ?_⟩
  have := h.fits
  have := a.toNat_lt
  rw [UInt32.toNat_ofNat']
  omega

theorem spans_append (hm : m.size < 0x100000000) {xs ys : List UInt8} :
    m.Spans a (xs ++ ys) a' ↔ ∃ b, m.Spans a xs b ∧ m.Spans b ys a' := by
  constructor
  · rintro ⟨h, ha'⟩
    obtain ⟨hx, hy⟩ := holds_append.1 h
    obtain ⟨-, hb⟩ := hx.spans hm
    refine ⟨UInt32.ofNat (a.toNat + xs.length), ⟨hx, hb⟩, ?_, ?_⟩
    · rwa [hb]
    · rw [hb, ha', List.length_append]
      omega
  · rintro ⟨b, ⟨hx, hb⟩, hy, ha'⟩
    rw [hb] at hy ha'
    refine ⟨holds_append.2 ⟨hx, hy⟩, ?_⟩
    rw [ha', List.length_append]
    omega

theorem spans_cons (hm : m.size < 0x100000000) {b : UInt8} {bytes : List UInt8} :
    m.Spans a (b :: bytes) a' ↔ ∃ c, m.Spans a [b] c ∧ m.Spans c bytes a' := by
  show m.Spans a ([b] ++ bytes) a' ↔ _
  exact spans_append hm

end Memory

/-! ## Bytes and words -/

/-- The two bytes of a word, high byte first. -/
def wordBytes (w : UInt16) : List UInt8 := [highByte w, lowByte w]

namespace Grammar

variable {s : Script} {m : Memory} {a a' : Address}

theorem byte_spans (hm : m.size < 0x100000000) {b : UInt8} :
    Reader.byte m a = .ok (b, a') ↔ m.Spans a [b] a' := by
  rw [Reader.byte_ok_iff]
  have hsucc (ha : a.toNat < m.size) : (a + 1).toNat = a.toNat + 1 := by
    have : (a + 1).toNat = (a.toNat + 1) % 0x100000000 := UInt32.toNat_add a 1
    omega
  constructor
  · rintro ⟨hb, rfl⟩
    obtain ⟨ha, rfl⟩ := Memory.lt_size_of_byte hb
    exact ⟨⟨ha, rfl, trivial⟩, hsucc ha⟩
  · rintro ⟨⟨ha, rfl, -⟩, ha'⟩
    exact ⟨Memory.byte_ok ha, UInt32.toNat_inj.1 (ha'.trans (hsucc ha).symm)⟩

theorem word_spans (hm : m.size < 0x100000000) {w : UInt16} :
    Reader.word m a = .ok (w, a') ↔ m.Spans a (wordBytes w) a' := by
  rw [wordBytes, Memory.spans_cons hm]
  simp only [← byte_spans hm]
  constructor
  · intro h
    obtain ⟨high, b, hhigh, h⟩ := Reader.bind_eq_ok_iff.1 h
    obtain ⟨low, _, hlow, ⟨⟩⟩ := Reader.bind_eq_ok_iff.1 h
    obtain ⟨hh, hl⟩ := bytes_wordOf high low
    exact ⟨b, hh.symm ▸ hhigh, hl.symm ▸ hlow⟩
  · rintro ⟨b, hhigh, hlow⟩
    refine Reader.bind_eq_ok_iff.2 ⟨_, b, hhigh, Reader.bind_eq_ok_iff.2 ⟨_, a', hlow, ?_⟩⟩
    rw [wordOf_bytes]
    rfl

/-! ## Operands -/

/-- An operand of one byte: a small constant or a variable. -/
structure ByteOperand where
  isVar : Bool
  value : UInt8
  deriving DecidableEq

/-- The kind of an operand of one byte. -/
def byteKind (isVar : Bool) : OperandKind := if isVar then .var else .small

inductive OperandCode where
  | large (value : UInt16)
  | byte (operand : ByteOperand)
  deriving DecidableEq

namespace OperandCode

def kind : OperandCode → OperandKind
  | large _ => .large
  | byte o => byteKind o.isVar

def operand : OperandCode → Operand
  | large w => ⟨.large, w⟩
  | byte o => ⟨byteKind o.isVar, o.value.toUInt16⟩

def bytes : OperandCode → List UInt8
  | large w => wordBytes w
  | byte o => [o.value]

theorem kind_ne_omitted (c : OperandCode) : c.kind ≠ .omitted := by
  rcases c with w | ⟨isVar, value⟩
  · nofun
  · cases isVar <;> nofun

theorem omitted_notMem_kinds (cs : List OperandCode) : .omitted ∉ cs.map (·.kind) := by
  rw [List.mem_map]
  rintro ⟨c, -, hc⟩
  exact c.kind_ne_omitted hc

theorem eq_byte_of_kind {c : OperandCode} {isVar : Bool} (h : c.kind = byteKind isVar) :
    ∃ value, c = .byte ⟨isVar, value⟩ := by
  rcases c with w | ⟨isVar', value⟩
  · cases isVar <;> cases h
  · cases isVar <;> cases isVar' <;> first | exact ⟨value, rfl⟩ | cases h

end OperandCode

theorem operand_spans (hm : m.size < 0x100000000) {kind : OperandKind} (hk : kind ≠ .omitted)
    {o : Operand} : Reader.operand m kind a = .ok (o, a') ↔
      ∃ c : OperandCode, c.kind = kind ∧ c.operand = o ∧ m.Spans a c.bytes a' := by
  constructor
  · intro h
    cases kind with
    | omitted => exact absurd rfl hk
    | large =>
      obtain ⟨w, _, hw, ⟨⟩⟩ := Reader.bind_eq_ok_iff.1 h
      exact ⟨.large w, rfl, rfl, (word_spans hm).1 hw⟩
    | small =>
      obtain ⟨b, _, hb, ⟨⟩⟩ := Reader.bind_eq_ok_iff.1 h
      exact ⟨.byte ⟨false, b⟩, rfl, rfl, (byte_spans hm).1 hb⟩
    | var =>
      obtain ⟨b, _, hb, ⟨⟩⟩ := Reader.bind_eq_ok_iff.1 h
      exact ⟨.byte ⟨true, b⟩, rfl, rfl, (byte_spans hm).1 hb⟩
  · rintro ⟨w | ⟨isVar, value⟩, rfl, rfl, h⟩
    · exact Reader.bind_eq_ok_iff.2 ⟨w, a', (word_spans hm).2 h, rfl⟩
    · cases isVar <;> exact Reader.bind_eq_ok_iff.2 ⟨value, a', (byte_spans hm).2 h, rfl⟩

theorem operands_spans (hm : m.size < 0x100000000) {kinds : List OperandKind} (hk : .omitted ∉ kinds)
    {os : List Operand} : Reader.operands m kinds a = .ok (os, a') ↔
      ∃ cs : List OperandCode, cs.map (·.kind) = kinds ∧ cs.map (·.operand) = os ∧
        m.Spans a (cs.flatMap (·.bytes)) a' := by
  induction kinds generalizing a os with
  | nil =>
    constructor
    · rintro ⟨⟩
      exact ⟨[], rfl, rfl, Memory.spans_nil.2 rfl⟩
    · rintro ⟨cs, hcs, rfl, h⟩
      obtain rfl := List.map_eq_nil_iff.1 hcs
      obtain rfl := Memory.spans_nil.1 h
      rfl
  | cons kind kinds ih =>
    rw [List.mem_cons, not_or] at hk
    constructor
    · intro h
      obtain ⟨o, b, ho, h⟩ := Reader.bind_eq_ok_iff.1 h
      obtain ⟨rest, _, hrest, ⟨⟩⟩ := Reader.bind_eq_ok_iff.1 h
      obtain ⟨c, rfl, rfl, hc⟩ := (operand_spans hm (Ne.symm hk.1)).1 ho
      obtain ⟨cs, rfl, rfl, hcs⟩ := (ih hk.2).1 hrest
      exact ⟨c :: cs, rfl, rfl, (Memory.spans_append hm).2 ⟨b, hc, hcs⟩⟩
    · rintro ⟨_ | ⟨c, cs⟩, hkinds, rfl, h⟩
      · cases hkinds
      obtain ⟨rfl, rfl⟩ := List.cons.inj hkinds
      obtain ⟨b, hc, hcs⟩ := (Memory.spans_append hm).1 h
      have hfirst := (operand_spans hm c.kind_ne_omitted).2 ⟨c, rfl, rfl, hc⟩
      have hrest := (ih hk.2).2 ⟨cs, rfl, rfl, hcs⟩
      exact Reader.bind_eq_ok_iff.2 ⟨_, b, hfirst, Reader.bind_eq_ok_iff.2 ⟨_, a', hrest, rfl⟩⟩

/-! ## The type byte -/

/-- The two bits of an operand kind. -/
def kindBits : OperandKind → Nat
  | .large => 0
  | .small => 1
  | .var => 2
  | .omitted => 3

/-- A byte of four operand kinds, from the top. -/
def typeByte (field : Nat → OperandKind) : UInt8 :=
  UInt8.ofNat (kindBits (field 0) * 64 + kindBits (field 1) * 16 + kindBits (field 2) * 4 +
    kindBits (field 3))

/-- Kinds of operands, an omitted one, and others behind it. -/
def typeFields (kinds : List OperandKind) (filler : Nat → OperandKind) (k : Nat) : OperandKind :=
  kinds.getD k (if k = kinds.length then .omitted else filler k)

theorem kindOf_kindBits (kind : OperandKind) (n : Nat) :
    Reader.kindOf (UInt8.ofNat (n * 4 + kindBits kind)) = kind := by
  have hand : UInt8.ofNat (n * 4 + kindBits kind) &&& 3 = UInt8.ofNat (kindBits kind) := by
    apply UInt8.toNat_inj.1
    have := Nat.and_two_pow_sub_one_eq_mod ((n * 4 + kindBits kind) % 256) 2
    simp at this ⊢
    rw [this]
    cases kind <;> rfl
  unfold Reader.kindOf
  rw [hand]
  cases kind <;> rfl

theorem kindBits_le (kind : OperandKind) : kindBits kind ≤ 3 := by cases kind <;> decide

theorem shiftRight_ofNat {n : Nat} (hn : n < 256) {k : UInt8} (hk : k.toNat < 8) :
    UInt8.ofNat n >>> k = UInt8.ofNat (n >>> k.toNat) := by
  apply UInt8.toNat_inj.1
  have hle : n >>> k.toNat ≤ n := Nat.shiftRight_le n k.toNat
  rw [UInt8.toNat_shiftRight, Nat.mod_eq_of_lt hk, UInt8.toNat_ofNat', UInt8.toNat_ofNat',
    Nat.mod_eq_of_lt hn, Nat.mod_eq_of_lt (by omega)]

/-- The kinds of a type byte are its fields up to the first omitted one. -/
theorem kindsOf_typeByte (field : Nat → OperandKind) : Reader.kindsOf (typeByte field) =
    [field 0, field 1, field 2, field 3].takeWhile (· ≠ .omitted) := by
  have h₀ := kindBits_le (field 0)
  have h₁ := kindBits_le (field 1)
  have h₂ := kindBits_le (field 2)
  have h₃ := kindBits_le (field 3)
  have hkind {k : UInt8} {d : Nat} (hk : k.toNat < 8) (hd : 2 ^ k.toNat = d) (kind : OperandKind)
      (n : Nat) (h : (kindBits (field 0) * 64 + kindBits (field 1) * 16 + kindBits (field 2) * 4 +
        kindBits (field 3)) / d = n * 4 + kindBits kind) :
      Reader.kindOf (typeByte field >>> k) = kind := by
    rw [typeByte, shiftRight_ofNat (by omega) hk, Nat.shiftRight_eq_div_pow, hd, h, kindOf_kindBits]
  unfold Reader.kindsOf
  rw [List.map_cons, List.map_cons, List.map_cons, List.map_cons, List.map_nil,
    hkind (d := 64) (by decide) rfl (field 0) 0 (by omega),
    hkind (d := 16) (by decide) rfl (field 1) (kindBits (field 0)) (by omega),
    hkind (d := 4) (by decide) rfl (field 2) (kindBits (field 0) * 4 + kindBits (field 1))
      (by omega),
    show typeByte field = typeByte field >>> 0 by simp,
    hkind (d := 1) (by decide) rfl (field 3)
      (kindBits (field 0) * 16 + kindBits (field 1) * 4 + kindBits (field 2)) (by omega)]

theorem exists_typeByte (b : UInt8) : ∃ field, typeByte field = b := by
  have hall : ∀ i : Fin 256, typeByte (fun k =>
      Reader.kindOf (UInt8.ofFin i >>> [6, 4, 2, 0].getD k 0)) = UInt8.ofFin i := by
    decide +kernel
  exact ⟨_, hall b.toFin⟩

theorem takeWhile_typeFields {kinds : List OperandKind} (hk : .omitted ∉ kinds)
    (hlen : kinds.length ≤ 4) (filler : Nat → OperandKind) :
    let field := typeFields kinds filler
    [field 0, field 1, field 2, field 3].takeWhile (· ≠ .omitted) = kinds := by
  match kinds, hlen with
  | [], _ => rfl
  | [k₀], _ | [k₀, k₁], _ | [k₀, k₁, k₂], _ | [k₀, k₁, k₂, k₃], _ =>
    simp only [List.mem_cons, List.not_mem_nil, not_or, eq_comm (a := OperandKind.omitted)] at hk
    simp [typeFields, hk]

theorem typeFields_takeWhile (field : Nat → OperandKind) :
    typeByte (typeFields ([field 0, field 1, field 2, field 3].takeWhile (· ≠ .omitted)) field) =
      typeByte field := by
  by_cases h₀ : field 0 = .omitted
  · simp [typeFields, typeByte, h₀]
  by_cases h₁ : field 1 = .omitted
  · simp [typeFields, typeByte, h₀, h₁]
  by_cases h₂ : field 2 = .omitted
  · simp [typeFields, typeByte, h₀, h₁, h₂]
  by_cases h₃ : field 3 = .omitted
  · simp [typeFields, typeByte, h₀, h₁, h₂, h₃]
  · simp [typeFields, typeByte, h₀, h₁, h₂, h₃]

/-! ## The head -/

/-- What the first byte of an instruction says. -/
inductive Lead where
  | long (first second : Bool) (number : Fin 32)
  | short (kind : OperandKind) (number : Fin 16)
  | variadic (many : Bool) (number : Fin 32)
  deriving DecidableEq

def Lead.byte : Lead → UInt8
  | long first second number => UInt8.ofNat (first.toNat * 0x40 + second.toNat * 0x20 + number)
  | short kind number => UInt8.ofNat (0x80 + kindBits kind * 0x10 + number)
  | variadic many number => UInt8.ofNat (0xC0 + many.toNat * 0x20 + number)

theorem Lead.exists_byte (b : UInt8) : ∃ lead : Lead, lead.byte = b := by
  have hall : ∀ i : Fin 256, Lead.byte (
      if i.val < 0x80 then .long (i.val / 0x40 = 1) (i.val / 0x20 % 2 = 1) (Fin.ofNat 32 i)
      else if i.val < 0xC0 then
        .short (Reader.kindOf (UInt8.ofNat (i.val / 0x10))) (Fin.ofNat 16 i)
      else .variadic (i.val / 0x20 % 2 = 1) (Fin.ofNat 32 i)) = UInt8.ofFin i := by
    decide +kernel
  exact ⟨_, hall b.toFin⟩

theorem readHead_long (first second : Bool) (number : Fin 32) :
    Instruction.readHead m (Lead.long first second number).byte = (do
      let operands ← Reader.operands m [byteKind first, byteKind second]
      return { form := .long, family := .two, number, operands }) := by
  have hbits : ∀ (first second : Bool) (number : Fin 32),
      let b := (Lead.long first second number).byte
      ¬ 0xC0 ≤ b ∧ ¬ 0x80 ≤ b ∧ (if b &&& 0x40 = 0 then .small else .var) = byteKind first ∧
        (if b &&& 0x20 = 0 then .small else .var) = byteKind second ∧
        (b &&& 0x1F).toNat = number := by
    decide +kernel
  obtain ⟨hvariadic, hshort, hfirst, hsecond, hnumber⟩ := hbits first second number
  unfold Instruction.readHead
  rw [if_neg hvariadic, if_neg hshort]
  dsimp only
  rw [hfirst, hsecond, hnumber]

theorem readHead_short (kind : OperandKind) (number : Fin 16) :
    Instruction.readHead m (Lead.short kind number).byte =
      if kind = .omitted then return { form := .short, family := .zero, number, operands := [] }
      else return { form := .short, family := .one, number,
                    operands := [← Reader.operand m kind] } := by
  have hbits : ∀ number : Fin 16, let b := (Lead.short kind number).byte
      ¬ 0xC0 ≤ b ∧ 0x80 ≤ b ∧ Reader.kindOf (b >>> 4) = kind ∧ (b &&& 0x0F).toNat = number := by
    cases kind <;> decide +kernel
  obtain ⟨hvariadic, hshort, hkind, hnumber⟩ := hbits number
  unfold Instruction.readHead
  rw [if_neg hvariadic, if_pos hshort]
  dsimp only
  rw [hkind, hnumber]

theorem readHead_variadic (many : Bool) (number : Fin 32) :
    Instruction.readHead m (Lead.variadic many number).byte = (do
      let types ← Reader.byte m
      let operands ← Reader.operands m (Reader.kindsOf types)
      return { form := .variadic, family := if many then .many else .two, number, operands }) := by
  have hbits : ∀ (many : Bool) (number : Fin 32), let b := (Lead.variadic many number).byte
      0xC0 ≤ b ∧ (if b &&& 0x20 = 0 then OpFamily.two else .many) = (if many then .many else .two) ∧
        (b &&& 0x1F).toNat = number := by
    decide +kernel
  obtain ⟨hvariadic, hfamily, hnumber⟩ := hbits many number
  unfold Instruction.readHead
  rw [if_pos hvariadic, hfamily, hnumber]

/-- The form of an instruction with its number and operands. -/
inductive HeadCode where
  | long (number : Fin 32) (first second : ByteOperand)
  | bare (number : Fin 16)
  | short (number : Fin 16) (operand : OperandCode)
  | variadic (many : Bool) (number : Fin 32) (operands : List OperandCode)
      (atMost : operands.length ≤ 4)

namespace HeadCode

def lead : HeadCode → Lead
  | long number first second => .long first.isVar second.isVar number
  | bare number => .short .omitted number
  | short number operand => .short operand.kind number
  | variadic many number _ _ => .variadic many number

def form : HeadCode → Form
  | long .. => .long
  | bare _ | short .. => .short
  | variadic .. => .variadic

def family : HeadCode → OpFamily
  | long .. => .two
  | bare _ => .zero
  | short .. => .one
  | variadic many .. => if many then .many else .two

def number : HeadCode → Nat
  | long number .. | bare number | short number _ | variadic _ number .. => number

def operands : HeadCode → List OperandCode
  | long _ first second => [.byte first, .byte second]
  | bare _ => []
  | short _ operand => [operand]
  | variadic _ _ operands _ => operands

/-- The type byte, if the form has one. -/
def types (filler : Nat → OperandKind) : HeadCode → List UInt8
  | variadic _ _ operands _ => [typeByte (typeFields (operands.map (·.kind)) filler)]
  | _ => []

/-- What comes behind the first byte. -/
def rest (c : HeadCode) (filler : Nat → OperandKind) : List UInt8 :=
  c.types filler ++ c.operands.flatMap (·.bytes)

def bytes (c : HeadCode) (filler : Nat → OperandKind) : List UInt8 := c.lead.byte :: c.rest filler

def head (c : HeadCode) : Instruction.Head where
  form := c.form
  family := c.family
  number := c.number
  operands := c.operands.map (·.operand)

theorem length_operands (c : HeadCode) : c.head.operands.length = c.operands.length :=
  List.length_map _

end HeadCode

theorem omitted_notMem_takeWhile (kinds : List OperandKind) :
    .omitted ∉ kinds.takeWhile (· ≠ .omitted) := by
  intro h
  simpa using List.all_eq_true.1 List.all_takeWhile _ h

theorem readHead_long_spans (hm : m.size < 0x100000000) {x y : Bool} {number : Fin 32}
    {head : Instruction.Head} :
    Instruction.readHead m (Lead.long x y number).byte a = .ok (head, a') ↔
      ∃ v w, (HeadCode.long number ⟨x, v⟩ ⟨y, w⟩).head = head ∧ m.Spans a [v, w] a' := by
  have hk := OperandCode.omitted_notMem_kinds [.byte ⟨x, 0⟩, .byte ⟨y, 0⟩]
  rw [readHead_long, Reader.bind_eq_ok_iff]
  constructor
  · rintro ⟨os, _, hos, ⟨⟩⟩
    obtain ⟨cs, hkinds, rfl, hspan⟩ := (operands_spans hm hk).1 hos
    obtain ⟨c, cs, rfl, hc, hkinds⟩ := List.map_eq_cons_iff.1 hkinds
    obtain ⟨d, cs, rfl, hd, hkinds⟩ := List.map_eq_cons_iff.1 hkinds
    obtain rfl := List.map_eq_nil_iff.1 hkinds
    obtain ⟨v, rfl⟩ := OperandCode.eq_byte_of_kind hc
    obtain ⟨w, rfl⟩ := OperandCode.eq_byte_of_kind hd
    exact ⟨v, w, rfl, hspan⟩
  · rintro ⟨v, w, rfl, hspan⟩
    refine ⟨_, a', (operands_spans hm hk).2 ⟨[.byte ⟨x, v⟩, .byte ⟨y, w⟩], rfl, rfl, hspan⟩, rfl⟩

theorem readHead_short_spans (hm : m.size < 0x100000000) {kind : OperandKind} (hk : kind ≠ .omitted)
    {number : Fin 16} {head : Instruction.Head} :
    Instruction.readHead m (Lead.short kind number).byte a = .ok (head, a') ↔
      ∃ c : OperandCode, c.kind = kind ∧ (HeadCode.short number c).head = head ∧
        m.Spans a c.bytes a' := by
  rw [readHead_short, if_neg hk, Reader.bind_eq_ok_iff]
  constructor
  · rintro ⟨o, _, ho, ⟨⟩⟩
    obtain ⟨c, hc, rfl, hspan⟩ := (operand_spans hm hk).1 ho
    exact ⟨c, hc, rfl, hspan⟩
  · rintro ⟨c, hc, rfl, hspan⟩
    exact ⟨_, a', (operand_spans hm hk).2 ⟨c, hc, rfl, hspan⟩, rfl⟩

theorem readHead_variadic_spans (hm : m.size < 0x100000000) {many : Bool} {number : Fin 32}
    {head : Instruction.Head} :
    Instruction.readHead m (Lead.variadic many number).byte a = .ok (head, a') ↔
      ∃ cs hlen filler, (HeadCode.variadic many number cs hlen).head = head ∧
        m.Spans a ((HeadCode.variadic many number cs hlen).rest filler) a' := by
  rw [readHead_variadic, Reader.bind_eq_ok_iff]
  constructor
  · rintro ⟨types, b, htypes, h⟩
    obtain ⟨os, _, hos, ⟨⟩⟩ := Reader.bind_eq_ok_iff.1 h
    obtain ⟨field, rfl⟩ := exists_typeByte types
    rw [kindsOf_typeByte] at hos
    obtain ⟨cs, hkinds, rfl, hspan⟩ := (operands_spans hm (omitted_notMem_takeWhile _)).1 hos
    have hlen : cs.length ≤ 4 := by
      rw [← List.length_map (f := (·.kind)), hkinds]
      exact (List.takeWhile_sublist _).length_le
    -- the fields themselves are the filler
    refine ⟨cs, hlen, field, rfl, (Memory.spans_append hm).2 ⟨b, ?_, hspan⟩⟩
    simp only [HeadCode.types, hkinds, typeFields_takeWhile]
    exact (byte_spans hm).1 htypes
  · rintro ⟨cs, hlen, filler, rfl, h⟩
    obtain ⟨b, htypes, hspan⟩ := (Memory.spans_append hm).1 h
    have hk := OperandCode.omitted_notMem_kinds cs
    refine ⟨_, b, (byte_spans hm).2 htypes, Reader.bind_eq_ok_iff.2 ⟨_, a', ?_, rfl⟩⟩
    rw [kindsOf_typeByte, takeWhile_typeFields hk (by simpa using hlen)]
    exact (operands_spans hm hk).2 ⟨cs, rfl, rfl, hspan⟩

/-- The head is read from what is written of one of its forms. -/
theorem readHead_spans (hm : m.size < 0x100000000) {lead : Lead} {head : Instruction.Head} :
    Instruction.readHead m lead.byte a = .ok (head, a') ↔
      ∃ (c : HeadCode) (filler : Nat → OperandKind), c.lead = lead ∧ c.head = head ∧
        m.Spans a (c.rest filler) a' := by
  have hshort (number : Fin 16) (c : OperandCode) (filler : Nat → OperandKind) :
      (HeadCode.short number c).rest filler = c.bytes := by
    simp [HeadCode.rest, HeadCode.types, HeadCode.operands]
  constructor
  · intro h
    cases lead with
    | long x y number =>
      obtain ⟨v, w, rfl, hspan⟩ := (readHead_long_spans hm).1 h
      exact ⟨.long number ⟨x, v⟩ ⟨y, w⟩, fun _ => .omitted, rfl, rfl, hspan⟩
    | short kind number =>
      by_cases hk : kind = .omitted
      · subst hk
        rw [readHead_short, if_pos rfl] at h
        cases h
        exact ⟨.bare number, fun _ => .omitted, rfl, rfl, Memory.spans_nil.2 rfl⟩
      · obtain ⟨c, rfl, rfl, hspan⟩ := (readHead_short_spans hm hk).1 h
        exact ⟨.short number c, fun _ => .omitted, rfl, rfl, (hshort ..).symm ▸ hspan⟩
    | variadic many number =>
      obtain ⟨cs, hlen, filler, rfl, hspan⟩ := (readHead_variadic_spans hm).1 h
      exact ⟨.variadic many number cs hlen, filler, rfl, rfl, hspan⟩
  · rintro ⟨c, filler, rfl, rfl, h⟩
    cases c with
    | long number first second => exact (readHead_long_spans hm).2 ⟨_, _, rfl, h⟩
    | bare number =>
      obtain rfl := Memory.spans_nil.1 h
      exact congrFun (readHead_short ..) _
    | short number c =>
      rw [hshort] at h
      exact (readHead_short_spans hm c.kind_ne_omitted).2 ⟨c, rfl, rfl, h⟩
    | variadic many number cs hlen =>
      exact (readHead_variadic_spans hm).2 ⟨cs, hlen, filler, rfl, h⟩

/-! ## Text -/

/-- The words of a text, of which the last one and no other ends it, and what they say. -/
structure TextCode (s : Script) (m : Memory) where
  body : List UInt16
  last : UInt16
  text : List Char
  open_body : ∀ w ∈ body, endsText w = false
  ends_last : endsText last = true
  decoded : s.decodeZChars m ((body ++ [last]).flatMap zcharsOf) = .ok text

def TextCode.bytes (c : TextCode s m) : List UInt8 := (c.body ++ [c.last]).flatMap wordBytes

theorem holds_wordBytes {n : Nat} {w : UInt16} :
    m.Holds n (wordBytes w) ↔ n + 2 ≤ m.size ∧ m.getWord n = w := by
  constructor
  · rintro ⟨-, hhigh, hsize, hlow, -⟩
    refine ⟨hsize, ?_⟩
    rw [Memory.getWord, hhigh, hlow, wordOf_bytes]
  · rintro ⟨hsize, rfl⟩
    obtain ⟨hhigh, hlow⟩ := bytes_wordOf (m.get n) (m.get (n + 1))
    exact ⟨by omega, hhigh.symm, hsize, hlow.symm, trivial⟩

theorem textWordsOnto_eq_ok_iff {seen words : List UInt16} {n n' : Nat} :
    m.textWordsOnto seen n = .ok (words, n') ↔ ∃ body last,
      words = seen.reverse ++ (body ++ [last]) ∧
      (∀ w ∈ body, endsText w = false) ∧ endsText last = true ∧
      m.Holds n ((body ++ [last]).flatMap wordBytes) ∧
      n' = n + ((body ++ [last]).flatMap wordBytes).length := by
  fun_induction Memory.textWordsOnto m seen n with
  | case1 seen n hsize w hends =>
    constructor
    · rintro ⟨⟩
      exact ⟨[], w, by simp, nofun, hends, holds_wordBytes.2 ⟨hsize, rfl⟩, rfl⟩
    · rintro ⟨_ | ⟨v, body⟩, last, rfl, hbody, hlast, hholds, rfl⟩
      · obtain ⟨-, hw⟩ := holds_wordBytes.1 hholds
        simp [w, hw, wordBytes]
      · obtain ⟨-, hw⟩ := holds_wordBytes.1 (Memory.holds_append.1 hholds).1
        have := hbody v (.head _)
        rw [← hw, hends] at this
        cases this
  | case2 seen n hsize w hends ih =>
    rw [ih]
    constructor
    · rintro ⟨body, last, rfl, hbody, hlast, hholds, rfl⟩
      refine ⟨w :: body, last, by simp, ?_, hlast, ?_, ?_⟩
      · rintro v (_ | ⟨_, hv⟩)
        · simpa using hends
        · exact hbody v hv
      · exact Memory.holds_append.2 ⟨holds_wordBytes.2 ⟨hsize, rfl⟩, hholds⟩
      · simp [wordBytes]
        omega
    · rintro ⟨_ | ⟨v, body⟩, last, rfl, hbody, hlast, hholds, rfl⟩
      · obtain ⟨-, hw⟩ := holds_wordBytes.1 hholds
        rw [← hw] at hlast
        exact absurd hlast hends
      · obtain ⟨hv, hholds⟩ := Memory.holds_append.1 hholds
        obtain ⟨-, hw⟩ := holds_wordBytes.1 hv
        refine ⟨body, last, by simp [w, hw], fun u hu => hbody u (.tail _ hu), hlast, hholds, ?_⟩
        simp [wordBytes]
        omega
  | case3 seen n hsize =>
    constructor
    · nofun
    · rintro ⟨body, last, rfl, hbody, hlast, hholds, rfl⟩
      have := hholds.fits
      simp [wordBytes] at this
      omega

theorem text_spans (hm : m.size < 0x100000000) {text : List Char} :
    Reader.text s m a = .ok (text, a') ↔
      ∃ c : TextCode s m, c.text = text ∧ m.Spans a c.bytes a' := by
  show s.decode m a = _ ↔ _
  unfold Script.decode
  rw [bind_eq_ok_iff]
  constructor
  · rintro ⟨⟨words, n⟩, hwords, h⟩
    obtain ⟨chars, hchars, ⟨⟩⟩ := bind_eq_ok_iff.1 h
    obtain ⟨body, last, rfl, hbody, hlast, hholds, rfl⟩ := textWordsOnto_eq_ok_iff.1 hwords
    exact ⟨⟨body, last, text, hbody, hlast, hchars⟩, rfl, hholds.spans hm⟩
  · rintro ⟨⟨body, last, text, hbody, hlast, hchars⟩, rfl, hholds, ha'⟩
    refine ⟨(body ++ [last], a'.toNat), ?_, bind_eq_ok_iff.2 ⟨text, hchars, by simp; rfl⟩⟩
    exact textWordsOnto_eq_ok_iff.2 ⟨body, last, by simp, hbody, hlast, hholds, ha'⟩

/-! ## Branches -/

/-- A branch whose offset stands in one byte or in two. -/
inductive BranchCode where
  | near (onTrue : Bool) (offset : Fin 64)
  | far (onTrue : Bool) (offset : Int) (atLeast : -8192 ≤ offset) (atMost : offset ≤ 8191)
  deriving DecidableEq

/-- The first byte of a branch. -/
def branchByte (onTrue near : Bool) (bits : Fin 64) : UInt8 :=
  UInt8.ofNat (onTrue.toNat * 0x80 + near.toNat * 0x40 + bits)

theorem branchByte_bits : ∀ (onTrue near : Bool) (bits : Fin 64),
    let b := branchByte onTrue near bits
    (b &&& 0x80 != 0) = onTrue ∧ (b &&& 0x40 != 0) = near ∧ (b &&& 0x3F).toNat = bits := by
  decide +kernel

theorem exists_branchByte (b : UInt8) : ∃ onTrue near bits, branchByte onTrue near bits = b := by
  have hall : ∀ i : Fin 256,
      branchByte (i.val / 0x80 = 1) (i.val / 0x40 % 2 = 1) (Fin.ofNat 64 i) = UInt8.ofFin i := by
    decide +kernel
  exact ⟨_, _, _, hall b.toFin⟩

namespace BranchCode

def branch : BranchCode → Branch
  | near onTrue offset => ⟨onTrue, offset.val⟩
  | far onTrue offset _ _ => ⟨onTrue, offset⟩

/-- The offset of a far branch is written as its remainder modulo `2 ^ 14`. -/
def bytes : BranchCode → List UInt8
  | near onTrue offset => [branchByte onTrue true offset]
  | far onTrue offset _ _ =>
    let bits := (offset % 0x4000).toNat
    [branchByte onTrue false (Fin.ofNat 64 (bits / 256)), UInt8.ofNat bits]

end BranchCode

/-- The signed reading of 14 bits is undone by the remainder. -/
theorem signed_iff {n : Nat} (hn : n < 0x4000) {offset : Int} :
    (if n < 0x2000 then (n : Int) else (n : Int) - 0x4000) = offset ↔
      -8192 ≤ offset ∧ offset ≤ 8191 ∧ (offset % 0x4000).toNat = n := by
  split <;> omega

theorem high_low_iff {n : Nat} (hn : n < 0x4000) {bits : Fin 64} {low : UInt8} :
    bits.val * 256 + low.toNat = n ↔ Fin.ofNat 64 (n / 256) = bits ∧ UInt8.ofNat n = low := by
  have hb := bits.isLt
  have hl : low.toNat < 256 := low.toNat_lt
  rw [← UInt8.toNat_inj, UInt8.toNat_ofNat', ← Fin.val_inj]
  simp only [Fin.ofNat]
  omega

theorem branch_spans (hm : m.size < 0x100000000) {b : Branch} :
    Reader.branch m a = .ok (b, a') ↔ ∃ c : BranchCode, c.branch = b ∧ m.Spans a c.bytes a' := by
  constructor
  · intro h
    obtain ⟨first, a₁, hfirst, h⟩ := Reader.bind_eq_ok_iff.1 h
    obtain ⟨onTrue, near, bits, rfl⟩ := exists_branchByte first
    obtain ⟨htrue, hnear, hbits⟩ := branchByte_bits onTrue near bits
    dsimp only at h htrue hnear hbits
    rw [htrue, hnear, hbits] at h
    cases near with
    | true =>
      cases h
      exact ⟨.near onTrue bits, rfl, (byte_spans hm).1 hfirst⟩
    | false =>
      obtain ⟨low, _, hlow, ⟨⟩⟩ := Reader.bind_eq_ok_iff.1 h
      have hn : bits.val * 256 + low.toNat < 0x4000 := by
        have : low.toNat < 256 := low.toNat_lt
        omega
      obtain ⟨hge, hle, hmod⟩ := (signed_iff hn).1 rfl
      obtain ⟨hhigh', hlow'⟩ := (high_low_iff hn).1 rfl
      refine ⟨.far onTrue _ hge hle, rfl, ?_⟩
      simp only [BranchCode.bytes, hmod, hhigh', hlow']
      exact (Memory.spans_cons hm).2
        ⟨a₁, (byte_spans hm).1 hfirst, (byte_spans hm).1 hlow⟩
  · rintro ⟨⟨onTrue, offset⟩ | ⟨onTrue, offset, hge, hle⟩, rfl, h⟩
    · obtain ⟨htrue, hnear, hbits⟩ := branchByte_bits onTrue true offset
      refine Reader.bind_eq_ok_iff.2 ⟨_, a', (byte_spans hm).2 h, ?_⟩
      dsimp only at htrue hnear hbits ⊢
      rw [htrue, hnear, hbits]
      rfl
    · obtain ⟨a₁, hfirst, hlow⟩ := (Memory.spans_cons hm).1 h
      have hn : (offset % 0x4000).toNat < 0x4000 := by omega
      obtain ⟨htrue, hnear, hbits⟩ := branchByte_bits onTrue false
        (Fin.ofNat 64 ((offset % 0x4000).toNat / 256))
      refine Reader.bind_eq_ok_iff.2 ⟨_, a₁, (byte_spans hm).2 hfirst, ?_⟩
      dsimp only at htrue hnear hbits ⊢
      rw [htrue, hnear, hbits]
      refine Reader.bind_eq_ok_iff.2 ⟨_, a', (byte_spans hm).2 hlow, ?_⟩
      rw [(high_low_iff hn).2 ⟨rfl, rfl⟩, (signed_iff hn).2 ⟨hge, hle, rfl⟩]
      rfl

/-! ## The tail -/

/-- A part that is there or not is read from what is written of it or from nothing. -/
theorem part_spans {α γ : Type} {read : Reader α} {view : γ → α} {bytes : γ → List UInt8}
    (hread : ∀ {a x a'}, read a = .ok (x, a') ↔ ∃ c, view c = x ∧ m.Spans a (bytes c) a')
    (absent : α) {present : Bool} {x : α} : Reader.part present read absent a = .ok (x, a') ↔
      ∃ c : Option γ, c.isSome = present ∧ (c.map view).getD absent = x ∧
        m.Spans a ((c.map bytes).getD []) a' := by
  cases present with
  | false =>
    constructor
    · rintro ⟨⟩
      exact ⟨none, rfl, rfl, Memory.spans_nil.2 rfl⟩
    · rintro ⟨_ | c, hc, rfl, h⟩
      · obtain rfl := Memory.spans_nil.1 h
        rfl
      · cases hc
  | true =>
    refine hread.trans ⟨?_, ?_⟩
    · rintro ⟨c, rfl, h⟩
      exact ⟨some c, rfl, rfl, h⟩
    · rintro ⟨_ | c, hc, rfl, h⟩
      · cases hc
      · exact ⟨c, rfl, h⟩

theorem store_spans (hm : m.size < 0x100000000) {v : UInt8} :
    Reader.byte m a = .ok (v, a') ↔ ∃ c, id c = v ∧ m.Spans a [c] a' := by
  simp [byte_spans hm]

theorem someBranch_spans (hm : m.size < 0x100000000) {b : Option Branch} :
    (some <$> Reader.branch m) a = .ok (b, a') ↔
      ∃ c : BranchCode, some c.branch = b ∧ m.Spans a c.bytes a' := by
  constructor
  · intro h
    obtain ⟨b, hb, rfl⟩ := Reader.map_ok h
    obtain ⟨c, rfl, hc⟩ := (branch_spans hm).1 hb
    exact ⟨c, rfl, hc⟩
  · rintro ⟨c, rfl, h⟩
    have hb := (branch_spans hm).2 ⟨c, rfl, h⟩
    show (Reader.branch m a >>= fun p => pure (some p.1, p.2)) = _
    rw [hb]
    rfl

/-- What comes behind the operands of an opcode. -/
structure TailCode (s : Script) (m : Memory) (op : Op) where
  text : Option (TextCode s m)
  store : Option UInt8
  branch : Option BranchCode
  text_isSome : text.isSome = op.info.hasText
  store_isSome : store.isSome = op.info.stores
  branch_isSome : branch.isSome = op.info.branches

def TailCode.bytes {op : Op} (c : TailCode s m op) : List UInt8 :=
  (c.text.map (·.bytes)).getD [] ++ ((c.store.map fun v => [v]).getD [] ++
    (c.branch.map (·.bytes)).getD [])

/-- The instruction of a head and a tail, from `a` up to `next`. -/
def TailCode.instruction {op : Op} (c : TailCode s m op) (head : Instruction.Head)
    (a next : Address) : Instruction where
  address := a
  form := head.form
  family := head.family
  number := head.number
  op := op
  operands := head.operands
  storeTo := c.store.getD 0
  branch := c.branch.map (·.branch)
  text := (c.text.map (·.text)).getD []
  next := next

theorem readTail_spans (hm : m.size < 0x100000000) {address : Address} {head : Instruction.Head}
    {op : Op} {i : Instruction} : Instruction.readTail s m address head op a = .ok (i, a') ↔
      ∃ c : TailCode s m op, c.instruction head address a' = i ∧ m.Spans a c.bytes a' := by
  constructor
  · intro h
    obtain ⟨text, a₁, htext, h⟩ := Reader.bind_eq_ok_iff.1 h
    obtain ⟨storeTo, a₂, hstore, h⟩ := Reader.bind_eq_ok_iff.1 h
    obtain ⟨branch, a₃, hbranch, h⟩ := Reader.bind_eq_ok_iff.1 h
    cases h
    obtain ⟨t, ht, rfl, hspan₁⟩ := (part_spans (text_spans hm) []).1 htext
    obtain ⟨v, hv, rfl, hspan₂⟩ := (part_spans (store_spans hm) 0).1 hstore
    obtain ⟨b, hb, rfl, hspan₃⟩ := (part_spans (someBranch_spans hm) none).1 hbranch
    refine ⟨⟨t, v, b, ht, hv, hb⟩, ?_, ?_⟩
    · cases v <;> cases b <;> rfl
    · exact (Memory.spans_append hm).2 ⟨a₁, hspan₁, (Memory.spans_append hm).2 ⟨a₂, hspan₂, hspan₃⟩⟩
  · rintro ⟨⟨t, v, b, ht, hv, hb⟩, rfl, h⟩
    obtain ⟨a₁, hspan₁, h⟩ := (Memory.spans_append hm).1 h
    obtain ⟨a₂, hspan₂, hspan₃⟩ := (Memory.spans_append hm).1 h
    have htext := (part_spans (text_spans hm) []).2 ⟨t, ht, rfl, hspan₁⟩
    have hstore := (part_spans (store_spans hm) 0).2 ⟨v, hv, rfl, hspan₂⟩
    have hbranch := (part_spans (someBranch_spans hm) none).2 ⟨b, hb, rfl, hspan₃⟩
    refine Reader.bind_eq_ok_iff.2 ⟨_, a₁, htext, Reader.bind_eq_ok_iff.2 ⟨_, a₂, hstore, ?_⟩⟩
    refine Reader.bind_eq_ok_iff.2 ⟨_, a', hbranch, ?_⟩
    cases v <;> cases b <;> rfl

/-! ## Instructions -/

/-- An instruction that the version has, with the operands it needs. -/
structure Code (s : Script) (m : Memory) where
  head : HeadCode
  op : Op
  tail : TailCode s m op
  named : Op.ofNumber? head.family head.number = some op
  available : op.info.minVersion ≤ s.version
  enough : op.info.minOperands ≤ head.operands.length

namespace Code

def bytes (c : Code s m) (filler : Nat → OperandKind) : List UInt8 :=
  c.head.bytes filler ++ c.tail.bytes

/-- The bytes of the instruction with nothing but omitted operands behind an omitted one. -/
def standard (c : Code s m) : List UInt8 := c.bytes fun _ => .omitted

/-- The instruction as it is decoded at `a`. -/
def instruction (c : Code s m) (a : Address) : Instruction :=
  c.tail.instruction c.head.head a (UInt32.ofNat (a.toNat + c.standard.length))

theorem length_bytes (c : Code s m) (filler : Nat → OperandKind) :
    (c.bytes filler).length = c.standard.length := by
  have htypes : (c.head.types filler).length = (c.head.types fun _ => .omitted).length := by
    cases c.head <;> rfl
  simp [bytes, standard, HeadCode.bytes, HeadCode.rest, htypes]

/-- No opcode starts like the instructions of later versions. -/
theorem lead_ne_extended (c : Code s m) : c.head.lead.byte ≠ Instruction.extendedOpcode := by
  obtain ⟨head, op, tail, named, -, -⟩ := c
  dsimp only
  cases head with
  | long number first second =>
    have : ∀ x y (n : Fin 32), (Lead.long x y n).byte ≠ Instruction.extendedOpcode := by
      decide +kernel
    exact this _ _ _
  | bare number =>
    -- this form could express it, but there is no such opcode
    have : ∀ n : Fin 16, (Lead.short .omitted n).byte = Instruction.extendedOpcode → n = 14 := by
      decide +kernel
    intro h
    obtain rfl := this number h
    cases named
  | short number operand =>
    have : ∀ n : Fin 16, (Lead.short operand.kind n).byte ≠ Instruction.extendedOpcode := by
      have := operand.kind_ne_omitted
      cases hk : operand.kind with
      | omitted => exact absurd hk this
      | large | small | var => decide +kernel
    exact this _
  | variadic many number operands atMost =>
    have : ∀ x (n : Fin 32), (Lead.variadic x n).byte ≠ Instruction.extendedOpcode := by
      decide +kernel
    exact this _ _

end Code

theorem opOf_eq_ok_iff {opcode : UInt8} {head : Instruction.Head} {op : Op} :
    Instruction.opOf s opcode head = .ok op ↔
      Op.ofNumber? head.family head.number = some op ∧ op.info.minVersion ≤ s.version ∧
        op.info.minOperands ≤ head.operands.length := by
  constructor
  · intro h
    obtain ⟨hnamed, havailable, henough⟩ := Instruction.opOf_ok h
    exact ⟨hnamed, UInt8.not_lt.1 havailable, henough⟩
  · rintro ⟨hnamed, havailable, henough⟩
    simp only [Instruction.opOf, hnamed, UInt8.not_lt.2 havailable, Nat.not_lt.2 henough, if_false]

/-- The decoder gives what is written. -/
theorem decode_iff_code (hm : m.size < 0x100000000) {i : Instruction} :
    Instruction.decode s m a = .ok i ↔ ∃ (c : Code s m) (filler : Nat → OperandKind),
      c.instruction a = i ∧ m.Holds a.toNat (c.bytes filler) := by
  rw [Instruction.decode_ok_iff]
  constructor
  · rintro ⟨opcode, head, a₁, a₂, hbyte, -, hhead, hop, htail⟩
    obtain ⟨lead, rfl⟩ := Lead.exists_byte opcode
    obtain ⟨h, filler, rfl, rfl, hspan₁⟩ := (readHead_spans hm).1 hhead
    obtain ⟨t, hi, hspan₂⟩ := (readTail_spans hm).1 htail
    obtain ⟨hnamed, havailable, henough⟩ := opOf_eq_ok_iff.1 hop
    -- the parts that have been read, put together again
    let c : Code s m := ⟨h, i.op, t, hnamed, havailable, h.length_operands ▸ henough⟩
    have hspan : m.Spans a (c.bytes filler) a₂ :=
      (Memory.spans_cons hm).2 ⟨a + 1,
        (byte_spans hm).1 (Reader.byte_ok_iff.2 ⟨hbyte, rfl⟩),
        (Memory.spans_append hm).2 ⟨a₁, hspan₁, hspan₂⟩⟩
    refine ⟨c, filler, ?_, hspan.1⟩
    have hnext : a₂ = UInt32.ofNat (a.toNat + c.standard.length) := by
      rw [← c.length_bytes filler, ← hspan.2, UInt32.ofNat_toNat]
    rw [← hi, hnext]
    rfl
  · rintro ⟨c, filler, rfl, h⟩
    have hspan := h.spans hm
    rw [c.length_bytes] at hspan
    obtain ⟨a₀, hlead, h⟩ := (Memory.spans_cons hm).1 hspan
    obtain ⟨a₁, hrest, htail⟩ := (Memory.spans_append hm).1 h
    obtain ⟨hbyte, rfl⟩ := Reader.byte_ok_iff.1 ((byte_spans hm).2 hlead)
    refine ⟨c.head.lead.byte, c.head.head, a₁, UInt32.ofNat (a.toNat + c.standard.length), hbyte,
      c.lead_ne_extended, ?_, ?_, ?_⟩
    · exact (readHead_spans hm).2 ⟨c.head, filler, rfl, rfl, hrest⟩
    · exact opOf_eq_ok_iff.2 ⟨c.named, c.available, c.head.length_operands ▸ c.enough⟩
    · exact (readTail_spans hm).2 ⟨c.tail, rfl, htail⟩

/-- **The decoder accepts the grammar and nothing else**, in a memory whose end has an address.
Whatever bytes of a described instruction stand in memory, they are decoded to it, up to the address
behind them.  And whatever is decoded stands there: the bytes up to its end, which lies in memory,
are those of such an instruction. -/
theorem decode_grammar (s : Script) {m : Memory} (hm : m.size < 0x100000000) (a : Address) :
    (∀ (c : Code s m) (filler : Nat → OperandKind), m.Holds a.toNat (c.bytes filler) →
      Instruction.decode s m a = .ok (c.instruction a) ∧
        (c.instruction a).next.toNat = a.toNat + (c.bytes filler).length) ∧
    (∀ i, Instruction.decode s m a = .ok i → a.toNat < i.next.toNat ∧ i.next.toNat ≤ m.size ∧
      ∃ (c : Code s m) (filler : Nat → OperandKind), i = c.instruction a ∧
        i.next.toNat = a.toNat + (c.bytes filler).length ∧ m.Holds a.toNat (c.bytes filler)) := by
  have hnext (c : Code s m) (filler : Nat → OperandKind) (h : m.Holds a.toNat (c.bytes filler)) :
      (c.instruction a).next.toNat = a.toNat + (c.bytes filler).length := by
    rw [← (h.spans hm).2, c.length_bytes]
    rfl
  constructor
  · intro c filler h
    exact ⟨(decode_iff_code hm).2 ⟨c, filler, rfl, h⟩, hnext c filler h⟩
  · intro i hi
    obtain ⟨c, filler, rfl, h⟩ := (decode_iff_code hm).1 hi
    have hpos : 0 < (c.bytes filler).length := by simp [Code.bytes, HeadCode.bytes]
    have hfits := h.fits
    rw [hnext c filler h]
    exact ⟨by omega, by omega, c, filler, rfl, rfl, h⟩

/-- A memory that ends with an instruction. -/
def branchingMemory : Memory := ⟨#[0, 0xC1, 0x1B, 0x12, 0x34, 5, 0, 0x3F, 0xFE]⟩

/-- Compares three operands of three kinds, and branches back. -/
def branchBack : Code ⟨3, none⟩ branchingMemory where
  head := .variadic false 1 [.large 0x1234, .byte ⟨false, 5⟩, .byte ⟨true, 0⟩] (by decide)
  op := .je
  tail := ⟨none, none, some (.far false (-2) (by decide) (by decide)), rfl, rfl, rfl⟩
  named := rfl
  available := by decide
  enough := by decide

theorem decode_branchBack : branchingMemory.size < 0x100000000 ∧
    branchingMemory.Holds 1 branchBack.standard ∧
    Instruction.decode ⟨3, none⟩ branchingMemory 1 = .ok (branchBack.instruction 1) ∧
    (branchBack.instruction 1).next.toNat ≤ branchingMemory.size := by
  have hm : branchingMemory.size < 0x100000000 := by decide
  have hholds : branchingMemory.Holds 1 branchBack.standard := by decide
  obtain ⟨haccepts, honly⟩ := decode_grammar ⟨3, none⟩ hm 1
  obtain ⟨hdecode, -⟩ := haccepts branchBack _ hholds
  exact ⟨hm, hholds, hdecode, (honly _ hdecode).2.1⟩

end Grammar

end ZCode
