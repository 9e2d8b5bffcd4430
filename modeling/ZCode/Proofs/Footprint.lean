/-
  What instructions are made of.

  * `Machine.Primitive` are the pieces of which opcodes are made: looking at memory or at the frame,
    changing one of them, printing, and so on.  `Op.parts` are the parts of the machine that an opcode
    may change, and it has no pieces that change others.
  * `Composed` are the actions made of pieces, in pairs that differ at most in what they look up where
    nothing is.  Operands are read by such actions (`composed_operandValues`), and opcodes are carried
    out by such actions (`composed_performOn`).
  * What is closed under sequencing (`Closed`) and holds of the pieces then holds of every opcode
    (`Composed.lift`).  The pieces are moves (`Primitive.within`), so that carrying out an instruction is a
    sequence of them (`within_execute`), and they look up nothing that is not there (`Primitive.agrees`).
-/
import ZCode.Proofs.Change
import ZCode.Proofs.Stray

namespace ZCode

/-! ## Composed actions -/

/-- The relation holds of results and faults, and is kept by sequencing. -/
structure Closed (R : ∀ α : Type, Run α → Run α → Prop) : Prop where
  pure : ∀ {α : Type} (a : α), R α (pure a) (pure a)
  throw : ∀ {α : Type} (fault : Fault), R α (throw fault) (throw fault)
  bind : ∀ {α β : Type} {x y : Run α} {f g : α → Run β}, R α x y → (∀ a, R β (f a) (g a)) →
    R β (x >>= f) (y >>= g)

/-- Two actions made of the same pieces, with results that have the property. -/
inductive Composed (P : ∀ α : Type, Run α → Run α → Prop) :
    ∀ {α : Type}, (α → Prop) → Run α → Run α → Prop
  | piece {α : Type} {x y : Run α} : P α x y → Composed P (fun _ => True) x y
  | pure {α : Type} {Q : α → Prop} {a : α} : Q a → Composed P Q (pure a) (pure a)
  | throw {α : Type} {Q : α → Prop} (fault : Fault) : Composed P Q (throw fault) (throw fault)
  | bind {α β : Type} {Q : β → Prop} {x y : Run α} {f g : α → Run β} :
      Composed P (fun _ => True) x y → (∀ a, Composed P Q (f a) (g a)) →
      Composed P Q (x >>= f) (y >>= g)

namespace Composed

variable {P R : ∀ α : Type, Run α → Run α → Prop} {α : Type} {Q : α → Prop} {x y : Run α}

/-- **What is closed under sequencing and holds of the pieces holds of what is made of them.** -/
theorem lift (hR : Closed R) (hP : ∀ {α : Type} {x y : Run α}, P α x y → R α x y)
    (h : Composed P Q x y) : R α x y := by
  induction h with
  | piece h => exact hP h
  | pure _ => exact hR.pure _
  | throw fault => exact hR.throw fault
  | bind _ _ ihx ihf => exact hR.bind ihx ihf

/-- What comes behind a fault is not reached. -/
theorem throw_bind {β : Type} (fault : Fault) (f g : β → Run α) :
    Composed P Q (MonadExcept.throw fault >>= f) (MonadExcept.throw fault >>= g) := by
  show Composed P Q (MonadExcept.throw fault) (MonadExcept.throw fault)
  exact .throw fault

theorem gives (h : Composed P Q x y) : Gives Q y := by
  induction h with
  | piece _ => exact fun _ _ _ _ => trivial
  | pure ha => exact .pure ha
  | throw fault => exact fun _ _ _ h => nomatch h
  | bind _ _ _ ihf => exact .bind ihf

end Composed

namespace Machine

theorem closed_within (R : Machine → Machine → Prop) [IsPreorder Machine R] :
    Closed fun _ _ y => Within R y :=
  ⟨.pure, .throw, .bind⟩

theorem closed_agrees (P : Machine → Prop) : Closed fun _ x y => Agrees P x y :=
  ⟨.pure, .throw, .bind⟩

/-! ## Pieces -/

/-- A change of what stands aside while an instruction is carried out. -/
structure Aside where
  pc : Address → Address := id
  state : State → State := id
  pendingRead : Option PendingRead → Option PendingRead := id
  last : Option Instruction → Option Instruction := id
  input : LineInput → LineInput := id
  random : Random → Random := id

/-- The machine with the change made. -/
def Aside.on (c : Aside) (z : Machine) : Machine :=
  { z with pc := c.pc z.pc, state := c.state z.state, pendingRead := c.pendingRead z.pendingRead,
           last := c.last z.last, input := c.input z.input, random := c.random z.random }

/-- Memory holds a header and the entries of all objects. -/
structure Fitted (z : Machine) : Prop where
  header : Header.size ≤ z.memory.size
  image : Header.size ≤ z.story.image.size
  objects : z.story.objects.Fits z.memory.size

end Machine

/-- A part of the machine that instructions change. -/
inductive Part where
  | frame
  | memory
  /-- What is printed, to the screen or to a table. -/
  | text
  /-- Which streams are selected. -/
  | selection
  | random
  deriving DecidableEq

/-- The parts of the machine that an opcode may change. -/
def Op.parts : Op → List Part
  | .bitOr | .bitAnd | .bitNot | .add | .sub | .mul | .div | .mod | .decChk | .incChk | .inc | .dec
  | .store | .load | .pull | .loadw | .loadb | .getSibling | .getChild | .getParent | .getProp
  | .getPropAddr | .getNextProp | .getPropLen => [.frame, .memory]
  | .random => [.frame, .memory, .random]
  | .push | .pop | .retPopped => [.frame]
  | .storew | .storeb | .setAttr | .clearAttr | .insertObj | .removeObj | .putProp => [.memory]
  | .printText | .printReturn | .newLine | .printAddr | .printPaddr | .printObj | .printChar
  | .printNum => [.text]
  | .outputStream => [.selection]
  | _ => []

/-- An action that asks the store is that of a save or a restore, one that asks for a line is that of
a read, one that starts the story again is that of a restart, and one that calls a routine is that of
a call, which says where the result goes. -/
def Action.Of (i : Instruction) : Action → Prop
  | .save j => j = i ∧ i.op = .save
  | .restore j => j = i ∧ i.op = .restore
  | .read _ => i.op = .sread
  | .restart => i.op = .restart
  | .call c => i.op = .call ∧ c.storeTo = i.storeTo
  | .flow _ | .quit => True

namespace Machine

/-- The pieces of instructions that change the given parts only. -/
inductive Primitive (parts : List Part) : ∀ α : Type, Run α → Run α → Prop
  | look {α : Type} {f g : Machine → Except Fault α} : (∀ (c : Aside) (z : Machine), g (c.on z) = g z) →
      (∀ z : Machine, z.Fitted → f z = g z) → Primitive parts α (look f) (look g)
  | frame {α : Type} {g : Frame → Except Fault (α × Frame)} : Part.frame ∈ parts →
      (∀ f a f', g f = .ok (a, f') → f.Near f') → Primitive parts α (onFrame g) (onFrame g)
  | edit {α : Type} {e e' : Story → Edit α} : Part.memory ∈ parts →
      (∀ story size, story.objects.Fits size →
        Agrees (fun m : Memory => m.size = size) (e story) (e' story)) →
      (∀ story, Within story.protection.Writes (e' story)) → Primitive parts α (edit e) (edit e')
  | print (text : List Char) : Part.text ∈ parts → Primitive parts Unit (print text) (print text)
  | outputStream (number : Int) (table : Option Int) : Part.selection ∈ parts →
      Primitive parts Unit (outputStream number table) (outputStream number table)
  | draw (range : Int64) : Part.random ∈ parts → Primitive parts Int64 (draw range) (draw range)
  | send (call : OutputCall) : Primitive parts Unit (send call) (send call)
  | log (entry : LogEntry) : Primitive parts Unit (addLog entry) (addLog entry)

theorem within_draw (range : Int64) : Within Moves (draw range) :=
  Within.get.bind fun _ => (within_book fun _ => rfl).bind fun _ => .pure _

theorem Primitive.within {parts : List Part} {α : Type} {x y : Run α}
    (h : Primitive parts α x y) : Within Moves y := by
  cases h with
  | look => exact within_look _
  | frame _ hnear => exact within_onFrame hnear
  | edit _ _ hwrites => exact within_edit hwrites
  | print text => exact within_print text
  | outputStream number table => exact within_outputStream number table
  | draw range => exact within_draw range
  | send call => exact within_send call
  | log entry => exact within_addLog entry

/-- Moves write bytes of memory, but leave the story and the size of memory as they are. -/
theorem Moves.fitted {z w : Machine} (h : Moves z w) (hz : z.Fitted) : w.Fitted := by
  induction h with
  | refl => exact hz
  | tail _ hm ih =>
    cases hm with
    | book | frame | streams => exact ⟨ih.header, ih.image, ih.objects⟩
    | write hw =>
      have hsize := hw.eqOutside.size
      exact ⟨hsize ▸ ih.header, ih.image, hsize ▸ ih.objects⟩

/-- Neither action of a pair looks up anything that is not there. -/
theorem Primitive.agrees {parts : List Part} {α : Type} {x y : Run α}
    (h : Primitive parts α x y) : Agrees Fitted x y := by
  have hwithin := h.within
  refine fun z hz => ⟨?_, (hwithin z).fitted hz⟩
  cases h with
  | look _ hsame =>
    unfold Machine.look
    rw [hsame z hz]
  | edit _ hsame _ =>
    unfold Machine.edit
    dsimp only
    rw [(hsame z.story z.memory.size hz.objects z.memory rfl).1]
  | frame | print | outputStream | draw | send | log => rfl

/-! ## Variables -/

section
variable {parts : List Part}

theorem composed_look {α : Type} {f g : Machine → Except Fault α}
    (hsees : ∀ (c : Aside) (z : Machine), g (c.on z) = g z)
    (hsame : ∀ z : Machine, z.Fitted → f z = g z) :
    Composed (Primitive parts) (fun _ => True) (look f) (look g) :=
  .piece (.look hsees hsame)

theorem composed_setFrame {g : Frame → Except Fault Frame} (hf : .frame ∈ parts)
    (h : ∀ f f', g f = .ok f' → f.Near f') :
    Composed (Primitive parts) (fun _ => True) (setFrame g) (setFrame g) :=
  .piece (.frame hf (near_of_setFrame h))

theorem composed_pop (hf : .frame ∈ parts) :
    Composed (Primitive parts) (fun _ => True) (onFrame Frame.pop) (onFrame Frame.pop) :=
  .piece (.frame hf fun _ _ _ h => near_of_pop h)

theorem composed_edit {e e' : Story → Edit Unit} (hm : .memory ∈ parts)
    (hsame : ∀ story, e story = e' story)
    (hwrites : ∀ story, Within story.protection.Writes (e' story)) :
    Composed (Primitive parts) (fun _ => True) (edit e) (edit e') :=
  .piece (.edit hm (fun story _ _ => ObjectTable.agrees_writes _ (hsame story) (hwrites story))
    hwrites)

theorem composed_readVariable (s : Stray) (hf : .frame ∈ parts) (v : UInt8) :
    Composed (Primitive parts) (fun _ => True) (@readVariable s v) (@readVariable Stray.usual v) := by
  rw [readVariable_stray s Stray.usual]
  unfold readVariable
  split
  · exact composed_pop hf
  split
  · exact composed_look (fun _ _ => rfl) fun _ _ => rfl
  · exact composed_look (fun _ _ => rfl) fun _ _ => rfl

theorem composed_setVariable (s : Stray) (hf : .frame ∈ parts) (hm : .memory ∈ parts) (v : UInt8)
    (value : UInt16) : Composed (Primitive parts) (fun _ => True)
      (@setVariable s v value) (@setVariable Stray.usual v value) := by
  rw [setVariable_stray s Stray.usual]
  unfold setVariable
  split
  · exact composed_setFrame hf fun _ _ h => near_of_push h
  split
  · exact composed_setFrame hf fun _ _ h => near_of_setLocal h
  · exact composed_edit hm (fun _ => rfl) fun story => story.protection.within_writeWord _ _

theorem composed_readInPlace (s : Stray) (hf : .frame ∈ parts) (v : UInt8) :
    Composed (Primitive parts) (fun _ => True) (@readInPlace s v) (@readInPlace Stray.usual v) := by
  unfold readInPlace
  split
  · exact composed_look (fun _ _ => rfl) fun _ _ => rfl
  · exact composed_readVariable s hf v

theorem composed_setInPlace (s : Stray) (hf : .frame ∈ parts) (hm : .memory ∈ parts) (v : UInt8)
    (value : UInt16) : Composed (Primitive parts) (fun _ => True)
      (@setInPlace s v value) (@setInPlace Stray.usual v value) := by
  unfold setInPlace
  split
  · exact composed_setFrame hf fun _ _ h => near_of_setTop h
  · exact composed_setVariable s hf hm v value

theorem composed_addToVariable (s : Stray) (hf : .frame ∈ parts) (hm : .memory ∈ parts) (v : UInt8)
    (delta : Int) : Composed (Primitive parts) (fun _ => True)
      (@addToVariable s v delta) (@addToVariable Stray.usual v delta) :=
  (composed_readInPlace s hf v).bind fun _ => (composed_setInPlace s hf hm v _).bind fun _ =>
    .pure trivial

theorem composed_meaning (hint : Hint) (raw : UInt16) :
    Composed (Primitive parts) (fun _ => True) (meaning hint raw) (meaning hint raw) := by
  cases hint with
  | signed | packed | plain | address => exact .pure trivial
  | reference =>
    dsimp only [meaning]
    split
    · exact .bind (.throw _) fun _ => .pure trivial
    · exact .pure trivial

theorem composed_operandValue (hf : .frame ∈ parts) (o : Operand) (hint : Hint) :
    Composed (Primitive parts) (fun _ => True) (operandValue o hint) (operandValue o hint) := by
  dsimp only [operandValue]
  split
  · exact .pure trivial
  split
  · split
    · exact .bind (.throw _) fun _ =>
        (composed_readVariable _ hf _).bind fun raw => composed_meaning hint raw
    · exact (composed_readVariable _ hf _).bind fun raw => composed_meaning hint raw
  · exact composed_meaning hint o.value

/-- **Operands are read in pieces**, of which those that change anything pop the stack. -/
theorem composed_operandValues (hf : .frame ∈ parts) (op : Op) (operands : List Operand) (n : Nat) :
    Composed (Primitive parts) (fun _ => True)
      (operandValues op n operands) (operandValues op n operands) := by
  induction operands generalizing n with
  | nil => exact .pure trivial
  | cons o operands ih =>
    exact (composed_operandValue hf o _).bind fun _ => (ih (n + 1)).bind fun _ => .pure trivial

/-! ## Opcodes -/

theorem statusLine_stray (s s' : Stray) {z : Machine} (h : z.Fitted) :
    @statusLine s z = @statusLine s' z := by
  unfold statusLine
  simp only [Story.readGlobal_stray s s', Story.objectName_stray s s' z.story h.objects,
    Memory.isTimeGame_stray s s' h.header]

theorem composed_showStatus (s : Stray) :
    Composed (Primitive parts) (fun _ => True) (@showStatus s) (@showStatus Stray.usual) :=
  (composed_look (f := @statusLine s) (g := @statusLine Stray.usual) (fun _ _ => rfl)
    fun _ hz => statusLine_stray s _ hz).bind fun _ => .piece (.send _)

theorem composed_print (s : Stray) (ht : .text ∈ parts) (text : List Char) :
    Composed (Primitive parts) (fun _ => True) (@print s text) (@print Stray.usual text) := by
  rw [print_stray s Stray.usual]
  exact .piece (.print text ht)

theorem composed_printAt (s : Stray) (ht : .text ∈ parts) (a : Address) :
    Composed (Primitive parts) (fun _ => True) (@printAt s a) (@printAt Stray.usual a) := by
  rw [printAt_stray s Stray.usual]
  exact (composed_look (fun _ _ => rfl) fun _ _ => rfl).bind fun _ => composed_print _ ht _

theorem composed_outputStream (s : Stray) (hpart : .selection ∈ parts) (number : Int)
    (table : Option Int) : Composed (Primitive parts) (fun _ => True)
      (@outputStream s number table) (@outputStream Stray.usual number table) := by
  rw [outputStream_stray s Stray.usual]
  exact .piece (.outputStream number table hpart)

theorem composed_readByte (s : Stray) (a : Address) :
    Composed (Primitive parts) (fun _ => True) (@readByte s a) (@readByte Stray.usual a) := by
  rw [readByte_stray s Stray.usual]
  exact composed_look (fun _ _ => rfl) fun _ _ => rfl

theorem composed_readWord (s : Stray) (a : Address) :
    Composed (Primitive parts) (fun _ => True) (@readWord s a) (@readWord Stray.usual a) := by
  rw [readWord_stray s Stray.usual]
  exact composed_look (fun _ _ => rfl) fun _ _ => rfl

theorem composed_writeByte (s : Stray) (hm : .memory ∈ parts) (a : Address) (v : UInt8) :
    Composed (Primitive parts) (fun _ => True)
      (@writeByte s a v) (@writeByte Stray.usual a v) := by
  rw [writeByte_stray s Stray.usual]
  exact composed_edit hm (fun _ => rfl) fun story => story.protection.within_writeByte a v

theorem composed_writeWord (s : Stray) (hm : .memory ∈ parts) (a : Address) (w : UInt16) :
    Composed (Primitive parts) (fun _ => True)
      (@writeWord s a w) (@writeWord Stray.usual a w) := by
  rw [writeWord_stray s Stray.usual]
  exact composed_edit hm (fun _ => rfl) fun story => story.protection.within_writeWord a w

theorem composed_onObjects {α : Type} {f g : ObjectTable → Memory → Except Fault α}
    (hsame : ∀ (t : ObjectTable) m, t.Fits m.size → f t m = g t m) :
    Composed (Primitive parts) (fun _ => True) (onObjects f) (onObjects g) :=
  composed_look (fun _ _ => rfl) fun z hz => hsame z.story.objects z.memory hz.objects

theorem composed_editObjects {e e' : ObjectTable → Protection → Edit Unit} (hm : .memory ∈ parts)
    (hsame : ∀ (t : ObjectTable) p size, t.Fits size →
      Agrees (fun m : Memory => m.size = size) (e t p) (e' t p))
    (hwrites : ∀ t p, Within p.Writes (e' t p)) :
    Composed (Primitive parts) (fun _ => True) (editObjects e) (editObjects e') :=
  .piece (.edit hm (fun story size hfit => hsame story.objects story.protection size hfit)
    fun story => hwrites story.objects story.protection)

variable {i : Instruction}

theorem composed_goOn : Composed (Primitive parts) (Action.Of i) (goOn i) (goOn i) := .pure trivial

theorem composed_branch (s : Stray) (h : ∀ condition,
      @Instruction.branchOn s i condition = @Instruction.branchOn Stray.usual i condition)
    (condition : Bool) : Composed (Primitive parts) (Action.Of i)
      (@branch s i condition) (@branch Stray.usual i condition) := by
  unfold branch
  rw [h]
  exact .pure trivial

theorem composed_storeResult (s : Stray) (hf : .frame ∈ parts) (hm : .memory ∈ parts) (v : UInt16) :
    Composed (Primitive parts) (Action.Of i)
      (@storeResult s i v) (@storeResult Stray.usual i v) :=
  (composed_setVariable s hf hm _ _).bind fun _ => composed_goOn

theorem composed_storeObject (s : Stray) (hf : .frame ∈ parts) (hm : .memory ∈ parts)
    (h : ∀ condition,
      @Instruction.branchOn s i condition = @Instruction.branchOn Stray.usual i condition)
    (o : UInt16) : Composed (Primitive parts) (Action.Of i)
      (@storeObject s i o) (@storeObject Stray.usual i o) :=
  (composed_setVariable s hf hm _ _).bind fun _ => composed_branch s h _

end

theorem quotient_stray (s s' : Stray) (a : Int) {b : Int} (h : ¬ b = 0) :
    @quotient s a b = @quotient s' a b ∧ @remainder s a b = @remainder s' a b := by
  unfold quotient remainder
  simp only [if_neg h, and_self]

/-- **Every opcode is made of pieces that change its own parts only.**  If it leads to the same places
and the operands that it needs are the same, it is made of the same pieces up to what is looked up
and is not there. -/
theorem composed_performOn (s : Stray) (i : Instruction) (args : List Int) {a b c a' b' c' : Int}
    (hbranch : i.op.info.branches = true → ∀ condition,
      @Instruction.branchOn s i condition = @Instruction.branchOn Stray.usual i condition)
    (hlater : 1 ≤ i.op.info.minOperands → @laterOperands s args = @laterOperands Stray.usual args)
    (ha : 1 ≤ i.op.info.minOperands → a = a') (hb : 2 ≤ i.op.info.minOperands → b = b')
    (hc : 3 ≤ i.op.info.minOperands → c = c') :
    Composed (Primitive i.op.parts) (Action.Of i)
      (@performOn s i args a b c) (@performOn Stray.usual i args a' b' c') := by
  unfold performOn
  generalize hop : i.op = op at hbranch hlater ha hb hc ⊢
  -- an opcode looks at no operands but those it needs
  cases op
  all_goals
    try (have hsame := ha (by decide); subst hsame)
    try (have hsame := hb (by decide); subst hsame)
    try (have hsame := hc (by decide); subst hsame)
  case je =>
    dsimp only
    rw [hlater (by decide)]
    exact composed_branch s (hbranch rfl) _
  case jz | jl | jg | testBits => exact composed_branch s (hbranch rfl) _
  case decChk | incChk =>
    exact (composed_addToVariable s (by decide) (by decide) _ _).bind fun _ =>
      composed_branch s (hbranch rfl) _
  case bitNot | bitOr | bitAnd | add | sub => exact composed_storeResult s (by decide) (by decide) _
  case mul =>
    dsimp only
    split
    · exact .throw_bind _ _ _
    · exact composed_storeResult s (by decide) (by decide) _
  case div | mod =>
    dsimp only
    split
    · exact .throw_bind _ _ _
    · obtain ⟨hquotient, hremainder⟩ := quotient_stray s Stray.usual a ‹_›
      first | rw [hquotient] | rw [hremainder]
      exact composed_storeResult s (by decide) (by decide) _
  case random =>
    exact .bind (.piece (.draw _ (by decide))) fun _ =>
      composed_storeResult s (by decide) (by decide) _
  case store =>
    exact (composed_setInPlace s (by decide) (by decide) _ _).bind fun _ => composed_goOn
  case load =>
    exact (composed_readInPlace s (by decide) _).bind fun _ =>
      composed_storeResult s (by decide) (by decide) _
  case inc | dec =>
    exact (composed_addToVariable s (by decide) (by decide) _ _).bind fun _ => composed_goOn
  case push =>
    exact (composed_setFrame (by decide) fun _ _ h => near_of_push h).bind fun _ => composed_goOn
  case pop => exact (composed_pop (by decide)).bind fun _ => composed_goOn
  case retPopped => exact (composed_pop (by decide)).bind fun _ => .pure trivial
  case pull =>
    exact (composed_pop (by decide)).bind fun _ =>
      (composed_setInPlace s (by decide) (by decide) _ _).bind fun _ => composed_goOn
  case loadw =>
    exact (composed_readWord s _).bind fun _ => composed_storeResult s (by decide) (by decide) _
  case loadb =>
    exact (composed_readByte s _).bind fun _ => composed_storeResult s (by decide) (by decide) _
  case storew => exact (composed_writeWord s (by decide) _ _).bind fun _ => composed_goOn
  case storeb => exact (composed_writeByte s (by decide) _ _).bind fun _ => composed_goOn
  case jin =>
    exact (composed_onObjects fun _ _ hfit => hfit.link_stray s Stray.usual .parent _).bind fun _ =>
      composed_branch s (hbranch rfl) _
  case testAttr =>
    exact (composed_onObjects fun _ _ hfit => hfit.testAttribute_stray s Stray.usual _ _).bind fun _ =>
      composed_branch s (hbranch rfl) _
  case setAttr | clearAttr =>
    exact (composed_editObjects (by decide) (fun _ p _ hfit => hfit.agrees_setAttribute s p _ _ _)
      fun t p => t.within_setAttribute p _ _ _).bind fun _ => composed_goOn
  case insertObj =>
    exact (composed_editObjects (by decide) (fun _ p _ hfit => hfit.agrees_insert s p _ _)
      fun t p => t.within_insert p _ _).bind fun _ => composed_goOn
  case removeObj =>
    exact (composed_editObjects (by decide) (fun _ p _ hfit => hfit.agrees_remove s p _)
      fun t p => t.within_remove p _).bind fun _ => composed_goOn
  case putProp =>
    exact (composed_editObjects (by decide) (fun _ p _ hfit => hfit.agrees_setProperty s p _ _ _)
      fun t p => t.within_setProperty p _ _ _).bind fun _ => composed_goOn
  case getSibling =>
    exact (composed_onObjects fun _ _ hfit => hfit.link_stray s Stray.usual .sibling _).bind fun _ =>
      composed_storeObject s (by decide) (by decide) (hbranch rfl) _
  case getChild =>
    exact (composed_onObjects fun _ _ hfit => hfit.link_stray s Stray.usual .child _).bind fun _ =>
      composed_storeObject s (by decide) (by decide) (hbranch rfl) _
  case getParent =>
    exact (composed_onObjects fun _ _ hfit => hfit.link_stray s Stray.usual .parent _).bind fun _ =>
      composed_storeResult s (by decide) (by decide) _
  case getProp =>
    exact (composed_onObjects fun _ _ hfit => hfit.property_stray s Stray.usual _ _).bind fun _ =>
      composed_storeResult s (by decide) (by decide) _
  case getPropAddr =>
    exact (composed_onObjects fun _ _ hfit => hfit.propertyAddress_stray s Stray.usual _ _).bind fun _ =>
      composed_storeResult s (by decide) (by decide) _
  case getNextProp =>
    exact (composed_onObjects fun _ _ hfit => hfit.nextProperty_stray s Stray.usual _ _).bind fun _ =>
      composed_storeResult s (by decide) (by decide) _
  case getPropLen =>
    exact (composed_look (fun _ _ => rfl) fun z _ =>
      ObjectTable.propertyLength_stray s Stray.usual z.memory _).bind fun _ =>
        composed_storeResult s (by decide) (by decide) _
  case printText | newLine | printNum =>
    exact (composed_print s (by decide) _).bind fun _ => composed_goOn
  case printReturn =>
    exact (composed_print s (by decide) _).bind fun _ =>
      (composed_print s (by decide) _).bind fun _ => .pure trivial
  case printAddr | printPaddr =>
    exact (composed_printAt s (by decide) _).bind fun _ => composed_goOn
  case printObj =>
    exact (composed_look (fun _ _ => rfl) fun z hz =>
      Story.objectName_stray s Stray.usual z.story hz.objects _).bind fun _ =>
        (composed_print s (by decide) _).bind fun _ => composed_goOn
  case printChar =>
    exact (composed_look (fun _ _ => rfl) fun _ _ => rfl).bind fun _ =>
      (composed_print s (by decide) _).bind fun _ => composed_goOn
  case showStatus => exact (composed_showStatus s).bind fun _ => composed_goOn
  case outputStream =>
    exact (composed_outputStream s (by decide) _ _).bind fun _ => composed_goOn
  case verify =>
    exact (composed_look (fun _ _ => rfl) fun _ _ => rfl).bind fun _ =>
      composed_branch s (hbranch rfl) _
  case splitWindow | setWindow | inputStream | soundEffect =>
    exact .bind (.piece (.log _)) fun _ => composed_goOn
  case nop => exact composed_goOn
  case jump | ret | rtrue | rfalse | quit => exact .pure trivial
  case call =>
    dsimp only
    rw [hlater (by decide)]
    exact .pure ⟨hop, rfl⟩
  case restart | sread => exact .pure hop
  case save | restore => exact .pure ⟨rfl, hop⟩

/-- An opcode as it is carried out by the running program. -/
theorem composed_opcode (i : Instruction) (args : List Int) (a b c : Int) :
    Composed (Primitive i.op.parts) (Action.Of i)
      (performOn i args a b c) (performOn i args a b c) :=
  composed_performOn Stray.usual i args (fun _ _ => rfl) (fun _ => rfl) (fun _ => rfl)
    (fun _ => rfl) fun _ => rfl

/-! ## Instructions -/

theorem within_of_composed {parts : List Part} {α : Type} {Q : α → Prop} {x y : Run α}
    (h : Composed (Primitive parts) Q x y) : Within Moves y :=
  h.lift (closed_within Moves) Primitive.within

theorem within_operandValues (op : Op) (operands : List Operand) (n : Nat) :
    Within Moves (operandValues op n operands) :=
  within_of_composed (composed_operandValues (List.mem_singleton.2 rfl) op operands n)

theorem within_setVariable (v : UInt8) (value : UInt16) : Within Moves (setVariable v value) :=
  have hparts : .frame ∈ [Part.frame, .memory] ∧ .memory ∈ [Part.frame, .memory] := by decide
  within_of_composed (composed_setVariable Stray.usual hparts.1 hparts.2 v value)

theorem within_showStatus : Within Moves showStatus :=
  have h : Composed (Primitive []) (fun _ => True) showStatus showStatus := composed_showStatus _
  within_of_composed h

theorem within_performOn (i : Instruction) (args : List Int) (a b c : Int) :
    Within Moves (performOn i args a b c) :=
  within_of_composed (composed_opcode i args a b c)

/-- **Carrying out an instruction is a sequence of moves.** -/
theorem within_execute (i : Instruction) : Within Moves (execute i) :=
  (within_operandValues i.op i.operands 0).bind fun args => within_performOn i args _ _ _

theorem gives_performOn (i : Instruction) (args : List Int) (a b c : Int) :
    Gives (Action.Of i) (performOn i args a b c) :=
  (composed_opcode i args a b c).gives

end Machine

end ZCode
