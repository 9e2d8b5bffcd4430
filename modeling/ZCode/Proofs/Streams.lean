/-
  Output streams: where the text goes that a story prints.

  * `StreamOp` are the operations of a story that concern its streams, and `Routed` says what each of
    them sends where: to the innermost open table, to the screen, or nowhere.
  * `Routed.Fits` is what a story has to see to: its open tables lie in dynamic memory behind the
    header and apart from each other.
  * `Machine.Tracks` relates a machine to what was routed.  Every operation keeps it (`Tracks.step`),
    and so does every sequence of them (`Tracks.run`).
  * `streams_route` draws the conclusions.
-/
import ZCode.Proofs.Bounds
import ZCode.Proofs.Encoding

namespace ZCode

/-! ## Operations and what they route -/

/-- What a story does that concerns its streams.  A store stands for whatever else it writes. -/
inductive StreamOp where
  | print (text : List Char)
  | openTable (table : Address)
  | closeTable
  | screen (on : Bool)
  | store (a : Address) (v : UInt8)
  deriving DecidableEq, Repr

/-- An open table and the text it has received. -/
structure OpenTable where
  table : Address
  text : List Char := []
  deriving DecidableEq, Repr

/-- The text that was printed so far, by the place it went to. -/
structure Routed where
  /-- The open tables, the innermost first. -/
  tables : List OpenTable := []
  screenOff : Bool
  /-- What reached the screen. -/
  shown : List Char := []
  deriving DecidableEq, Repr

namespace OpenTable

/-- The address behind the table: a word for its length, then the text. -/
def stop (o : OpenTable) : Nat := o.table.toNat + 2 + o.text.length

theorem stop_append (o : OpenTable) (text : List Char) :
    { o with text := o.text ++ text : OpenTable }.stop = o.stop + text.length := by
  simp [stop, Nat.add_assoc]

/-- The tables have no byte in common. -/
def Apart (o p : OpenTable) : Prop := o.stop ≤ p.table.toNat ∨ p.stop ≤ o.table.toNat

instance : DecidableRel Apart := fun _ _ => inferInstanceAs (Decidable (_ ∨ _))

/-- The byte is none of the table's. -/
def Spares (n : Nat) (o : OpenTable) : Prop := n < o.table.toNat ∨ o.stop ≤ n

instance (n : Nat) (o : OpenTable) : Decidable (Spares n o) := inferInstanceAs (Decidable (_ ∨ _))

theorem Apart.spares {o p : OpenTable} (h : o.Apart p) {n : Nat} (hlow : p.table.toNat ≤ n)
    (hhigh : n < p.stop) : o.Spares n := by
  unfold Apart at h
  unfold Spares
  omega

end OpenTable

namespace Routed

/-- At most 16 tables are open, and they lie between the header and `base`, apart from each other. -/
def Fits (base : Nat) (r : Routed) : Prop :=
  r.tables.length ≤ 16 ∧ (∀ o ∈ r.tables, 64 ≤ o.table.toNat ∧ o.stop ≤ base) ∧
    r.tables.Pairwise OpenTable.Apart

instance (base : Nat) (r : Routed) : Decidable (r.Fits base) :=
  inferInstanceAs (Decidable (_ ∧ _ ∧ _))

end Routed

namespace StreamOp

/-- The operation as the machine carries it out. -/
def run : StreamOp → Run Unit
  | .print text => Machine.print text
  | .openTable t => Machine.outputStream 3 (some t.toNat)
  | .closeTable => Machine.outputStream (-3) none
  | .screen on => Machine.outputStream (if on then 1 else -1) none
  | .store a v => Machine.writeByte a v

/-- What the operation adds to the text that was printed. -/
def route : StreamOp → Routed → Routed
  | .print text, r =>
    match r.tables with
    | o :: outer => { r with tables := { o with text := o.text ++ text } :: outer }
    | [] => if r.screenOff then r else { r with shown := r.shown ++ text }
  | .openTable t, r => { r with tables := { table := t } :: r.tables }
  | .closeTable, r => { r with tables := r.tables.tail }
  | .screen on, r => { r with screenOff := !on }
  | .store _ _, r => r

/-- Only an open table is closed, and nothing is written into one but text. -/
def Possible (base : Nat) : StreamOp → Routed → Prop
  | .closeTable, r => r.tables ≠ []
  | .store a _, r => 64 ≤ a.toNat ∧ a.toNat < base ∧ ∀ o ∈ r.tables, o.Spares a.toNat
  | _, _ => True

instance (base : Nat) : (op : StreamOp) → (r : Routed) → Decidable (op.Possible base r)
  | .closeTable, _ => inferInstanceAs (Decidable (_ ≠ _))
  | .store _ _, _ => inferInstanceAs (Decidable (_ ∧ _ ∧ _))
  | .print _, _ | .openTable _, _ | .screen _, _ => inferInstanceAs (Decidable True)

/-- Some operations, one after the other. -/
def runAll : List StreamOp → Run Unit
  | [] => return ()
  | op :: ops => do
    op.run
    runAll ops

def routeAll (ops : List StreamOp) (r : Routed) : Routed := ops.foldl (fun r op => op.route r) r

/-- All operations are possible, and the open tables fit at every moment. -/
def Admissible (base : Nat) : List StreamOp → Routed → Prop
  | [], _ => True
  | op :: ops, r => op.Possible base r ∧ (op.route r).Fits base ∧ Admissible base ops (op.route r)

instance decidableAdmissible (base : Nat) :
    (ops : List StreamOp) → (r : Routed) → Decidable (Admissible base ops r)
  | [], _ => inferInstanceAs (Decidable True)
  | op :: ops, r =>
    have := decidableAdmissible base ops (op.route r)
    inferInstanceAs (Decidable (_ ∧ _ ∧ _))

theorem runAll_append (before after : List StreamOp) {z w : Machine}
    (h : runAll before z = .ok () w) : runAll (before ++ after) z = runAll after w := by
  induction before generalizing z with
  | nil =>
    cases h
    rfl
  | cons op ops ih =>
    obtain ⟨_, u, hu, hops⟩ := ok_of_bind h
    exact (bind_ok hu).trans (ih hops)

theorem admissible_append {base : Nat} {before after : List StreamOp} {r : Routed} :
    Admissible base (before ++ after) r ↔
      Admissible base before r ∧ Admissible base after (routeAll before r) := by
  induction before generalizing r with
  | nil => simp [Admissible, routeAll]
  | cons op ops ih => simp [Admissible, ih, routeAll, and_assoc]

end StreamOp

theorem Routed.Fits.close {base : Nat} {r : Routed} (h : r.Fits base) :
    (StreamOp.closeTable.route r).Fits base := by
  obtain ⟨hcount, hinside, hapart⟩ := h
  refine ⟨?_, fun o ho => hinside o (List.mem_of_mem_tail ho), hapart.tail⟩
  show r.tables.tail.length ≤ 16
  rw [List.length_tail]
  omega

/-! ## Characters in tables -/

/-- The byte under which a table keeps a character: 13 for a new line, a code that prints as the
character, or a question mark if no code does. -/
inductive Kept : Char → UInt8 → Prop
  | newLine : Kept '\n' 13
  | coded {c : Char} {code : UInt8} : Zscii.text (UInt16.ofNat code.toNat) = .ok [c] → Kept c code
  | unknown {c : Char} : (∀ code, Zscii.text code ≠ .ok [c]) → Kept c 63

/-- A character that is printed for some code has one. -/
theorem Zscii.code?_of_text {c : Char} {code : UInt16} (h : Zscii.text code = .ok [c])
    (hc : c ≠ '\n') : (Zscii.code? c).isSome := by
  rw [Zscii.isSome_code?]
  unfold Zscii.text at h
  dsimp only at h
  split at h
  · cases h
  split at h
  · cases h
    exact absurd rfl hc
  split at h
  · rename_i hascii
    cases h
    have hvalid : code.toNat.isValidChar := .inl (by omega)
    have hchar : (Char.ofNat code.toNat).toNat = code.toNat := by
      unfold Char.ofNat
      rw [dif_pos hvalid]
      rfl
    rw [hchar]
    exact .inl hascii
  split at h
  · cases h
  split at h
  · rename_i hextra
    cases h
    exact .inr (List.mem_of_getElem? hextra)
  · cases h

theorem kept_tableCode (c : Char) : Kept c (Machine.tableCode c) := by
  unfold Machine.tableCode
  split
  · rename_i hc
    rw [hc]
    exact .newLine
  · rename_i hc
    cases hcode : Zscii.code? c with
    | some code => exact .coded (Zscii.text_of_code? hcode)
    | none =>
      refine .unknown fun code htext => ?_
      have := Zscii.code?_of_text htext hc
      rw [hcode] at this
      cases this

/-! ## Calls of the screen -/

namespace OutputCall

/-- The text of a call. -/
def spoken : OutputCall → List Char
  | .print text => text.toList
  | .newLine => ['\n']
  | .status _ | .flush => []

/-- The call prints a new line, or a text that is not empty and holds none. -/
inductive Plain : OutputCall → Prop
  | newLine : Plain .newLine
  | print {text : String} : text ≠ "" → '\n' ∉ text.toList → Plain (.print text)

end OutputCall

/-- The calls that were added are plain and together say `text`. -/
def Sends (calls calls' : Array OutputCall) (text : List Char) : Prop :=
  ∃ sent : List OutputCall, calls'.toList = calls.toList ++ sent ∧
    sent.flatMap OutputCall.spoken = text ∧ ∀ call ∈ sent, call.Plain

namespace Sends
variable {calls calls' calls'' : Array OutputCall}

theorem refl (calls : Array OutputCall) : Sends calls calls [] :=
  ⟨[], by simp, rfl, by simp⟩

theorem trans {text text' : List Char} (h : Sends calls calls' text) (h' : Sends calls' calls'' text') :
    Sends calls calls'' (text ++ text') := by
  obtain ⟨sent, hcalls, hspoken, hplain⟩ := h
  obtain ⟨sent', hcalls', hspoken', hplain'⟩ := h'
  refine ⟨sent ++ sent', ?_, ?_, ?_⟩
  · rw [hcalls', hcalls, List.append_assoc]
  · rw [List.flatMap_append, hspoken, hspoken']
  · intro call hcall
    exact (List.mem_append.1 hcall).elim (hplain call) (hplain' call)

theorem push {call : OutputCall} (h : call.Plain) (calls : Array OutputCall) :
    Sends calls (calls.push call) call.spoken :=
  ⟨[call], by simp, by simp, by simpa using h⟩

end Sends

theorem sends_sendLine {line : List Char} (h : '\n' ∉ line) (calls : Array OutputCall) :
    Sends calls (Machine.sendLine calls line) line.reverse := by
  unfold Machine.sendLine
  split
  · rename_i hempty
    rw [List.isEmpty_iff.1 hempty]
    exact .refl calls
  · rename_i hne
    have hplain : (OutputCall.print (String.ofList line.reverse)).Plain := by
      refine .print (fun h0 => hne ?_) (by simpa using h)
      have := congrArg String.toList h0
      simpa using this
    simpa [OutputCall.spoken] using Sends.push hplain calls

/-- Lines are sent without loss, and new lines between them. -/
theorem sends_sendText (text : List Char) {line : List Char} (h : '\n' ∉ line)
    (calls : Array OutputCall) :
    Sends calls (Machine.sendText calls line text) (line.reverse ++ text) := by
  induction text generalizing line calls with
  | nil => simpa [Machine.sendText] using sends_sendLine h calls
  | cons c text ih =>
    unfold Machine.sendText
    split
    · rename_i hc
      have hline := (sends_sendLine h calls).trans (.push .newLine _)
      simpa [OutputCall.spoken, hc] using hline.trans (ih List.not_mem_nil _)
    · rename_i hc
      have hline : '\n' ∉ c :: line := by simpa [eq_comm] using ⟨hc, h⟩
      simpa using ih hline calls

/-! ## Bytes of tables -/

namespace Memory

/-- The memory with bytes put from `n` on. -/
def putBytes (m : Memory) (n : Nat) : List UInt8 → Memory
  | [] => m
  | b :: bytes => (m.put n b).putBytes (n + 1) bytes

theorem size_putBytes (m : Memory) (n : Nat) (bytes : List UInt8) :
    (m.putBytes n bytes).size = m.size := by
  induction bytes generalizing m n with
  | nil => rfl
  | cons b bytes ih => rw [putBytes, ih, size_put]

theorem get_putBytes_of_spared {m : Memory} {n k : Nat} {bytes : List UInt8}
    (h : k < n ∨ n + bytes.length ≤ k) : (m.putBytes n bytes).get k = m.get k := by
  induction bytes generalizing m n with
  | nil => rfl
  | cons b bytes ih =>
    rw [List.length_cons] at h
    rw [putBytes, ih (by omega), get_put_of_ne (by omega)]

theorem get_putBytes {m : Memory} {n k : Nat} {bytes : List UInt8} {b : UInt8}
    (hsize : n + bytes.length ≤ m.size) (h : bytes[k]? = some b) :
    (m.putBytes n bytes).get (n + k) = b := by
  induction bytes generalizing m n k with
  | nil => cases h
  | cons b' bytes ih =>
    rw [List.length_cons] at hsize
    cases k with
    | zero =>
      cases h
      rw [putBytes, get_putBytes_of_spared (by omega), Nat.add_zero, get_put_self (by omega)]
    | succ k =>
      rw [putBytes, show n + (k + 1) = n + 1 + k by omega]
      exact ih (by rw [size_put]; omega) h

theorem get_putWord_of_spared {m : Memory} {n k : Nat} (h : k < n ∨ n + 2 ≤ k) (w : UInt16) :
    (m.putWord n w).get k = m.get k := by
  rw [putWord, get_put_of_ne (by omega), get_put_of_ne (by omega)]

theorem size_putWord (m : Memory) (n : Nat) (w : UInt16) : (m.putWord n w).size = m.size := by
  rw [putWord, size_put, size_put]

theorem getWord_putWord {m : Memory} {n : Nat} (h : n + 2 ≤ m.size) (w : UInt16) :
    (m.putWord n w).getWord n = w := by
  rw [getWord, putWord, get_put_of_ne (by omega), get_put_self (by omega),
    get_put_self (by rw [size_put]; omega), wordOf_bytes]

end Memory

namespace OpenTable

/-- The table as a stream of the machine. -/
def stream (o : OpenTable) : TableStream := ⟨o.table, UInt16.ofNat o.text.length⟩

theorem stream_push (o : OpenTable) (c : Char) :
    { o with text := o.text ++ [c] : OpenTable }.stream =
      { o.stream with length := o.stream.length + 1 } := by
  simp [stream]

/-- Text that fits below `65536` has a length and an end that do not wrap around. -/
theorem toNat_end {o : OpenTable} (h : o.stop < 65536) :
    (o.stream.table + 2 + o.stream.length.toUInt32).toNat = o.stop := by
  unfold stop at h ⊢
  simp only [stream, UInt32.toNat_add, UInt16.toNat_toUInt32, UInt16.toNat_ofNat']
  simp
  omega

/-- The text of the table stands in memory. -/
def Written (m : Memory) (o : OpenTable) : Prop :=
  ∀ k c, o.text[k]? = some c → m.get (o.table.toNat + 2 + k) = Machine.tableCode c

/-- Writes elsewhere leave the text alone. -/
theorem Written.congr {m m' : Memory} {o : OpenTable} (h : o.Written m)
    (hm : ∀ n, o.table.toNat + 2 ≤ n → n < o.stop → m'.get n = m.get n) : o.Written m' := by
  intro k c hk
  have hlt : k < o.text.length := (List.getElem?_eq_some_iff.1 hk).1
  rw [hm _ (by omega) (by unfold stop; omega)]
  exact h k c hk

theorem Written.append {m : Memory} {o : OpenTable} (h : o.Written m) {text : List Char}
    (hsize : o.stop + text.length ≤ m.size) :
    { o with text := o.text ++ text : OpenTable }.Written
      (m.putBytes o.stop (text.map Machine.tableCode)) := by
  intro k c hk
  dsimp only at hk ⊢
  by_cases hold : k < o.text.length
  · rw [List.getElem?_append_left hold] at hk
    rw [Memory.get_putBytes_of_spared (by unfold stop; omega)]
    exact h k c hk
  · rw [List.getElem?_append_right (by omega)] at hk
    have hplace : o.table.toNat + 2 + k = o.stop + (k - o.text.length) := by
      unfold stop
      omega
    rw [hplace]
    exact Memory.get_putBytes (by simpa using hsize) (by simp [hk])

end OpenTable

namespace Machine
variable {z : Machine}

/-- Dynamic memory ends within memory, at an address that a word can hold. -/
structure Roomy (z : Machine) : Prop where
  inside : z.story.protection.staticBase.toNat ≤ z.memory.size
  short : z.story.protection.staticBase.toNat < 65536

theorem edit_ok {e : Story → Edit Unit} {m : Memory} (h : e z.story z.memory = .ok () m) :
    edit e z = .ok () { z with memory := m } := by
  simp only [edit, h]

theorem writeByte_ok (hz : z.Roomy) {a : Address} (hlow : 64 ≤ a.toNat)
    (hhigh : a.toNat < z.story.protection.staticBase.toNat) (v : UInt8) :
    writeByte a v z = .ok () { z with memory := z.memory.put a.toNat v } := by
  have hsize := hz.inside
  refine edit_ok ?_
  rw [Protection.writeByte_eq, Protection.checkWrite_of_le hlow, if_pos hhigh]
  dsimp only
  rw [Memory.setByte_eq, if_pos (by omega)]

theorem writeWord_put (hz : z.Roomy) {a : Address} (hlow : 64 ≤ a.toNat)
    (hhigh : a.toNat + 2 ≤ z.story.protection.staticBase.toNat) (w : UInt16) :
    writeWord a w z = .ok () { z with memory := z.memory.putWord a.toNat w } := by
  have hsize := hz.inside
  have hshort := hz.short
  have hnext : (a + 1).toNat = a.toNat + 1 := by
    rw [UInt32.toNat_add]
    exact Nat.mod_eq_of_lt (by simp; omega)
  have hlow' : 64 ≤ (a + 1).toNat := by omega
  refine edit_ok ?_
  rw [Protection.writeWord_eq, Protection.checkWrite_of_le hlow, Protection.checkWrite_of_le hlow',
    if_pos (by omega), if_pos (by omega)]
  dsimp only
  rw [Memory.setWord_eq, if_pos (by omega)]

/-- Text for a table with room for it is appended. -/
theorem printToTable_ok (text : List Char) {o : OpenTable} {outer : List TableStream} (hz : z.Roomy)
    (htables : z.streams.tables = o.stream :: outer) (hlow : 64 ≤ o.table.toNat)
    (hhigh : o.stop + text.length ≤ z.story.protection.staticBase.toNat) :
    printToTable text z = .ok () { z with
      memory := z.memory.putBytes o.stop (text.map tableCode)
      streams := { z.streams with
        tables := { o with text := o.text ++ text : OpenTable }.stream :: outer } } := by
  induction text generalizing z o with
  | nil =>
    rw [List.append_nil, ← htables]
    rfl
  | cons c text ih =>
    rw [List.length_cons] at hhigh
    have hshort := hz.short
    have haddress : (o.stream.table + 2 + o.stream.length.toUInt32).toNat = o.stop :=
      o.toNat_end (by omega)
    have hwrite := writeByte_ok hz (a := o.stream.table + 2 + o.stream.length.toUInt32)
      (by rw [haddress]; unfold OpenTable.stop; omega) (by rw [haddress]; omega) (tableCode c)
    rw [haddress] at hwrite
    let o' : OpenTable := { o with text := o.text ++ [c] }
    let y : Machine := { z with
      memory := z.memory.put o.stop (tableCode c)
      streams := { z.streams with tables := o'.stream :: outer } }
    have hstop : o'.stop = o.stop + 1 := o.stop_append [c]
    have hy : y.Roomy := ⟨by simpa [y] using hz.inside, hshort⟩
    have hroom : o'.stop + text.length ≤ y.story.protection.staticBase.toNat := by
      rw [hstop]
      exact Nat.le_trans (by omega) hhigh
    unfold printToTable
    rw [get_bind, htables]
    dsimp only
    rw [bind_ok hwrite, modify_bind, ← o.stream_push c]
    refine (ih (z := y) (o := o') hy rfl hlow hroom).trans ?_
    rw [hstop, List.append_assoc]
    rfl

theorem ofInt_address (a : Address) : UInt32.ofInt a.toNat = a := by
  have := a.toNat_lt
  have hmod : ((a.toNat : Int) % 4294967296).toNat = a.toNat := by omega
  show UInt32.ofNat ((a.toNat : Int) % 4294967296).toNat = a
  rw [hmod, UInt32.ofNat_toNat]

/-! ## Steps and runs -/

/-- The machine, started from `origin`, has sent what was routed. -/
structure Tracks (origin : Machine) (r : Routed) (z : Machine) : Prop where
  story : z.story = origin.story
  size : z.memory.size = origin.memory.size
  fits : r.Fits origin.story.protection.staticBase.toNat
  screenOff : z.streams.screenOff = r.screenOff
  tables : z.streams.tables = r.tables.map OpenTable.stream
  written : ∀ o ∈ r.tables, o.Written z.memory
  sent : Sends origin.output z.output r.shown

namespace Tracks
variable {origin : Machine} {r : Routed}

theorem roomy (h : Tracks origin r z) (ho : origin.Roomy) : z.Roomy :=
  ⟨by rw [h.story, h.size]; exact ho.inside, by rw [h.story]; exact ho.short⟩

/-- Text goes to the innermost table, or to the screen if there is none. -/
theorem print (h : Tracks origin r z) (ho : origin.Roomy) (text : List Char)
    (hfits : ((StreamOp.print text).route r).Fits origin.story.protection.staticBase.toNat) :
    ∃ w, Machine.print text z = .ok () w ∧ Tracks origin ((StreamOp.print text).route r) w := by
  obtain ⟨tables, screenOff, shown⟩ := r
  unfold Machine.print
  rw [get_bind, h.tables, h.screenOff]
  cases tables with
  | nil =>
    cases screenOff with
    | true => exact ⟨z, rfl, h⟩
    | false =>
      refine ⟨{ z with output := sendText z.output [] text }, rfl, ?_⟩
      exact { h with sent := h.sent.trans (sends_sendText text List.not_mem_nil z.output) }
  | cons o outer =>
    have hz := h.roomy ho
    have ⟨_, hinside, hapart⟩ := hfits
    obtain ⟨hlow, hhigh⟩ := hinside _ List.mem_cons_self
    rw [OpenTable.stop_append, ← h.story] at hhigh
    refine ⟨_, printToTable_ok text hz h.tables hlow hhigh, ?_⟩
    refine { h with fits := hfits, size := ?_, tables := rfl, written := ?_ }
    · rw [← h.size, Memory.size_putBytes]
    -- The table with its new text is still apart from the outer ones, so these keep theirs.
    · intro p hp
      rcases List.mem_cons.1 hp with rfl | hp
      · exact (h.written o List.mem_cons_self).append (Nat.le_trans hhigh hz.inside)
      · refine (h.written p (List.mem_cons_of_mem o hp)).congr fun n hn hn' => ?_
        have hspares : n < o.table.toNat ∨ o.stop + text.length ≤ n := by
          rw [← OpenTable.stop_append]
          exact ((List.pairwise_cons.1 hapart).1 p hp).spares (by omega) hn'
        have hle : o.table.toNat ≤ o.stop := by
          unfold OpenTable.stop
          omega
        apply Memory.get_putBytes_of_spared
        rw [List.length_map]
        omega

/-- A table is opened if there are not too many. -/
theorem openTable (h : Tracks origin r z) (t : Address)
    (hfits : ((StreamOp.openTable t).route r).Fits origin.story.protection.staticBase.toNat) :
    ∃ w, (StreamOp.openTable t).run z = .ok () w ∧
      Tracks origin ((StreamOp.openTable t).route r) w := by
  have hcount : ¬ Streams.maxTables ≤ z.streams.tables.length := by
    have := hfits.1
    rw [h.tables, List.length_map]
    simp only [StreamOp.route, List.length_cons] at this
    unfold Streams.maxTables
    omega
  have hrun : (StreamOp.openTable t).run z = selectTable t z := by
    show selectTable (UInt32.ofInt t.toNat) z = _
    rw [ofInt_address]
  let w : Machine :=
    { z with streams := { z.streams with tables := { table := t } :: z.streams.tables } }
  have hselect : selectTable t z = .ok () w := by
    unfold selectTable
    rw [get_bind, if_neg hcount]
    rfl
  refine ⟨w, hrun.trans hselect, { h with fits := hfits, tables := ?_, written := ?_ }⟩
  · show { table := t } :: z.streams.tables = _
    rw [h.tables]
    rfl
  · intro o ho
    rcases List.mem_cons.1 ho with rfl | ho
    · rintro k c ⟨⟩
    · exact h.written o ho

/-- A table is closed with its length in front of its text. -/
theorem closeTable (h : Tracks origin r z) (ho : origin.Roomy) {o : OpenTable}
    {outer : List OpenTable} (hr : r.tables = o :: outer) :
    ∃ w, StreamOp.closeTable.run z = .ok () w ∧ Tracks origin (StreamOp.closeTable.route r) w ∧
      o.Written w.memory ∧ w.memory.word o.table = .ok (UInt16.ofNat o.text.length) := by
  obtain ⟨tables, screenOff, shown⟩ := r
  cases hr
  obtain ⟨-, hinside, hapart⟩ := h.fits
  obtain ⟨hlow, hhigh⟩ := hinside o List.mem_cons_self
  have hz := h.roomy ho
  let y : Machine := { z with streams := { z.streams with tables := outer.map OpenTable.stream } }
  have hword : o.table.toNat + 2 ≤ y.story.protection.staticBase.toNat := by
    show _ ≤ z.story.protection.staticBase.toNat
    rw [h.story]
    exact Nat.le_trans (by unfold OpenTable.stop; omega) hhigh
  have hsize : o.table.toNat + 2 ≤ z.memory.size := Nat.le_trans hword hz.inside
  have hrun : StreamOp.closeTable.run z = .ok () { y with
      memory := z.memory.putWord o.table.toNat (UInt16.ofNat o.text.length) } := by
    show deselectTable z = _
    unfold deselectTable
    rw [get_bind, h.tables]
    exact (writeWord_put (z := y) ⟨hz.inside, hz.short⟩ hlow hword _)
  refine ⟨_, hrun, { h with fits := h.fits.close, size := ?_, tables := rfl, written := ?_ }, ?_, ?_⟩
  · rw [← h.size]
    exact Memory.size_putWord ..
  · intro p hp
    refine (h.written p (List.mem_cons_of_mem o hp)).congr fun n hn hn' => ?_
    have := ((List.pairwise_cons.1 hapart).1 p hp).spares (n := n) (by omega) hn'
    unfold OpenTable.Spares OpenTable.stop at this
    exact Memory.get_putWord_of_spared (by omega) _
  · refine (h.written o List.mem_cons_self).congr fun n hn _ => ?_
    exact Memory.get_putWord_of_spared (.inr hn) _
  · rw [Memory.word_eq, Memory.size_putWord, if_pos hsize, Memory.getWord_putWord hsize]

/-- A store elsewhere leaves the tables alone. -/
theorem store (h : Tracks origin r z) (ho : origin.Roomy) {a : Address} (v : UInt8)
    (hpossible : (StreamOp.store a v).Possible origin.story.protection.staticBase.toNat r) :
    ∃ w, (StreamOp.store a v).run z = .ok () w ∧ Tracks origin r w := by
  obtain ⟨hlow, hhigh, hspares⟩ := hpossible
  rw [← h.story] at hhigh
  refine ⟨_, writeByte_ok (h.roomy ho) hlow hhigh v, { h with size := ?_, written := ?_ }⟩
  · rw [← h.size, Memory.size_put]
  · intro o hmem
    refine (h.written o hmem).congr fun n hn hn' => Memory.get_put_of_ne ?_ _ _
    have := hspares o hmem
    unfold OpenTable.Spares at this
    omega

/-- **Each operation sends its text where it is routed.** -/
theorem step (h : Tracks origin r z) (ho : origin.Roomy) {op : StreamOp}
    (hpossible : op.Possible origin.story.protection.staticBase.toNat r)
    (hfits : (op.route r).Fits origin.story.protection.staticBase.toNat) :
    ∃ w, op.run z = .ok () w ∧ Tracks origin (op.route r) w := by
  cases op with
  | print text => exact h.print ho text hfits
  | openTable t => exact h.openTable t hfits
  | closeTable =>
    obtain ⟨o, outer, hr⟩ := List.exists_cons_of_ne_nil hpossible
    obtain ⟨w, hrun, hw, -⟩ := h.closeTable ho hr
    exact ⟨w, hrun, hw⟩
  | screen on =>
    refine ⟨{ z with streams := { z.streams with screenOff := !on } }, ?_, { h with screenOff := rfl }⟩
    cases on <;> rfl
  | store a v => exact h.store ho v hpossible

/-- **So do sequences of operations.** -/
theorem run {ops : List StreamOp} (h : Tracks origin r z) (ho : origin.Roomy)
    (hops : StreamOp.Admissible origin.story.protection.staticBase.toNat ops r) :
    ∃ w, StreamOp.runAll ops z = .ok () w ∧ Tracks origin (StreamOp.routeAll ops r) w := by
  induction ops generalizing r z with
  | nil => exact ⟨z, rfl, h⟩
  | cons op ops ih =>
    obtain ⟨hpossible, hfits, hrest⟩ := hops
    obtain ⟨u, hu, htracks⟩ := h.step ho hpossible hfits
    obtain ⟨w, hw, htracks'⟩ := ih htracks hrest
    exact ⟨w, (bind_ok hu).trans hw, htracks'⟩

/-- Where no table is open, nothing has been routed yet. -/
theorem start (h : z.streams.tables = []) : Tracks z { screenOff := z.streams.screenOff } z :=
  { story := rfl, size := rfl, screenOff := rfl, tables := h
    fits := ⟨Nat.zero_le _, by simp, .nil⟩
    written := by simp
    sent := .refl _ }

end Tracks

theorem roomy_of_load {image : Memory} (hload : Story.load image = .ok z.story)
    (hsize : z.memory.size = image.size) : z.Roomy := by
  obtain ⟨-, hread, -⟩ := Story.load_ok hload
  obtain ⟨-, -, hinside⟩ := Header.read_ok hread
  exact ⟨hsize ▸ hinside, Header.tables_lt hread z.story.header.staticBase (by simp)⟩

theorem Reachable.roomy {image : Memory} {story : Story} (hload : Story.load image = .ok story)
    (hz : Reachable story z) : z.Roomy := by
  obtain ⟨himage, -, -⟩ := Story.load_ok hload
  rw [← hz.bounded.runs] at hload
  exact roomy_of_load hload (by rw [hz.bounded.size, himage])

/-- **Output streams route every character to one place.**  In every state that a host can reach and
in which no table is open, operations that keep their open tables in dynamic memory and apart all
succeed.  What the screen receives is the text printed while it was on and no table was open, in
lines that are not empty.  A table that is closed holds the text printed while it was the innermost
one, with its length, which does not wrap around, in front. -/
theorem streams_route {image : Memory} {story : Story} (hload : Story.load image = .ok story)
    (hz : Reachable story z) (hnone : z.streams.tables = []) (ops : List StreamOp)
    (hops : StreamOp.Admissible story.header.staticBase.toNat ops
      { screenOff := z.streams.screenOff }) :
    ∃ w, StreamOp.runAll ops z = .ok () w ∧
      (∃ sent : List OutputCall, w.output.toList = z.output.toList ++ sent ∧
        sent.flatMap OutputCall.spoken =
          (StreamOp.routeAll ops { screenOff := z.streams.screenOff }).shown ∧
        ∀ call ∈ sent, call.Plain) ∧
      ∀ before after : List StreamOp, ops = before ++ .closeTable :: after →
        ∃ o outer u n,
          (StreamOp.routeAll before { screenOff := z.streams.screenOff }).tables = o :: outer ∧
          StreamOp.runAll (before ++ [.closeTable]) z = .ok () u ∧
          u.memory.word o.table = .ok n ∧ n.toNat = o.text.length ∧
          ∀ k c, o.text[k]? = some c → Kept c (u.memory.get (o.table.toNat + 2 + k)) := by
  have hroomy := hz.roomy hload
  have hbase : z.story.protection.staticBase.toNat = story.header.staticBase.toNat := by
    rw [hz.bounded.runs]
    rfl
  rw [← hbase] at hops
  obtain ⟨w, hw, htracks⟩ := (Tracks.start hnone).run hroomy hops
  refine ⟨w, hw, htracks.sent, fun before after hsplit => ?_⟩
  rw [hsplit, StreamOp.admissible_append] at hops
  obtain ⟨hbefore, hopen, -, -⟩ := hops
  obtain ⟨y, hy, htracks⟩ := (Tracks.start hnone).run hroomy hbefore
  obtain ⟨o, outer, hr⟩ := List.exists_cons_of_ne_nil hopen
  obtain ⟨u, hu, -, hwritten, hlength⟩ := htracks.closeTable hroomy hr
  refine ⟨o, outer, u, _, hr, ?_, hlength, ?_, fun k c hk => ?_⟩
  · rw [StreamOp.runAll_append before _ hy]
    exact bind_ok hu
  · have hstop := (htracks.fits.2.1 o (by simp [hr])).2
    have hshort := hroomy.short
    unfold OpenTable.stop at hstop
    rw [UInt16.toNat_ofNat']
    exact Nat.mod_eq_of_lt (by omega)
  · rw [hwritten k c hk]
    exact kept_tableCode c

/-- Two nested tables, and a screen that is switched off for a while. -/
theorem streams_route_small :
    let z := { Machine.start smallStory (Random.ofEntropy 1) with tracing := false }
    let before : List StreamOp := [.print ['a'], .openTable 0x40, .print ['b', '\n'],
      .openTable 0x60, .print ['é', '→'], .closeTable, .print ['c']]
    let after : List StreamOp := [.print ['d', '\n'], .screen false, .print ['e'], .screen true]
    (∃ w sent, StreamOp.runAll (before ++ .closeTable :: after) z = .ok () w ∧
      w.output.toList = sent ∧ sent.flatMap OutputCall.spoken = ['a', 'd', '\n']) ∧
    ∃ u n, StreamOp.runAll (before ++ [.closeTable]) z = .ok () u ∧ u.memory.word 0x40 = .ok n ∧
      n.toNat = 3 ∧ Kept '\n' (u.memory.get 0x43) := by
  intro z before after
  have hz : Reachable smallStory z := .start _ false
  obtain ⟨w, hw, ⟨sent, hsent, hspoken, -⟩, hclosed⟩ :=
    streams_route load_small hz rfl (before ++ .closeTable :: after) (by decide +kernel)
  obtain ⟨o, outer, u, n, ho, hu, hn, hlength, hkept⟩ := hclosed before after rfl
  have htables : (StreamOp.routeAll before { screenOff := false }).tables =
      [⟨0x40, ['b', '\n', 'c']⟩] := by decide +kernel
  obtain ⟨rfl, -⟩ : o = ⟨0x40, ['b', '\n', 'c']⟩ ∧ outer = [] := by
    simpa using ho.symm.trans htables
  refine ⟨⟨w, sent, hw, hsent, hspoken⟩, u, n, hu, hn, hlength, ?_⟩
  exact hkept 1 '\n' rfl

end Machine

end ZCode
