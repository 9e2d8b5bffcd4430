/-
  The buffers of a read.

  * The words of a line and their places are no longer than the line (`Dictionary.mem_split`), so that
    their numbers fit into bytes.
  * A read puts a list of bytes into each of its buffers (`Machine.completeRead_ok`): the line with a 0
    behind it, and the number of words with a block for each (`Token.block`).
  * `Machine.step_read_buffers` says what memory holds after the step that takes a line, and that no
    byte outside is touched.
-/
import Mathlib.Data.List.Forall2
import ZCode.Proofs.Rereading
import ZCode.Proofs.Streams

namespace ZCode

/-! ## Typed lines -/

/-- The text of a line, without the carriage returns and new lines at its end. -/
def LineText (line text : List Char) : Prop :=
  ∃ ending, line = text ++ ending ∧ (∀ c ∈ ending, c = '\r' ∨ c = '\n') ∧
    ∀ c ∈ text.getLast?, c ≠ '\r' ∧ c ≠ '\n'

/-- What is left when characters are taken off the end. -/
theorem exists_ending (p : Char → Bool) (text : List Char) :
    ∃ ending, text = (text.reverse.dropWhile p).reverse ++ ending ∧ (∀ c ∈ ending, p c = true) ∧
      ∀ c ∈ (text.reverse.dropWhile p).reverse.getLast?, p c = false := by
  refine ⟨(text.reverse.takeWhile p).reverse, ?_, ?_, ?_⟩
  · rw [← List.reverse_append, List.takeWhile_append_dropWhile, List.reverse_reverse]
  · intro c hc
    exact List.mem_takeWhile_imp (List.mem_reverse.1 hc)
  · intro c hc
    rw [List.getLast?_reverse] at hc
    have hnot := List.head?_dropWhile_not p text.reverse
    rwa [Option.mem_def.1 hc] at hnot

theorem lineText_trimLineEnd (line : List Char) : LineText line (Machine.trimLineEnd line) := by
  obtain ⟨ending, hline, hending, hlast⟩ :=
    exists_ending (fun c => decide (c = '\r' ∨ c = '\n')) line
  refine ⟨ending, hline, by simpa using hending, fun c hc => ?_⟩
  simpa using hlast c hc

/-- The byte under which a read stores a character: a code that prints as it, or a question mark for a
new line and for a character without a code. -/
inductive Typed : Char → UInt8 → Prop
  | coded {c : Char} {code : UInt8} : c ≠ '\n' → Zscii.text (UInt16.ofNat code.toNat) = .ok [c] →
      Typed c code
  | unknown {c : Char} : (c = '\n' ∨ ∀ code, Zscii.text code ≠ .ok [c]) → Typed c 63

theorem typed_code (c : Char) : Typed c ((Zscii.code? c).getD Zscii.unknown) := by
  cases hcode : Zscii.code? c with
  | some code =>
    refine .coded ?_ (Zscii.text_of_code? hcode)
    rintro rfl
    cases hcode
  | none =>
    refine .unknown (or_iff_not_imp_left.2 fun hc code htext => ?_)
    have hsome := Zscii.code?_of_text htext hc
    rw [hcode] at hsome
    cases hsome

/-! ## Tokens -/

namespace Dictionary

/-- A separator's word has at most two bytes. -/
theorem length_encode_byte (b : UInt8) : (Utf8.encode [Char.ofNat b.toNat]).length ≤ 2 := by
  have hlt := b.toNat_lt
  have hvalid : b.toNat.isValidChar := .inl (by omega)
  have hchar : (Char.ofNat b.toNat).val.toNat = b.toNat := by
    unfold Char.ofNat
    rw [dif_pos hvalid]
    rfl
  have htwo : (Char.ofNat b.toNat).val ≤ 0x7FF := by
    rw [UInt32.le_iff_toNat_le, hchar]
    exact Nat.le_of_lt (Nat.lt_trans hlt (by decide))
  simp only [Utf8.encode, List.flatMap_cons, List.flatMap_nil, List.append_nil,
    String.length_utf8EncodeChar]
  unfold Char.utf8Size
  dsimp only
  split
  · omega
  · exact Nat.le_of_eq (if_pos htwo)

theorem mem_wordBefore {run : List UInt8} {position : Nat} {t : Token} (hrun : run.length ≤ position)
    (ht : t ∈ wordBefore run position) : t.word.length = run.length ∧ t.start < position := by
  unfold wordBefore at ht
  split at ht
  · cases ht
  · rename_i hne
    have hpos : 0 < run.length := List.length_pos_iff.2 (by simpa using hne)
    rw [List.mem_singleton.1 ht]
    exact ⟨List.length_reverse, by dsimp only; omega⟩

theorem mem_splitFrom {separators run line : List UInt8} {position : Nat} {t : Token}
    (hrun : run.length ≤ position) (ht : t ∈ splitFrom separators position run line) :
    t.word.length ≤ max 2 (run.length + line.length) ∧ t.start < position + line.length := by
  induction line generalizing position run with
  | nil =>
    obtain ⟨hlength, hstart⟩ := mem_wordBefore hrun ht
    exact ⟨by rw [hlength]; exact Nat.le_max_right .., hstart⟩
  | cons b line ih =>
    have hbefore (h : t ∈ wordBefore run position) :
        t.word.length ≤ max 2 (run.length + (b :: line).length) ∧
          t.start < position + (b :: line).length := by
      obtain ⟨hlength, hstart⟩ := mem_wordBefore hrun h
      rw [List.length_cons]
      omega
    have hbehind (h : t ∈ splitFrom separators (position + 1) [] line) :
        t.word.length ≤ max 2 (run.length + (b :: line).length) ∧
          t.start < position + (b :: line).length := by
      have := ih (Nat.zero_le _) h
      rw [List.length_nil] at this
      rw [List.length_cons]
      omega
    unfold splitFrom at ht
    split at ht
    · rcases List.mem_append.1 ht with h | h
      · exact hbefore h
      · exact hbehind h
    split at ht
    · rcases List.mem_append.1 ht with h | h
      · exact hbefore h
      rcases List.mem_cons.1 h with rfl | h
      · have := length_encode_byte b
        rw [List.length_cons]
        dsimp only
        omega
      · exact hbehind h
    · have := ih (by rw [List.length_cons]; omega) ht
      rw [List.length_cons] at this ⊢
      omega

/-- **The words of a line, and their places, are within the line.**  Only the word of a separator may
be longer, by a byte. -/
theorem mem_split {d : Dictionary} {line : List UInt8} {t : Token} (ht : t ∈ d.split line) :
    t.word.length ≤ max 2 line.length ∧ t.start < line.length := by
  simpa using mem_splitFrom (Nat.zero_le _) ht

end Dictionary

/-- The block of a token in the parse buffer: its entry, the length of its word, and its place. -/
def Token.block (story : Story) (t : Token) : List UInt8 :=
  let entry := (Machine.entryOf story t.word).toUInt16
  [highByte entry, lowByte entry, UInt8.ofNat t.word.length, UInt8.ofNat (t.start + 1)]

theorem Token.length_blocks (story : Story) (tokens : List Token) :
    (tokens.flatMap (block story)).length = 4 * tokens.length := by
  induction tokens with
  | nil => rfl
  | cons t tokens ih =>
    rw [List.flatMap_cons, List.length_append, ih, List.length_cons]
    simp only [block, List.length_cons, List.length_nil]
    omega

/-- The blocks stand one behind the other. -/
theorem Token.getElem?_blocks {story : Story} {tokens : List Token} {t : Token} {i j : Nat}
    (ht : tokens[i]? = some t) (hj : j < 4) :
    (tokens.flatMap (block story))[4 * i + j]? = (t.block story)[j]? := by
  have hlength (t : Token) : (t.block story).length = 4 := rfl
  induction tokens generalizing i with
  | nil => cases ht
  | cons t' tokens ih =>
    rw [List.flatMap_cons]
    cases i with
    | zero =>
      obtain rfl : t' = t := by simpa using ht
      rw [List.getElem?_append_left (by rw [hlength]; omega), Nat.mul_zero, Nat.zero_add]
    | succ i =>
      rw [List.getElem?_append_right (by rw [hlength]; omega), hlength,
        show 4 * (i + 1) + j - 4 = 4 * i + j by omega]
      exact ih (by simpa using ht)

theorem Token.putBytes_block (story : Story) (t : Token) (m : Memory) (n : Nat)
    (bytes : List UInt8) :
    m.putBytes n (t.block story ++ bytes) =
      (((m.putWord n (Machine.entryOf story t.word).toUInt16).put (n + 2)
        (UInt8.ofNat t.word.length)).put (n + 3) (UInt8.ofNat (t.start + 1))).putBytes (n + 4) bytes := by
  simp only [block, Memory.putWord, List.cons_append, List.nil_append, Memory.putBytes]

/-! ## Room -/

/-- The bytes from `first` to `last` lie above the header, and the program may read and write them. -/
structure Protection.Opens (p : Protection) (first last : Nat) : Prop where
  above : Header.size ≤ first
  dynamic : last < p.staticBase.toNat
  readable : p.highBase = 0 ∨ last < p.highBase.toNat

/-- There is room in the text buffer, and both buffers are the program's own and have no byte in
common.  The first byte of each says how much it can hold. -/
structure PendingRead.Fits (r : PendingRead) (p : Protection) (m : Memory) : Prop where
  room : 1 ≤ (m.get r.textBuffer.toNat).toNat
  text : p.Opens r.textBuffer.toNat (r.textBuffer.toNat + (m.get r.textBuffer.toNat).toNat)
  parse : p.Opens r.parseBuffer.toNat
    (r.parseBuffer.toNat + 1 + 4 * (m.get r.parseBuffer.toNat).toNat)
  apart : r.textBuffer.toNat + (m.get r.textBuffer.toNat).toNat < r.parseBuffer.toNat ∨
    r.parseBuffer.toNat + 1 + 4 * (m.get r.parseBuffer.toNat).toNat < r.textBuffer.toNat

theorem toNat_add_of_lt {a b : Address} (h : a.toNat + b.toNat < 65536) :
    (a + b).toNat = a.toNat + b.toNat := by
  rw [UInt32.toNat_add]
  exact Nat.mod_eq_of_lt (by omega)

namespace Machine

variable {z : Machine} {r : PendingRead} {a : Address}

theorem Roomy.withMemory {m : Memory} (h : z.Roomy) (hm : m.size = z.memory.size) :
    Roomy { z with memory := m } :=
  ⟨by rw [hm]; exact h.inside, h.short⟩

theorem readByte_ok {last : Nat} (hz : z.Roomy) (h : z.story.protection.Opens a.toNat last)
    (hlast : a.toNat ≤ last) : readByte a z = .ok (z.memory.get a.toNat) z := by
  have hinside := hz.inside
  have hdynamic := h.dynamic
  have hread : z.story.protection.checkRead a 1 = .ok () := by
    unfold Protection.checkRead
    rw [if_neg]
    rintro ⟨hhigh, hle⟩
    rw [UInt32.add_sub_cancel, UInt32.le_iff_toNat_le] at hle
    rcases h.readable with h0 | hlt
    · exact hhigh h0
    · omega
  have hbyte : z.story.protection.readByte z.memory a = .ok (z.memory.get a.toNat) := by
    rw [Protection.readByte, hread]
    exact Memory.byte_ok (by omega)
  simp only [readByte, look, hbyte]

/-! ## Write loops -/

theorem writeBytes_ok (bytes : List UInt8) (hz : z.Roomy) (hlow : 64 ≤ a.toNat)
    (hhigh : a.toNat + bytes.length ≤ z.story.protection.staticBase.toNat) :
    writeBytes a bytes z = .ok () { z with memory := z.memory.putBytes a.toNat bytes } := by
  induction bytes generalizing a z with
  | nil => rfl
  | cons b bytes ih =>
    rw [List.length_cons] at hhigh
    have hshort := hz.short
    have hnext : (a + 1).toNat = a.toNat + 1 := toNat_add_of_lt (b := 1) (by simp; omega)
    unfold writeBytes
    rw [bind_ok (writeByte_ok hz hlow (by omega) b),
      ih (hz.withMemory (Memory.size_put ..)) (by omega) (by dsimp only; omega), hnext]
    rfl

theorem writeTokens_ok (tokens : List Token) (hz : z.Roomy) (hlow : 64 ≤ a.toNat)
    (hhigh : a.toNat + 4 * tokens.length ≤ z.story.protection.staticBase.toNat) :
    writeTokens a tokens z =
      .ok () { z with memory := z.memory.putBytes a.toNat (tokens.flatMap (Token.block z.story)) } := by
  induction tokens generalizing a z with
  | nil => rfl
  | cons t tokens ih =>
    rw [List.length_cons] at hhigh
    have hshort := hz.short
    have h2 : (a + 2).toNat = a.toNat + 2 := toNat_add_of_lt (b := 2) (by simp; omega)
    have h3 : (a + 3).toNat = a.toNat + 3 := toNat_add_of_lt (b := 3) (by simp; omega)
    have h4 : (a + 4).toNat = a.toNat + 4 := toNat_add_of_lt (b := 4) (by simp; omega)
    unfold writeTokens
    rw [get_bind, bind_ok (writeWord_put hz hlow (by omega) _)]
    have hz₁ := hz.withMemory (Memory.size_putWord z.memory a.toNat (entryOf z.story t.word).toUInt16)
    rw [bind_ok (writeByte_ok hz₁ (by omega) (by dsimp only; omega) _)]
    have hz₂ := hz₁.withMemory (Memory.size_put _ (a + 2).toNat (UInt8.ofNat t.word.length))
    rw [bind_ok (writeByte_ok hz₂ (by omega) (by dsimp only; omega) _)]
    have hz₃ := hz₂.withMemory (Memory.size_put _ (a + 3).toNat (UInt8.ofNat (t.start + 1)))
    rw [ih hz₃ (by omega) (by dsimp only; omega), h2, h3, h4, List.flatMap_cons,
      Token.putBytes_block]

/-! ## The whole read -/

/-- The bytes for the parse buffer, from its second one on. -/
def parsed (story : Story) (tokens : List Token) : List UInt8 :=
  UInt8.ofNat tokens.length :: tokens.flatMap (Token.block story)

theorem length_parsed (story : Story) (tokens : List Token) :
    (parsed story tokens).length = 1 + 4 * tokens.length := by
  rw [parsed, List.length_cons, Token.length_blocks, Nat.add_comm]

theorem completeRead_ok (hz : z.Roomy) (hfits : r.Fits z.story.protection z.memory) (line : String) :
    let codes := (lineCodes line).take ((z.memory.get r.textBuffer.toNat).toNat - 1)
    let tokens := (z.story.dictionary.split codes).take (z.memory.get r.parseBuffer.toNat).toNat
    let typed := z.memory.putBytes (r.textBuffer.toNat + 1) (codes ++ [0])
    completeRead r line z = .ok () { z with
      memory := typed.putBytes (r.parseBuffer.toNat + 1) (parsed z.story tokens) } := by
  intro codes tokens typed
  obtain ⟨hroom, htext, hparse, hapart⟩ := hfits
  have hshort := hz.short
  have hlowT : 64 ≤ r.textBuffer.toNat := htext.above
  have hlowP : 64 ≤ r.parseBuffer.toNat := hparse.above
  have hhighT := htext.dynamic
  have hhighP := hparse.dynamic
  have hcodes : codes.length ≤ (z.memory.get r.textBuffer.toNat).toNat - 1 := List.length_take_le ..
  have htokens : tokens.length ≤ (z.memory.get r.parseBuffer.toNat).toNat := List.length_take_le ..
  have hlength : (codes ++ [0]).length = codes.length + 1 := List.length_append
  have hT : (r.textBuffer + 1).toNat = r.textBuffer.toNat + 1 := toNat_add_of_lt (b := 1) (by simp; omega)
  have hP1 : (r.parseBuffer + 1).toNat = r.parseBuffer.toNat + 1 :=
    toNat_add_of_lt (b := 1) (by simp; omega)
  have hP2 : (r.parseBuffer + 2).toNat = r.parseBuffer.toNat + 2 :=
    toNat_add_of_lt (b := 2) (by simp; omega)
  unfold completeRead
  rw [bind_ok (readByte_ok hz htext (by omega))]
  dsimp only
  rw [if_neg (fun h0 => by rw [h0] at hroom; exact absurd hroom (by decide)),
    bind_ok (writeBytes_ok (codes ++ [0]) hz (by omega) (by omega)), hT]
  -- the text does not reach the capacity of the parse buffer
  have hz₁ := hz.withMemory (Memory.size_putBytes z.memory (r.textBuffer.toNat + 1) (codes ++ [0]))
  have hcapacity : (z.memory.putBytes (r.textBuffer.toNat + 1) (codes ++ [0])).get
      r.parseBuffer.toNat = z.memory.get r.parseBuffer.toNat :=
    Memory.get_putBytes_of_spared (by omega)
  rw [bind_ok (readByte_ok hz₁ hparse (by omega)), get_bind]
  dsimp only
  rw [hcapacity, bind_ok (writeByte_ok hz₁ (by omega) (by dsimp only; omega) _)]
  have hz₂ := hz₁.withMemory (Memory.size_put _ (r.parseBuffer + 1).toNat (UInt8.ofNat tokens.length))
  rw [writeTokens_ok tokens hz₂ (by omega) (by dsimp only; omega), hP1, hP2]
  rfl

/-- What a read of these codes makes of memory. -/
structure Stored (story : Story) (r : PendingRead) (codes : List UInt8) (m m' : Memory) : Prop where
  size : m'.size = m.size
  /-- The codes stand behind the first byte of the text buffer. -/
  text : ∀ j code, codes[j]? = some code → m'.get (r.textBuffer.toNat + 1 + j) = code
  terminator : m'.get (r.textBuffer.toNat + 1 + codes.length) = 0
  /-- There are as many blocks as there are words, or as many as the parse buffer can hold. -/
  count : (m'.get (r.parseBuffer.toNat + 1)).toNat =
    min (m.get r.parseBuffer.toNat).toNat (story.dictionary.split codes).length
  blocks : ∀ j t, j < (m.get r.parseBuffer.toNat).toNat → (story.dictionary.split codes)[j]? = some t →
    m'.getWord (r.parseBuffer.toNat + 2 + 4 * j) = (entryOf story t.word).toUInt16 ∧
    (m'.get (r.parseBuffer.toNat + 2 + 4 * j + 2)).toNat = t.word.length ∧
    (m'.get (r.parseBuffer.toNat + 2 + 4 * j + 3)).toNat = t.start + 1
  rest : ∀ n, n ≤ r.textBuffer.toNat ∨ r.textBuffer.toNat + 1 + codes.length < n →
    n ≤ r.parseBuffer.toNat ∨ r.parseBuffer.toNat + 2 + 4 * min (m.get r.parseBuffer.toNat).toNat
      (story.dictionary.split codes).length ≤ n →
    m'.get n = m.get n

/-- The bytes that a read puts into its buffers are what memory holds afterwards. -/
theorem stored_putBytes {story : Story} {m : Memory} {codes : List UInt8}
    (hfits : r.Fits story.protection m) (hsize : story.protection.staticBase.toNat ≤ m.size)
    (hcodes : codes.length ≤ (m.get r.textBuffer.toNat).toNat - 1) :
    Stored story r codes m ((m.putBytes (r.textBuffer.toNat + 1) (codes ++ [0])).putBytes
      (r.parseBuffer.toNat + 1)
      (parsed story ((story.dictionary.split codes).take (m.get r.parseBuffer.toNat).toNat))) := by
  obtain ⟨hroom, htext, hparse, hapart⟩ := hfits
  have hhighT := htext.dynamic
  have hhighP := hparse.dynamic
  have hcapacity := (m.get r.textBuffer.toNat).toNat_lt
  have hcapacity' := (m.get r.parseBuffer.toNat).toNat_lt
  generalize htokens : (story.dictionary.split codes).take (m.get r.parseBuffer.toNat).toNat = tokens
  have hcount : tokens.length =
      min (m.get r.parseBuffer.toNat).toNat (story.dictionary.split codes).length := by
    rw [← htokens, List.length_take]
  have hlengthT : (codes ++ [0]).length = codes.length + 1 := List.length_append
  have hlengthP := length_parsed story tokens
  -- the text lies outside the parse buffer, and the parse buffer is written last
  have hget {j : Nat} {b : UInt8} (hb : (codes ++ [0])[j]? = some b) :
      ((m.putBytes (r.textBuffer.toNat + 1) (codes ++ [0])).putBytes (r.parseBuffer.toNat + 1)
        (parsed story tokens)).get (r.textBuffer.toNat + 1 + j) = b := by
    have hj := (List.getElem?_eq_some_iff.1 hb).1
    rw [Memory.get_putBytes_of_spared (by omega), Memory.get_putBytes (by omega) hb]
  have hput {j : Nat} {b : UInt8} (hb : (parsed story tokens)[j]? = some b) :
      ((m.putBytes (r.textBuffer.toNat + 1) (codes ++ [0])).putBytes (r.parseBuffer.toNat + 1)
        (parsed story tokens)).get (r.parseBuffer.toNat + 1 + j) = b :=
    Memory.get_putBytes (by rw [Memory.size_putBytes]; omega) hb
  refine ⟨?_, ?_, ?_, ?_, ?_, ?_⟩
  · rw [Memory.size_putBytes, Memory.size_putBytes]
  · intro j code hj
    have hlt := (List.getElem?_eq_some_iff.1 hj).1
    exact hget (by rw [List.getElem?_append_left hlt, hj])
  · exact hget (by simp)
  · rw [hput (j := 0) (b := UInt8.ofNat tokens.length) rfl, ← hcount, UInt8.toNat_ofNat']
    exact Nat.mod_eq_of_lt (by omega)
  · intro j t hj ht
    have htake : tokens[j]? = some t := by rw [← htokens, List.getElem?_take, if_pos hj, ht]
    obtain ⟨hword, hstart⟩ := Dictionary.mem_split (List.mem_of_getElem? ht)
    have hbyte {i : Nat} (hi : i < 4) {b : UInt8} (hb : (t.block story)[i]? = some b) :
        ((m.putBytes (r.textBuffer.toNat + 1) (codes ++ [0])).putBytes (r.parseBuffer.toNat + 1)
          (parsed story tokens)).get (r.parseBuffer.toNat + 2 + 4 * j + i) = b := by
      rw [show r.parseBuffer.toNat + 2 + 4 * j + i = r.parseBuffer.toNat + 1 + (4 * j + i + 1) by omega]
      refine hput ?_
      rw [parsed, List.getElem?_cons_succ, Token.getElem?_blocks htake hi, hb]
    refine ⟨?_, ?_, ?_⟩
    · rw [Memory.getWord, hbyte (i := 1) (by decide) rfl, ← Nat.add_zero (_ + 4 * j),
        hbyte (i := 0) (by decide) rfl, wordOf_bytes]
    · rw [hbyte (i := 2) (by decide) rfl, UInt8.toNat_ofNat']
      exact Nat.mod_eq_of_lt (by omega)
    · rw [hbyte (i := 3) (by decide) rfl, UInt8.toNat_ofNat']
      exact Nat.mod_eq_of_lt (by omega)
  · intro n hn hn'
    rw [Memory.get_putBytes_of_spared (by omega), Memory.get_putBytes_of_spared (by omega)]

/-- **A line that is read fills the buffers, and nothing else changes.**  In every state that a host can
reach and that waits for a line, with buffers that fit, the step that takes a line succeeds.  What is
stored of it is as much as there is room for, in lower case.  The machine goes on behind the
instruction that asked, and the line has left the queue. -/
theorem step_read_buffers {image : Memory} {story : Story} (hload : Story.load image = .ok story)
    (hz : Reachable story z) (hr : z.phase = .waiting r) (hfits : r.Fits story.protection z.memory)
    {line : String} {rest : List String} (hlines : z.input.lines = line :: rest) (answers : Answers) :
    ∃ x i text codes w, (Reachable story x ∧ Awaits x i r z ∧ i.op = .sread) ∧
      LineText line.toList text ∧
      List.Forall₂ Typed ((text.map lowered).take ((z.memory.get r.textBuffer.toNat).toNat - 1)) codes ∧
      step answers z = .ok () w ∧ Stored story r codes z.memory w.memory ∧
      w = { z with memory := w.memory, state := .running, pendingRead := none, pc := i.next,
                   input := { z.input with lines := rest, waiting := false } } := by
  obtain ⟨x, i, hx, hawaits⟩ := awaits_of_waiting hz hr
  obtain ⟨u, hasks, -⟩ := hawaits.asked
  obtain ⟨hop, args, -, hread⟩ := hasks.operands
  obtain ⟨hinside, hshort⟩ := hz.roomy hload
  rw [← hz.bounded.runs] at hfits ⊢
  have hcomplete := completeRead_ok (z := { z with input := { z.input with lines := rest } })
    ⟨hinside, hshort⟩ hfits line
  have hnext : r.next = i.next := by rw [hread]; rfl
  refine ⟨x, i, trimLineEnd line.toList, _, _, ⟨hz.bounded.runs ▸ hx, hawaits, hop⟩,
    lineText_trimLineEnd _, ?_, (step_waiting_ok_iff hr hlines).2 ⟨_, hcomplete, rfl⟩,
    stored_putBytes hfits hinside (List.length_take_le ..), ?_⟩
  · unfold lineCodes
    rw [← List.map_take, ← List.map_take, List.forall₂_map_left_iff, List.forall₂_map_right_iff,
      List.forall₂_same]
    exact fun c _ => typed_code (lowered c)
  · rw [← hnext]
    rfl

theorem load_reading : Story.load Game.readingImage = .ok Game.readingStory :=
  Story.load_ofImage (by decide +kernel)

/-- The text buffer has room for two characters, and the parse buffer for one word. -/
theorem step_read_buffers_reading :
    let noStore : Answers := ⟨.error .noStore, .error .noStore⟩
    let x := { Machine.start Game.readingStory (Random.ofEntropy 1) with tracing := false }
    let z := (HostCall.push "É, x\r\n").run ((HostCall.step noStore).run x)
    let r : PendingRead := ⟨0x63, 0x68, 0x7C⟩
    z.phase = .waiting r ∧ ∃ text codes w, LineText "É, x\r\n".toList text ∧
      List.Forall₂ Typed ((text.map lowered).take 2) codes ∧ step noStore z = .ok () w ∧
      Stored Game.readingStory r codes z.memory w.memory ∧ w.phase = .running := by
  intro noStore x z r
  have hz : Reachable Game.readingStory z := ((Reachable.start _ false).call _).call _
  have hr : z.phase = .waiting r := by decide +kernel
  have htext : (z.memory.get r.textBuffer.toNat).toNat = 3 := by decide +kernel
  have hparse : (z.memory.get r.parseBuffer.toNat).toNat = 1 := by decide +kernel
  have hfits : r.Fits Game.readingStory.protection z.memory := by
    refine ⟨by rw [htext]; decide, ?_, ?_, .inl (by rw [htext]; decide)⟩
    · rw [htext]
      exact ⟨by decide, by decide +kernel, .inl (by decide +kernel)⟩
    · rw [hparse]
      exact ⟨by decide, by decide +kernel, .inl (by decide +kernel)⟩
  have hlines : z.input.lines = ["É, x\r\n"] := by decide +kernel
  obtain ⟨-, _, text, codes, w, -, htext', hcodes, hstep, hstored, hw⟩ :=
    step_read_buffers load_reading hz hr hfits hlines noStore
  rw [htext] at hcodes
  exact ⟨hr, text, codes, w, htext', hcodes, hstep, hstored, by rw [hw]; rfl⟩

end Machine

end ZCode
