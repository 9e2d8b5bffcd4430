/-
  The two readers of text.

  * A text in memory is read word by word up to the one that ends it (`Memory.textWords`), and packed text
    from a list of bytes (`textWordsOf`).  On the bytes of memory, both come to the same words
    (`textWordsOf_slice`).
  * `Memory.TextEnds` says which word is the last one of a text.  The reading ends with it, or at the end of
    memory, after no more rounds than there are words (`textWordsWithin_eq`).
  * `Script.decode_eq_decodeBytes` puts this together, abbreviations included.
-/
import ZCode.Proofs.TextUnits

namespace ZCode

namespace Memory

variable {m : Memory} {seen words : List UInt16} {n next stop : Nat}

/-! ## Bytes of memory -/

/-- The bytes from `n` up to `stop`. -/
def slice (m : Memory) (n stop : Nat) : List UInt8 := (m.bytes.toList.take stop).drop n

theorem slice_eq_cons (hn : n < m.size) (hstop : n < stop) :
    m.slice n stop = m.get n :: m.slice (n + 1) stop := by
  have hsize : n < m.bytes.size := hn
  have hlt : n < (m.bytes.toList.take stop).length := by
    rw [List.length_take, Array.length_toList]
    omega
  unfold slice
  rw [List.drop_eq_getElem_cons hlt]
  simp [get, hsize]

/-! ## Ends of texts -/

/-- The last word of the text at `n` is its word number `j`, counted from 0. -/
structure TextEnds (m : Memory) (n j : Nat) : Prop where
  inside : n + 2 * j + 2 ≤ m.size
  last : endsText (m.getWord (n + 2 * j)) = true
  before : ∀ k < j, endsText (m.getWord (n + 2 * k)) = false

/-- The reading stops behind the last word. -/
theorem textEnds_of_textWordsOnto (h : m.textWordsOnto seen n = .ok (words, next)) :
    ∃ j, m.TextEnds n j ∧ next = n + 2 * j + 2 := by
  fun_induction Memory.textWordsOnto m seen n with
  | case1 seen n hsize w hends =>
    cases h
    exact ⟨0, ⟨hsize, hends, fun k hk => absurd hk (Nat.not_lt_zero k)⟩, rfl⟩
  | case2 seen n hsize w hends ih =>
    obtain ⟨j, ⟨hinside, hlast, hbefore⟩, rfl⟩ := ih h
    have hshift (k : Nat) : n + 2 + 2 * k = n + 2 * (k + 1) := by omega
    simp only [hshift] at hinside hlast hbefore ⊢
    refine ⟨j + 1, ⟨hinside, hlast, fun k hk => ?_⟩, rfl⟩
    cases k with
    | zero => simpa using hends
    | succ k => exact hbefore k (Nat.lt_of_succ_lt_succ hk)
  | case3 => cases h

/-- What keeps a text from being read is the end of memory. -/
theorem textWordsOnto_error {fault : Fault} (h : m.textWordsOnto seen n = .error fault) :
    ∃ a, fault = .access a (.beyondEnd m.size) := by
  fun_induction Memory.textWordsOnto m seen n with
  | case1 => cases h
  | case2 seen n hsize w hends ih => exact ih h
  | case3 seen n hsize =>
    cases h
    exact ⟨_, rfl⟩

/-! ## Two readers -/

/-- The bytes of a text, and whatever stands behind them, are read as memory is. -/
theorem textWordsOf_slice (h : m.textWordsOnto seen n = .ok (words, next)) (hstop : next ≤ stop) :
    words = seen.reverse ++ textWordsOf (m.slice n stop) := by
  fun_induction Memory.textWordsOnto m seen n with
  | case1 seen n hsize w hends =>
    cases h
    have hsame : textWordsOf (m.slice n stop) = [w] := by
      rw [slice_eq_cons (by omega) (by omega), slice_eq_cons (by omega) (by omega), textWordsOf]
      exact if_pos hends
    rw [hsame, List.reverse_cons]
  | case2 seen n hsize w hends ih =>
    obtain ⟨j, -, hnext⟩ := textEnds_of_textWordsOnto h
    have hsame : textWordsOf (m.slice n stop) = w :: textWordsOf (m.slice (n + 2) stop) := by
      rw [slice_eq_cons (by omega) (by omega), slice_eq_cons (by omega) (by omega), textWordsOf]
      exact if_neg hends
    rw [ih h, hsame, List.reverse_cons, List.append_assoc]
    rfl
  | case3 => cases h

/-! ## Rounds -/

/-- What reading has come to after at most this many rounds of the loop, each of which takes a word; none
if it has not come to an end. -/
def textWordsWithin (m : Memory) : Nat → List UInt16 → Nat → Option (Except Fault (List UInt16 × Nat))
  | 0, _, _ => none
  | rounds + 1, seen, n =>
    if n + 2 ≤ m.size then
      let w := m.getWord n
      if endsText w then some (.ok ((w :: seen).reverse, n + 2))
      else m.textWordsWithin rounds (w :: seen) (n + 2)
    else some (.error (.access (UInt32.ofNat n) (.beyondEnd m.size)))

/-- Every round goes two bytes towards the end of memory. -/
theorem textWordsWithin_eq {rounds : Nat} (h : m.size - n < 2 * rounds) :
    m.textWordsWithin rounds seen n = some (m.textWordsOnto seen n) := by
  fun_induction textWordsWithin m rounds seen n with
  | case1 => omega
  | case2 rounds seen n hsize w hends =>
    rw [Memory.textWordsOnto, if_pos hsize]
    exact congrArg some (if_pos hends).symm
  | case3 rounds seen n hsize w hends ih =>
    have hround : m.textWordsOnto seen n = m.textWordsOnto (w :: seen) (n + 2) := by
      rw [Memory.textWordsOnto, if_pos hsize]
      exact if_neg hends
    rw [ih (by omega), hround]
  | case4 rounds seen n hsize => rw [Memory.textWordsOnto, if_neg hsize]

end Memory

namespace Script

variable {s : Script} {m : Memory} {a : Address} {words : List UInt16} {next stop : Nat}

/-- A text whose words can be read is decoded as its bytes are. -/
theorem decode_of_textWords (h : m.textWords a = .ok (words, next)) (hstop : next ≤ stop) :
    s.decode m a = (s.decodeBytes m (m.slice a.toNat stop)).map (·, UInt32.ofNat next) := by
  obtain rfl : words = textWordsOf (m.slice a.toNat stop) := Memory.textWordsOf_slice h hstop
  unfold decode decodeBytes
  rw [h]
  show (s.decodeZChars m _ >>= fun text => pure (text, UInt32.ofNat next)) = _
  cases s.decodeZChars m ((textWordsOf (m.slice a.toNat stop)).flatMap zcharsOf) <;> rfl

/-- The text of an abbreviation is decoded as any other, by a script without abbreviations. -/
theorem abbreviation_eq_decode (s : Script) (m : Memory) (table : Address) (index : Nat) :
    s.abbreviation m table index = do
      let w ← m.word (table + UInt32.ofNat index * 2)
      let (text, _) ← decode ⟨s.version, none⟩ m (Memory.unpacked w.toUInt32)
      return text := by
  unfold abbreviation
  cases m.word (table + UInt32.ofNat index * 2) with
  | error fault => rfl
  | ok w =>
    show (m.textWords (Memory.unpacked w.toUInt32) >>= _) = decode _ m _ >>= _
    unfold decode
    cases m.textWords (Memory.unpacked w.toUInt32) with
    | error fault => rfl
    | ok read =>
      show readZChars s.version none (read.1.flatMap zcharsOf) =
        (readZChars s.version none (read.1.flatMap zcharsOf) >>= _) >>= _
      cases readZChars s.version none (read.1.flatMap zcharsOf) <;> rfl

/-- **The two readers of text agree.**  Reading a text in memory comes to an end exactly if one of its
words in memory ends it.  The address behind it is then the one behind the first such word, and its text
or its fault is that of the packed bytes, whether they are cut there or go on to the end of memory.
Without such a word there is a fault at the end of memory.  No reading takes more rounds than there are
words in memory, and a round more, and the texts of abbreviations are read in the same way.  Memory is one
of fewer than `2 ^ 32` bytes, as addresses are. -/
theorem decode_eq_decodeBytes (s : Script) (m : Memory) (a : Address) :
    let Ends := ∃ j, a.toNat + 2 * j + 2 ≤ m.size ∧ endsText (m.getWord (a.toNat + 2 * j)) = true
    ((∃ words next, m.textWords a = .ok (words, next)) ↔ Ends) ∧
    (Ends → ∃ j, m.TextEnds a.toNat j ∧
      let next := a.toNat + 2 * j + 2
      next ≤ m.size ∧ (m.size < 0x100000000 → (UInt32.ofNat next).toNat = next) ∧
      s.decode m a = (s.decodeBytes m (m.slice a.toNat next)).map (·, UInt32.ofNat next) ∧
      s.decode m a = (s.decodeBytes m (m.slice a.toNat m.size)).map (·, UInt32.ofNat next)) ∧
    (¬ Ends → ∃ b, s.decode m a = .error (.access b (.beyondEnd m.size))) ∧
    (∀ rounds, m.size - a.toNat < 2 * rounds →
      m.textWordsWithin rounds [] a.toNat = some (m.textWords a)) ∧
    ∀ table index, s.abbreviation m table index = do
      let w ← m.word (table + UInt32.ofNat index * 2)
      let (text, _) ← decode ⟨s.version, none⟩ m (Memory.unpacked w.toUInt32)
      return text := by
  intro Ends
  have hfault : (∃ fault, m.textWords a = .error fault) ↔ ¬ Ends := by
    unfold Memory.textWords
    rw [textWordsOnto_eq_error_iff]
    simp [Ends]
  refine ⟨?_, fun hends => ?_, fun hnever => ?_, fun rounds h => Memory.textWordsWithin_eq h,
    abbreviation_eq_decode s m⟩
  · rw [← Classical.not_not (a := Ends), ← hfault]
    rcases m.textWords a with fault | ⟨words, next⟩ <;> simp
  · cases h : m.textWords a with
    | error fault => exact absurd hends (hfault.1 ⟨fault, h⟩)
    | ok read =>
      obtain ⟨j, hj, hnext⟩ := Memory.textEnds_of_textWordsOnto h
      have hinside := hj.inside
      refine ⟨j, hj, hinside, fun hm => ?_, ?_, ?_⟩
      · rw [UInt32.toNat_ofNat', Nat.mod_eq_of_lt]
        exact Nat.lt_of_le_of_lt hinside hm
      · rw [← hnext]
        exact decode_of_textWords h (Nat.le_refl _)
      · rw [← hnext]
        exact decode_of_textWords h (hnext ▸ hinside)
  · obtain ⟨fault, h⟩ := hfault.2 hnever
    obtain ⟨b, rfl⟩ := Memory.textWordsOnto_error h
    refine ⟨b, ?_⟩
    unfold decode
    rw [h]
    rfl

/-- A memory with an abbreviation, a text that uses it, and a word that ends no text. -/
def abbreviatedText : Memory := ⟨#[0x00, 0x01, 0x98, 0xE8, 0x04, 0x09, 0xA9, 0x6C, 0x12, 0x34]⟩

/-- The text at 4 is the same to both readers, and the one at 8 does not end. -/
theorem decode_eq_decodeBytes_abbreviated :
    let s : Script := ⟨3, some 0⟩
    let m := abbreviatedText
    (s.decode m 4).toOption = some ("abcdefg".toList, 8) ∧
    (∃ j, m.TextEnds 4 j ∧
      s.decode m 4 = (s.decodeBytes m (m.slice 4 m.size)).map (·, UInt32.ofNat (4 + 2 * j + 2))) ∧
    (∃ b, s.decode m 8 = .error (.access b (.beyondEnd 10))) ∧
    m.textWordsWithin 4 [] 4 = some (m.textWords 4) := by
  intro s m
  have hdecode : (s.decode m 4).toOption = some ("abcdefg".toList, 8) := by decide +kernel
  have hnever : ¬ ∃ j, (8 : Address).toNat + 2 * j + 2 ≤ m.size ∧
      endsText (m.getWord ((8 : Address).toNat + 2 * j)) = true := by
    rintro ⟨j, hj, hends⟩
    have hsize : m.size = 10 := rfl
    have haddress : (8 : Address).toNat = 8 := rfl
    obtain rfl : j = 0 := by omega
    exact absurd hends (by decide)
  obtain ⟨-, hends, -, hrounds, -⟩ := decode_eq_decodeBytes s m 4
  obtain ⟨-, -, hfault, -⟩ := decode_eq_decodeBytes s m 8
  obtain ⟨j, hj, -, -, -, hrest⟩ := hends ⟨1, by decide, by decide⟩
  exact ⟨hdecode, ⟨j, hj, hrest⟩, hfault hnever, hrounds 4 (by decide)⟩

end Script

end ZCode
