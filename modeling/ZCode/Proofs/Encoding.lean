/-
  Dictionary words.

  * `cost?` is the number of codes that a character takes, and `fitting` the longest part of a text
    from its beginning on that takes no more than so many codes (`prefix_fitting_iff`).
  * The codes of a character are a unit of text that prints it, and no unit if they are cut off
    (`Prints`).  So decoding the codes that there is room for gives back what fits
    (`Coded.texts`).
-/
import Mathlib.Data.Nat.Bitwise
import ZCode.Proofs.TextUnits

namespace ZCode

/-! ## Packing -/

theorem toNat_packZChars (x y z : ZChar) :
    (packZChars x y z).toNat = (x.val * 32 + y.val) * 32 + z.val := by
  have hx : x.val < 32 := x.isLt
  have hy : y.val < 32 := y.isLt
  have hz : z.val < 2 ^ 5 := z.isLt
  have hxy : x.val * 2 ^ 10 ||| y.val * 2 ^ 5 = (x.val * 32 + y.val) <<< 5 := by
    have hlt : y.val * 2 ^ 5 < 2 ^ 10 := by omega
    rw [← Nat.shiftLeft_eq, ← Nat.shiftLeft_add_eq_or_of_lt hlt, Nat.shiftLeft_eq, Nat.shiftLeft_eq]
    omega
  have hnat : (packZChars x y z).toNat = x.val * 2 ^ 10 ||| y.val * 2 ^ 5 ||| z.val := by
    simp (disch := omega) [packZChars, Nat.shiftLeft_eq, Nat.mod_eq_of_lt]
  rw [hnat, hxy, ← Nat.shiftLeft_add_eq_or_of_lt hz, Nat.shiftLeft_eq]

/-- A word ends its text if its top bit is set. -/
theorem endsText_eq (w : UInt16) : endsText w = decide (0x8000 ≤ w.toNat) := by
  have hw : w.toNat < 0x10000 := w.toNat_lt
  have hand : (w &&& 0x8000).toNat = (w.toNat.testBit 15).toNat * 0x8000 := Nat.and_two_pow _ 15
  have hbit : w.toNat.testBit 15 = decide (0x8000 ≤ w.toNat) := by
    rw [Nat.testBit_eq_decide_div_mod_eq]
    exact decide_eq_decide.2 (by omega)
  unfold endsText
  by_cases h : 0x8000 ≤ w.toNat <;> simp [hbit, h] at hand ⊢ <;> simp [← UInt16.toNat_inj, hand]

theorem toNat_or_end {w : UInt16} (h : w.toNat < 0x8000) :
    (w ||| 0x8000).toNat = 0x8000 + w.toNat := by
  have h' : w.toNat < 2 ^ 15 := h
  have hor := Nat.shiftLeft_add_eq_or_of_lt h' 1
  rw [Nat.or_comm] at hor
  exact hor.symm

theorem zcharsOf_eq {w : UInt16} {x y z : ZChar} {k : Nat}
    (h : w.toNat = k * 0x8000 + (packZChars x y z).toNat) : zcharsOf w = [x, y, z] := by
  have hx : x.val < 32 := x.isLt
  have hy : y.val < 32 := y.isLt
  have hz : z.val < 32 := z.isLt
  rw [toNat_packZChars] at h
  simp only [zcharsOf, List.cons.injEq, and_true, Fin.ext_iff, ZChar.ofNat, UInt16.toNat_shiftRight,
    Nat.shiftRight_eq_div_pow]
  refine ⟨?_, ?_, ?_⟩
  · show w.toNat / 2 ^ 10 % 32 = x.val
    omega
  · show w.toNat / 2 ^ 5 % 32 = y.val
    omega
  · omega

/-- Six Z-characters in two words, the second of which ends the text. -/
theorem packed_pair (a b c d e f : ZChar) (w : EncodedWord)
    (hw : w = ⟨packZChars a b c, packZChars d e f ||| 0x8000⟩) :
    endsText w.first = false ∧ endsText w.second = true ∧
      (textWordsOf w.bytes).flatMap zcharsOf = [a, b, c, d, e, f] := by
  subst hw
  have hlt (x y z : ZChar) : (packZChars x y z).toNat < 0x8000 := by
    have hx : x.val < 32 := x.isLt
    have hy : y.val < 32 := y.isLt
    have hz : z.val < 32 := z.isLt
    rw [toNat_packZChars]
    omega
  have hfirst : endsText (packZChars a b c) = false := by
    rw [endsText_eq]
    simpa using hlt a b c
  have hsecond : endsText (packZChars d e f ||| 0x8000) = true := by
    rw [endsText_eq, toNat_or_end (hlt d e f)]
    simp
  refine ⟨hfirst, hsecond, ?_⟩
  have hwords : textWordsOf (EncodedWord.bytes ⟨packZChars a b c, packZChars d e f ||| 0x8000⟩) =
      [packZChars a b c, packZChars d e f ||| 0x8000] := by
    simp [EncodedWord.bytes, textWordsOf, wordOf_bytes, hfirst, hsecond]
  have hz₁ : zcharsOf (packZChars a b c) = [a, b, c] := zcharsOf_eq (k := 0) (by omega)
  have hz₂ : zcharsOf (packZChars d e f ||| 0x8000) = [d, e, f] :=
    zcharsOf_eq (k := 1) (by rw [toNat_or_end (hlt d e f)])
  simp [hwords, hz₁, hz₂]

/-! ## Costs -/

/-- How many codes a character takes: one for a space or a small letter, two for another character
of the last alphabet, four for another one of ZSCII. -/
def cost? (version : UInt8) (c : Char) : Option Nat :=
  if c = ' ' ∨ c.isLower then some 1
  else if c ∈ (Alphabet.a2.letters version).tail then some 2
  else if (32 ≤ c.toNat ∧ c.toNat ≤ 126) ∨ c ∈ Zscii.extra then some 4
  else none

/-- How many codes a text takes, if every character of it has codes. -/
def total? (version : UInt8) : List Char → Option Nat
  | [] => some 0
  | c :: chars => do return (← cost? version c) + (← total? version chars)

theorem mem_letters_a0 {version : UInt8} {c : Char} :
    c ∈ Alphabet.a0.letters version ↔ c.isLower := by
  constructor
  · have hall : "abcdefghijklmnopqrstuvwxyz".toList.all Char.isLower = true := by decide
    exact List.all_eq_true.1 hall c
  · intro h
    have hall : ∀ n < 26, Char.ofNat (97 + n) ∈ "abcdefghijklmnopqrstuvwxyz".toList := by decide
    have hrange : 97 ≤ c.toNat ∧ c.toNat ≤ 122 := by
      change (decide ('a'.val ≤ c.val) && decide (c.val ≤ 'z'.val)) = true at h
      rw [Bool.and_eq_true, decide_eq_true_eq, decide_eq_true_eq] at h
      exact h
    have hmem := hall (c.toNat - 97) (by omega)
    rwa [show 97 + (c.toNat - 97) = c.toNat by omega, Char.ofNat_toNat] at hmem

/-- The first slot of the last alphabet holds a space. -/
theorem letters_a2 (version : UInt8) :
    Alphabet.a2.letters version = ' ' :: (Alphabet.a2.letters version).tail := by
  show (if version = 1 then _ else _) = ' ' :: List.tail (if version = 1 then _ else _)
  split <;> decide

theorem isSome_code? {version : UInt8} {a : Alphabet} {c : Char} :
    (a.code? version c).isSome ↔ c ∈ a.letters version := by
  rw [Alphabet.code?, Option.isSome_map, List.isSome_idxOf?]

theorem Zscii.isSome_code? {c : Char} :
    (Zscii.code? c).isSome ↔ (32 ≤ c.toNat ∧ c.toNat ≤ 126) ∨ c ∈ Zscii.extra := by
  unfold Zscii.code?
  split
  · simp_all
  · simp_all [List.isSome_idxOf?]

/-- The costs are the numbers of codes. -/
theorem length_codes? (s : Script) (c : Char) :
    (s.codes? c).map List.length = cost? s.version c := by
  unfold Script.codes? cost?
  by_cases hspace : c = ' '
  · simp [hspace]
  have ha2 : c ∈ (Alphabet.a2.letters s.version).tail ↔ c ∈ Alphabet.a2.letters s.version := by
    rw [letters_a2, List.tail_cons, List.mem_cons, or_iff_right hspace]
  have ha0 : c.isLower ↔ c ∈ Alphabet.a0.letters s.version := mem_letters_a0.symm
  simp only [hspace, false_or, if_false, ha0, ha2, ← isSome_code?, ← Zscii.isSome_code?]
  cases Alphabet.a0.code? s.version c with
  | some z => rfl
  | none =>
    cases Alphabet.a2.code? s.version c with
    | some z => rfl
    | none => cases Zscii.code? c <;> rfl

/-! ## Codes as units -/

/-- Where a unit begins with no shift, the codes are a unit that prints `c`, and none if they are
cut off. -/
structure Prints (version : UInt8) (c : Char) (codes : List ZChar) : Prop where
  whole : ∃ u : TextUnit, (∀ expand, u.text version expand = .ok [c]) ∧
    ∀ allowed zs, units version allowed .a0 .a0 (codes ++ zs) =
      u :: units version allowed .a0 .a0 zs
  cut : ∀ allowed k, k < codes.length → units version allowed .a0 .a0 (codes.take k) = []

section
variable {version : UInt8} {allowed : Bool} {base current : Alphabet} {z : ZChar} {zs : List ZChar}

theorem roleOf_of_le (hz : 6 ≤ z.val) : roleOf version allowed z = .letter := by
  obtain ⟨n, hn⟩ := z
  obtain ⟨k, rfl⟩ := Nat.exists_eq_add_of_le' hz
  rfl

theorem units_letter (hz : 6 ≤ z.val) (hwide : ¬ (current = .a2 ∧ z.val = 6)) :
    units version allowed base current (z :: zs) =
      .letter current z :: units version allowed base base zs := by
  rw [units.eq_def]
  simp only [roleOf_of_le hz, if_neg hwide]

theorem units_wide (hz : z.val = 6) (high low : ZChar) :
    units version allowed base .a2 (z :: high :: low :: zs) =
      .wide high low :: units version allowed base base zs := by
  rw [units.eq_def]
  simp only [roleOf_of_le hz.ge, hz, and_self, if_true]

/-- An escape that is cut off prints nothing. -/
theorem units_wide_cut (hz : z.val = 6) (hzs : zs.length < 2) :
    units version allowed base .a2 (z :: zs) = [] := by
  rw [units.eq_def]
  simp only [roleOf_of_le hz.ge, hz, and_self, if_true]
  match zs, hzs with
  | [], _ | [_], _ => rfl

theorem units_shift {turn : Alphabet → Alphabet} (hz : roleOf version allowed z = .shift turn) :
    units version allowed base current (z :: zs) = units version allowed base (turn base) zs := by
  rw [units.eq_def]
  simp only [hz]

theorem units_lock {turn : Alphabet → Alphabet} (hz : roleOf version allowed z = .lock turn) :
    units version allowed base current (z :: zs) =
      units version allowed (turn base) (turn base) zs := by
  rw [units.eq_def]
  simp only [hz]

theorem roleOf_five : roleOf version allowed 5 =
    if version = 1 ∨ version = 2 then .lock .previous else .shift .previous := by
  show (if decide (version = 1 ∨ version = 2) = true then _ else _) = _
  simp

/-- The Z-characters that fill up a word print nothing. -/
theorem units_replicate (k : Nat) :
    units version allowed base current (List.replicate k 5) = [] := by
  induction k generalizing base current with
  | zero => rfl
  | succ k ih =>
    rw [List.replicate_succ]
    by_cases h : version = 1 ∨ version = 2
    · rw [units_lock (roleOf_five.trans (if_pos h)), ih]
    · rw [units_shift (roleOf_five.trans (if_neg h)), ih]

end

theorem roleOf_symbolShift {s : Script} (hv : 1 ≤ s.version) (allowed : Bool) :
    roleOf s.version allowed s.symbolShift = .shift .previous := by
  have hv : 1 ≤ s.version.toNat := hv
  unfold Script.symbolShift
  split
  · rename_i hlt
    have hlt : s.version.toNat < 3 := hlt
    have hearly : s.version = 1 ∨ s.version = 2 := by
      obtain h | h : s.version.toNat = 1 ∨ s.version.toNat = 2 := by omega
      · exact .inl (UInt8.toNat_inj.1 h)
      · exact .inr (UInt8.toNat_inj.1 h)
    show (if decide (s.version = 1 ∨ s.version = 2) = true then _ else _) = _
    simp [hearly]
  · rename_i hlt
    have hlate : ¬ (s.version = 1 ∨ s.version = 2) := by
      rintro (h | h) <;> rw [h] at hlt <;> exact hlt (by decide)
    exact roleOf_five.trans (if_neg hlate)

/-- The code of a character in an alphabet is that of a letter, and no escape. -/
theorem code?_eq_some {version : UInt8} {a : Alphabet} {c : Char} {z : ZChar} (hc : c ≠ ' ')
    (h : a.code? version c = some z) :
    6 ≤ z.val ∧ ¬ (a = .a2 ∧ z.val = 6) ∧ a.letter version z = c := by
  obtain ⟨i, hi, rfl⟩ := Option.map_eq_some_iff.1 h
  obtain ⟨hlt, hget, -⟩ := List.idxOf?_eq_some_iff.1 hi
  have hlen := a.length_letters version
  have hval : (ZChar.ofNat (i + 6)).val = i + 6 := by
    show (i + 6) % 32 = i + 6
    omega
  refine ⟨by omega, ?_, ?_⟩
  · rintro ⟨rfl, h6⟩
    -- only the space stands in the slot of the escape
    obtain rfl : i = 0 := by omega
    have hfirst : (Alphabet.a2.letters version)[0]? = some ' ' := by
      rw [letters_a2]
      rfl
    rw [List.getElem?_eq_getElem hlt, hget, Option.some.injEq] at hfirst
    exact hc hfirst
  · rw [Alphabet.letter, hval, Nat.add_sub_cancel, List.getD_eq_getElem _ _ hlt, hget]

theorem Zscii.text_of_code? {c : Char} {code : UInt8} (h : Zscii.code? c = some code) :
    Zscii.text (UInt16.ofNat code.toNat) = .ok [c] := by
  have hnat : (UInt16.ofNat code.toNat).toNat = code.toNat := by
    have := code.toNat_lt
    rw [UInt16.toNat_ofNat']
    omega
  unfold Zscii.text
  rw [hnat]
  unfold Zscii.code? at h
  split at h
  · rename_i hrange
    cases h
    have hcode : (UInt8.ofNat c.toNat).toNat = c.toNat := by
      rw [UInt8.toNat_ofNat']
      omega
    have h0 : c.toNat ≠ 0 := by omega
    have h13 : c.toNat ≠ 13 := by omega
    simp only [hcode, if_neg h0, if_neg h13, if_pos hrange, Char.ofNat_toNat]
  · obtain ⟨i, hi, rfl⟩ := Option.map_eq_some_iff.1 h
    obtain ⟨hlt, hget, -⟩ := List.idxOf?_eq_some_iff.1 hi
    have hlen : extra.length = 69 := rfl
    have hcode : (UInt8.ofNat (firstExtra + i)).toNat = 155 + i := by
      show (155 + i) % 256 = 155 + i
      omega
    have h0 : ¬ 155 + i = 0 := by omega
    have h13 : ¬ 155 + i = 13 := by omega
    have hrange : ¬ (32 ≤ 155 + i ∧ 155 + i ≤ 126) := by omega
    have hextra : ¬ 155 + i < firstExtra := by
      show ¬ 155 + i < 155
      omega
    have hindex : 155 + i - firstExtra = i := Nat.add_sub_cancel_left ..
    simp only [hcode, if_neg h0, if_neg h13, if_neg hrange, if_neg hextra, hindex,
      List.getElem?_eq_getElem hlt, hget]

theorem prints_space (version : UInt8) : Prints version ' ' [.ofNat 0] where
  whole := ⟨.space, fun _ => rfl, fun _ _ => rfl⟩
  cut
    | _, 0, _ => rfl

theorem prints_letter {version : UInt8} {c : Char} {z : ZChar} (hc : c ≠ ' ')
    (h : Alphabet.a0.code? version c = some z) : Prints version c [z] := by
  obtain ⟨hz, hwide, rfl⟩ := code?_eq_some hc h
  exact {
    whole := ⟨.letter .a0 z, fun _ => rfl, fun _ _ => units_letter hz hwide⟩
    cut
      | _, 0, _ => rfl }

theorem prints_symbol {s : Script} (hv : 1 ≤ s.version) {c : Char} {z : ZChar} (hc : c ≠ ' ')
    (h : Alphabet.a2.code? s.version c = some z) : Prints s.version c [s.symbolShift, z] := by
  obtain ⟨hz, hwide, rfl⟩ := code?_eq_some hc h
  have hshift := roleOf_symbolShift hv
  exact {
    whole := ⟨.letter .a2 z, fun _ => rfl, fun allowed _ =>
      (units_shift (hshift allowed)).trans (units_letter hz hwide)⟩
    cut
      | _, 0, _ => rfl
      | allowed, 1, _ => units_shift (hshift allowed) }

theorem prints_escape {s : Script} (hv : 1 ≤ s.version) {c : Char} {code : UInt8}
    (h : Zscii.code? c = some code) :
    Prints s.version c [s.symbolShift, .ofNat 6, .ofNat (code.toNat / 32), .ofNat code.toNat] := by
  have hshift := roleOf_symbolShift hv
  have htext (expand : Option (Nat → Except Fault (List Char))) :
      (TextUnit.wide (.ofNat (code.toNat / 32)) (.ofNat code.toNat)).text s.version expand =
        .ok [c] := by
    have hcode : code.toNat / 32 % 32 * 32 + code.toNat % 32 = code.toNat := by
      have := code.toNat_lt
      omega
    show Zscii.text (UInt16.ofNat (code.toNat / 32 % 32 * 32 + code.toNat % 32)) = _
    rw [hcode, Zscii.text_of_code? h]
  exact {
    whole := ⟨.wide _ _, htext, fun allowed _ =>
      (units_shift (hshift allowed)).trans (units_wide rfl _ _)⟩
    cut
      | _, 0, _ => rfl
      | allowed, 1, _ => units_shift (hshift allowed)
      | allowed, 2, _ | allowed, 3, _ =>
        (units_shift (hshift allowed)).trans (units_wide_cut rfl (by simp)) }

theorem prints_of_codes? {s : Script} (hv : 1 ≤ s.version) {c : Char} {codes : List ZChar}
    (h : s.codes? c = some codes) : Prints s.version c codes := by
  unfold Script.codes? at h
  split at h
  · rename_i hc
    cases h
    rw [hc]
    exact prints_space s.version
  rename_i hc
  split at h
  · cases h
    exact prints_letter hc ‹_›
  split at h
  · cases h
    exact prints_symbol hv hc ‹_›
  · obtain ⟨code, hcode, rfl⟩ := Option.map_eq_some_iff.1 h
    exact prints_escape hv hcode

/-! ## What fits -/

/-- The longest part of a text from its beginning on that takes at most `room` codes. -/
def fitting (version : UInt8) : Nat → List Char → List Char
  | _, [] => []
  | room, c :: chars =>
    match cost? version c with
    | some k => if k ≤ room then c :: fitting version (room - k) chars else []
    | none => []

theorem cost?_pos {version : UInt8} {c : Char} {k : Nat} (h : cost? version c = some k) :
    0 < k := by
  unfold cost? at h
  split at h
  · cases h; decide
  split at h
  · cases h; decide
  split at h
  · cases h; decide
  · cases h

theorem total?_cons {version : UInt8} {c : Char} {chars : List Char} {n : Nat} :
    total? version (c :: chars) = some n ↔
      ∃ k, cost? version c = some k ∧ ∃ j, total? version chars = some j ∧ k + j = n := by
  cases hk : cost? version c <;> cases hj : total? version chars <;> simp [total?, hk, hj]

/-- What fits is the longest part that does. -/
theorem prefix_fitting_iff {version : UInt8} {room : Nat} {chars pre : List Char} :
    pre <+: fitting version room chars ↔
      pre <+: chars ∧ ∃ n, total? version pre = some n ∧ n ≤ room := by
  induction chars generalizing room pre with
  | nil =>
    simp only [fitting, List.prefix_nil]
    constructor
    · rintro rfl
      exact ⟨rfl, 0, rfl, Nat.zero_le _⟩
    · exact fun h => h.1
  | cons c chars ih =>
    unfold fitting
    rw [List.prefix_cons_iff]
    constructor
    · intro h
      split at h
      · rename_i k hk
        split at h
        · rename_i hle
          rcases List.prefix_cons_iff.1 h with rfl | ⟨t, rfl, ht⟩
          · exact ⟨.inl rfl, 0, rfl, Nat.zero_le _⟩
          · obtain ⟨hstart, j, hj, hroom⟩ := ih.1 ht
            exact ⟨.inr ⟨t, rfl, hstart⟩, k + j, total?_cons.2 ⟨k, hk, j, hj, rfl⟩, by omega⟩
        · rw [List.prefix_nil.1 h]
          exact ⟨.inl rfl, 0, rfl, Nat.zero_le _⟩
      · rw [List.prefix_nil.1 h]
        exact ⟨.inl rfl, 0, rfl, Nat.zero_le _⟩
    · rintro ⟨rfl | ⟨t, rfl, hstart⟩, n, hn, hroom⟩
      · exact List.nil_prefix
      · obtain ⟨k, hk, j, hj, rfl⟩ := total?_cons.1 hn
        simp only [hk, if_pos (show k ≤ room by omega)]
        exact List.prefix_cons_iff.2 (.inr ⟨t, rfl, ih.2 ⟨hstart, j, hj, by omega⟩⟩)

/-- A text and its codes. -/
inductive Coded (s : Script) : List Char → List ZChar → Prop
  | nil : Coded s [] []
  | cons {c : Char} {chars : List Char} {codes zs : List ZChar} :
      s.codes? c = some codes → Coded s chars zs → Coded s (c :: chars) (codes ++ zs)

section
variable {s : Script} {chars : List Char} {zs : List ZChar}

theorem cost?_of_codes? {c : Char} {codes : List ZChar} (h : s.codes? c = some codes) :
    cost? s.version c = some codes.length := by
  rw [← length_codes?, h]
  rfl

theorem Coded.total? (h : Coded s chars zs) : total? s.version chars = some zs.length := by
  induction h with
  | nil => rfl
  | cons hc _ ih => exact total?_cons.2 ⟨_, cost?_of_codes? hc, _, ih, List.length_append.symm⟩

/-- Codes behind those that fill the room do not count. -/
theorem Coded.fitting_append (h : Coded s chars zs) {room : Nat} (hroom : room ≤ zs.length)
    (more : List Char) : fitting s.version room (chars ++ more) = fitting s.version room chars := by
  induction h generalizing room with
  | nil =>
    obtain rfl : room = 0 := by simpa using hroom
    cases more with
    | nil => rfl
    | cons c more =>
      show fitting s.version 0 (c :: more) = []
      unfold fitting
      split
      · rename_i k hk
        have := cost?_pos hk
        rw [if_neg (by omega)]
      · rfl
  | @cons c chars codes zs hc _ ih =>
    rw [List.length_append] at hroom
    rw [List.cons_append]
    unfold fitting
    simp only [cost?_of_codes? hc, ih (show room - codes.length ≤ zs.length by omega)]

/-- Decoding the codes that fit gives the characters that fit. -/
theorem Coded.texts (hv : 1 ≤ s.version) (h : Coded s chars zs) (room k : Nat) (allowed : Bool)
    (expand : Option (Nat → Except Fault (List Char))) :
    (units s.version allowed .a0 .a0 ((zs ++ List.replicate k 5).take room)).mapM
      (·.text s.version expand) = .ok ((fitting s.version room chars).map fun c => [c]) := by
  induction h generalizing room with
  | nil =>
    rw [List.nil_append, List.take_replicate, units_replicate]
    rfl
  | @cons c chars codes zs hc _ ih =>
    -- the codes of `c` lie before the cut, and are a unit, or the cut goes through them
    obtain ⟨⟨u, hu, hwhole⟩, hcut⟩ := prints_of_codes? hv hc
    unfold fitting
    simp only [cost?_of_codes? hc, List.append_assoc]
    split
    · rename_i hle
      rw [List.take_append, List.take_of_length_le hle, hwhole, List.mapM_cons, hu, ih]
      rfl
    · rename_i hlt
      rw [List.take_append_of_le_length (by omega), hcut allowed room (by omega)]
      rfl

end

/-! ## Gathering codes -/

section
variable {s : Script} {acc codes : List ZChar} {chars : List Char}

theorem gatherCodes_ok (h : s.gatherCodes acc chars = .ok codes) : ∃ pre post zs,
    chars = pre ++ post ∧ Coded s pre zs ∧ codes = acc ++ zs ∧
      (post = [] ∨ encodedLength ≤ codes.length) := by
  induction chars generalizing acc with
  | nil =>
    cases h
    exact ⟨[], [], [], rfl, .nil, by simp, .inl rfl⟩
  | cons c chars ih =>
    unfold Script.gatherCodes at h
    split at h
    · rename_i henough
      cases h
      exact ⟨[], c :: chars, [], rfl, .nil, by simp, .inr henough⟩
    split at h
    · rename_i more hc
      obtain ⟨pre, post, zs, rfl, hpre, rfl, hpost⟩ := ih h
      exact ⟨c :: pre, post, more ++ zs, rfl, .cons hc hpre, by simp, hpost⟩
    · cases h

/-- A character without codes is reached while there is room. -/
def Stuck (version : UInt8) (room : Nat) (chars : List Char) (c : Char) : Prop :=
  ∃ pre post n, chars = pre ++ c :: post ∧ total? version pre = some n ∧ n < room ∧
    cost? version c = none

theorem stuck_of_none {version : UInt8} {room : Nat} {b c : Char}
    (hb : cost? version b = none) : Stuck version room (b :: chars) c ↔ 0 < room ∧ c = b := by
  constructor
  · rintro ⟨_ | ⟨a, pre⟩, post, n, heq, hn, hroom, -⟩
    · exact ⟨by omega, (List.cons.inj heq).1.symm⟩
    · obtain ⟨rfl, -⟩ := List.cons.inj heq
      obtain ⟨k, hk, -⟩ := total?_cons.1 hn
      rw [hb] at hk
      cases hk
  · rintro ⟨hroom, rfl⟩
    exact ⟨[], chars, 0, rfl, rfl, hroom, hb⟩

theorem stuck_of_some {version : UInt8} {room k : Nat} {b c : Char}
    (hb : cost? version b = some k) :
    Stuck version room (b :: chars) c ↔ Stuck version (room - k) chars c := by
  constructor
  · rintro ⟨_ | ⟨a, pre⟩, post, n, heq, hn, hroom, hc⟩
    · obtain ⟨rfl, -⟩ := List.cons.inj heq
      rw [hb] at hc
      cases hc
    · obtain ⟨rfl, rfl⟩ := List.cons.inj heq
      obtain ⟨k', hk, j, hj, rfl⟩ := total?_cons.1 hn
      obtain rfl : k = k' := by simpa [hb] using hk
      exact ⟨pre, post, j, rfl, hj, by omega, hc⟩
  · rintro ⟨pre, post, j, rfl, hj, hroom, hc⟩
    exact ⟨b :: pre, post, k + j, rfl, total?_cons.2 ⟨k, hb, j, hj, rfl⟩, by omega, hc⟩

theorem gatherCodes_error_iff {fault : Fault} : s.gatherCodes acc chars = .error fault ↔
    ∃ c, Stuck s.version (encodedLength - acc.length) chars c ∧ fault = .text (.unencodable c) := by
  induction chars generalizing acc with
  | nil =>
    constructor
    · rintro ⟨⟩
    · rintro ⟨c, ⟨pre, post, n, h, -⟩, -⟩
      simp at h
  | cons b chars ih =>
    unfold Script.gatherCodes
    split
    · constructor
      · rintro ⟨⟩
      · rintro ⟨c, ⟨pre, post, n, -, -, hn, -⟩, -⟩
        omega
    split
    · rename_i more hb
      rw [ih, List.length_append, ← Nat.sub_sub]
      simp only [stuck_of_some (cost?_of_codes? hb)]
    · rename_i hlen hb
      have hnone : cost? s.version b = none := by
        rw [← length_codes?, hb]
        rfl
      simp only [stuck_of_none hnone]
      constructor
      · rintro ⟨⟩
        exact ⟨b, ⟨by omega, rfl⟩, rfl⟩
      · rintro ⟨c, ⟨-, rfl⟩, rfl⟩
        rfl

end

/-! ## Encoding -/

/-- Six codes, filled up if there are fewer. -/
theorem six_codes (codes : List ZChar) (z : ZChar) :
    [codes.getD 0 z, codes.getD 1 z, codes.getD 2 z, codes.getD 3 z, codes.getD 4 z,
      codes.getD 5 z] = (codes ++ List.replicate 6 z).take encodedLength := by
  match codes with
  | [] | [_] | [_, _] | [_, _, _] | [_, _, _, _] | [_, _, _, _, _] => rfl
  | _ :: _ :: _ :: _ :: _ :: _ :: _ => rfl

theorem encode_eq_error_iff {s : Script} {text : List Char} {fault : Fault} :
    s.encode text = .error fault ↔ s.gatherCodes [] (text.map lowered) = .error fault := by
  unfold Script.encode
  cases s.gatherCodes [] (text.map lowered) <;> simp [bind, Except.bind, pure, Except.pure]

theorem encode_ok {s : Script} {text : List Char} {w : EncodedWord} (h : s.encode text = .ok w) :
    ∃ codes, s.gatherCodes [] (text.map lowered) = .ok codes ∧
      endsText w.first = false ∧ endsText w.second = true ∧
      (textWordsOf w.bytes).flatMap zcharsOf =
        (codes ++ List.replicate 6 5).take encodedLength := by
  obtain ⟨codes, hcodes, h⟩ := bind_eq_ok_iff.1 h
  cases h
  refine ⟨codes, hcodes, ?_⟩
  rw [← six_codes]
  exact packed_pair _ _ _ _ _ _ _ rfl

/-- **Decoding a dictionary word gives the beginning of the text in lower case.**  A word cannot be
encoded if a character without codes is reached before there are six codes.  Otherwise there are two
words, of which the second one ends the text, and they are decoded to the longest part of the text
from its beginning on that takes at most six codes, whatever abbreviations there are. -/
theorem decodeBytes_encode (s : Script) (hv : 1 ≤ s.version) (text : List Char) :
    (∀ fault, s.encode text = .error fault ↔ ∃ pre c post n, text.map lowered = pre ++ c :: post ∧
      total? s.version pre = some n ∧ n < 6 ∧ cost? s.version c = none ∧
      fault = .text (.unencodable c)) ∧
    (∀ w, s.encode text = .ok w → w.bytes.length = 4 ∧ endsText w.first = false ∧
      endsText w.second = true ∧ ∃ kept, kept <+: text.map lowered ∧
        (∃ n, total? s.version kept = some n ∧ n ≤ 6) ∧
        (∀ pre n, pre <+: text.map lowered → total? s.version pre = some n → n ≤ 6 → pre <+: kept) ∧
        ∀ table m, Script.decodeBytes ⟨s.version, table⟩ m w.bytes = .ok kept) := by
  constructor
  · intro fault
    rw [encode_eq_error_iff, gatherCodes_error_iff]
    constructor
    · rintro ⟨c, ⟨pre, post, n, hlower, hn, hroom, hc⟩, hfault⟩
      exact ⟨pre, c, post, n, hlower, hn, hroom, hc, hfault⟩
    · rintro ⟨pre, c, post, n, hlower, hn, hroom, hc, hfault⟩
      exact ⟨c, ⟨pre, post, n, hlower, hn, hroom, hc⟩, hfault⟩
  · intro w hw
    obtain ⟨codes, hcodes, hfirst, hsecond, hzs⟩ := encode_ok hw
    obtain ⟨pre, post, zs, hlower, hpre, hzs', hpost⟩ := gatherCodes_ok hcodes
    rw [List.nil_append] at hzs'
    subst hzs'
    -- the characters that were not looked at do not fit
    have hfitting : fitting s.version 6 (text.map lowered) = fitting s.version 6 pre := by
      rw [hlower]
      rcases hpost with rfl | henough
      · rw [List.append_nil]
      · exact hpre.fitting_append henough post
    have hkept := prefix_fitting_iff.1 (List.prefix_refl (fitting s.version 6 (text.map lowered)))
    refine ⟨rfl, hfirst, hsecond, _, hkept.1, hkept.2, ?_, ?_⟩
    · intro pre n hstart hn hle
      exact prefix_fitting_iff.2 ⟨hstart, n, hn, hle⟩
    · intro table m
      unfold Script.decodeBytes Script.decodeZChars
      rw [hzs, readZChars_eq, unitTexts, hpre.texts hv, hfitting]
      show Except.ok ((fitting s.version 6 pre).map fun c => [c]).flatten = _
      rw [← List.flatMap_def, List.flatMap_singleton']

/-- The full stop would take the sixth code and a seventh one. -/
theorem decodeBytes_encode_cut : 1 ≤ (2 : UInt8) ∧
    Script.encode ⟨2, none⟩ ['Ç', 'a', '.', 'v'] = .ok ⟨0x0CC6, 0xD4C3⟩ ∧
    ∀ table m, Script.decodeBytes ⟨2, table⟩ m [0x0C, 0xC6, 0xD4, 0xC3] = .ok ['ç', 'a'] := by
  have hv : 1 ≤ (2 : UInt8) := by decide
  have hw : Script.encode ⟨2, none⟩ ['Ç', 'a', '.', 'v'] = .ok ⟨0x0CC6, 0xD4C3⟩ := rfl
  have hfitting : fitting 2 6 ['ç', 'a', '.', 'v'] = ['ç', 'a'] := by decide
  obtain ⟨-, -, -, kept, hkept, htotal, hlongest, hdecode⟩ :=
    (decodeBytes_encode ⟨2, none⟩ hv ['Ç', 'a', '.', 'v']).2 _ hw
  have hle : kept <+: ['ç', 'a'] := hfitting ▸ prefix_fitting_iff.2 ⟨hkept, htotal⟩
  have hge : ['ç', 'a'] <+: kept := hlongest _ 5 (by decide) (by decide) (by decide)
  obtain rfl := hle.eq_of_length_le hge.length_le
  exact ⟨hv, hw, hdecode⟩

end ZCode
