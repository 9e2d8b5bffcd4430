/-
  Text as a sequence of units.

  * `Role` says what the Z-characters do in a version, and `units` cuts a sequence of them into what
    is printed: a letter, a space, a new line, an abbreviation, or a ten-bit code.  It reads from
    left to right with a base alphabet and the alphabet of the next Z-character.  Shifts are no
    units, and neither is what the end of the sequence cuts off.
  * A text is read as the texts of its units in a row (`readZChars_eq`), by one Z-character at a
    time (`feed_fresh`).
  * `Fails` says which units have no text.  `decodeZChars_units` puts these together.
-/
import ZCode.Proofs.Memory

namespace ZCode

/-! ## Units -/

/-- What a Z-character does where a unit begins. -/
inductive Role where
  | space
  | newline
  /-- Begins an abbreviation. -/
  | bank
  /-- Would begin an abbreviation, but none is allowed. -/
  | refused
  /-- Changes the alphabet of the next Z-character. -/
  | shift (turn : Alphabet → Alphabet)
  /-- Changes the base alphabet. -/
  | lock (turn : Alphabet → Alphabet)
  | letter

/-- Versions 1 and 2 have locks, and there were no abbreviations before version 2. -/
def roleOf (version : UInt8) (allowed : Bool) (z : ZChar) : Role :=
  let early : Bool := version = 1 ∨ version = 2
  let abbreviation : Role := if allowed then .bank else .refused
  match z.val with
  | 0 => .space
  | 1 => if version = 1 then .newline else abbreviation
  | 2 => if early then .shift .next else abbreviation
  | 3 => if early then .shift .previous else abbreviation
  | 4 => if early then .lock .next else .shift .next
  | 5 => if early then .lock .previous else .shift .previous
  | _ => .letter

inductive TextUnit where
  | space
  | newline
  | letter (alphabet : Alphabet) (z : ZChar)
  /-- A code of ten bits. -/
  | wide (high low : ZChar)
  | abbreviation (bank number : ZChar)
  /-- The beginning of an abbreviation where none is allowed. -/
  | refused (bank : ZChar)
  deriving DecidableEq, Repr

/-- The units of a text, given the base alphabet and the alphabet of the next Z-character. -/
def units (version : UInt8) (allowed : Bool) : Alphabet → Alphabet → List ZChar → List TextUnit
  | _, _, [] => []
  | base, current, z :: zs =>
    match roleOf version allowed z with
    | .space => .space :: units version allowed base base zs
    | .newline => .newline :: units version allowed base base zs
    | .shift turn => units version allowed base (turn base) zs
    | .lock turn => units version allowed (turn base) (turn base) zs
    | .bank =>
      match zs with
      | [] => []
      | x :: zs => .abbreviation z x :: units version allowed base base zs
    | .refused => [.refused z]
    | .letter =>
      if current = .a2 ∧ z.val = 6 then
        match zs with
        | high :: low :: zs => .wide high low :: units version allowed base base zs
        | _ => []
      else .letter current z :: units version allowed base base zs

-- Shifts do not add up, and the second letter is small again.  Locks do add up.
example : units 3 true .a0 .a0 [4, 4, 6, 7] = [.letter .a1 6, .letter .a0 7] := by decide
example : units 2 true .a0 .a0 [4, 4, 7, 2, 8] = [.letter .a2 7, .letter .a0 8] := by decide

def abbreviationNumber (bank number : ZChar) : Nat := 32 * (bank.val - 1) + number.val

/-- The text of a unit, given those of the abbreviations. -/
def TextUnit.text (version : UInt8) (expand : Option (Nat → Except Fault (List Char))) :
    TextUnit → Except Fault (List Char)
  | space => .ok [' ']
  | newline => .ok ['\n']
  | letter alphabet z => .ok [alphabet.letter version z]
  | wide high low => Zscii.text (UInt16.ofNat (high.val * 32 + low.val))
  | abbreviation bank number =>
    match expand with
    | some textOf => textOf (abbreviationNumber bank number)
    | none => .error (.text (.nestedAbbreviation bank.val))
  | refused bank => .error (.text (.nestedAbbreviation bank.val))

/-- The texts of the units of a sequence in a row. -/
def unitTexts (version : UInt8) (expand : Option (Nat → Except Fault (List Char)))
    (zs : List ZChar) : Except Fault (List Char) := do
  let texts ← (units version expand.isSome .a0 .a0 zs).mapM (·.text version expand)
  return texts.flatten

/-! ## Reading -/

section
variable {version : UInt8} {expand : Option (Nat → Except Fault (List Char))}

theorem startAbbreviation_eq (r : Reading) (z : ZChar) : r.startAbbreviation expand z =
    if expand.isSome then .ok { r with pending := .abbreviation z }
    else .error (.text (.nestedAbbreviation z.val)) := by
  cases expand <;> rfl

/-- What a Z-character does where a unit begins, in the state of the reading. -/
theorem feed_fresh (shifted base : Alphabet) (text : List Char) (z : ZChar) :
    Reading.feed version expand ⟨.fresh, shifted, base, text⟩ z =
      match roleOf version expand.isSome z with
      | .space => .ok ⟨.fresh, base, base, ' ' :: text⟩
      | .newline => .ok ⟨.fresh, base, base, '\n' :: text⟩
      | .shift turn => .ok ⟨.fresh, turn base, base, text⟩
      | .lock turn => .ok ⟨.fresh, turn base, turn base, text⟩
      | .bank => .ok ⟨.abbreviation z, base, base, text⟩
      | .refused => .error (.text (.nestedAbbreviation z.val))
      | .letter =>
        if shifted = .a2 ∧ z.val = 6 then .ok ⟨.wideHigh, base, base, text⟩
        else .ok ⟨.fresh, base, base, shifted.letter version z :: text⟩ := by
  obtain ⟨n, hn⟩ := z
  match n, hn with
  | 0, _ => rfl
  | 1, _ =>
    by_cases h₁ : version = 1
    · subst h₁
      rfl
    · cases hs : expand.isSome <;> by_cases h₂ : version = 2 <;>
        simp [Reading.feed, Reading.special, roleOf, startAbbreviation_eq, hs, h₁, h₂]
  | 2, _ | 3, _ | 4, _ | 5, _ =>
    cases hs : expand.isSome <;> by_cases h : version = 1 ∨ version = 2 <;>
      simp [-Fin.reduceFinMk, Reading.feed, Reading.special, roleOf, startAbbreviation_eq, hs, h]
  | n + 6, hn =>
    have hrole : roleOf version expand.isSome ⟨n + 6, hn⟩ = .letter := rfl
    have hlt : ¬ n + 6 < 6 := by omega
    simp [hrole, Reading.feed, Reading.emit, hlt]

/-- No abbreviation begins where none is allowed. -/
theorem allowed_of_bank {allowed : Bool} {z : ZChar} (h : roleOf version allowed z = .bank) :
    allowed = true := by
  cases allowed with
  | true => rfl
  | false =>
    unfold roleOf at h
    dsimp only at h
    split at h <;> first | cases h | (split at h <;> cases h)

theorem feed_abbreviation (hsome : expand.isSome = true) (shifted base : Alphabet)
    (text : List Char) (bank z : ZChar) :
    Reading.feed version expand ⟨.abbreviation bank, shifted, base, text⟩ z =
      (TextUnit.abbreviation bank z).text version expand >>= fun chars =>
        .ok ⟨.fresh, base, base, chars.reverse ++ text⟩ := by
  obtain ⟨textOf, rfl⟩ := Option.isSome_iff_exists.1 hsome
  rfl

theorem feed_wideLow (shifted base : Alphabet) (text : List Char) (high z : ZChar) :
    Reading.feed version expand ⟨.wideLow high, shifted, base, text⟩ z =
      (TextUnit.wide high z).text version expand >>= fun chars =>
        .ok ⟨.fresh, shifted, base, chars.reverse ++ text⟩ :=
  rfl

/-- The text after more Z-characters have been read. -/
def readOn (version : UInt8) (expand : Option (Nat → Except Fault (List Char))) (r : Reading)
    (zs : List ZChar) : Except Fault (List Char) := do
  let r ← zs.foldlM (Reading.feed version expand) r
  return r.text.reverse

theorem readOn_cons (r : Reading) (z : ZChar) (zs : List ZChar) :
    readOn version expand r (z :: zs) =
      Reading.feed version expand r z >>= fun r' => readOn version expand r' zs := by
  simp [readOn]

/-- The text so far, the last character first, and those of the units in a row. -/
def appendTexts (version : UInt8) (expand : Option (Nat → Except Fault (List Char)))
    (text : List Char) (us : List TextUnit) : Except Fault (List Char) := do
  let texts ← us.mapM (·.text version expand)
  return text.reverse ++ texts.flatten

theorem appendTexts_nil {text : List Char} :
    appendTexts version expand text [] = .ok text.reverse := by
  simp [appendTexts]
  rfl

theorem appendTexts_cons (text : List Char) (u : TextUnit) (us : List TextUnit) :
    appendTexts version expand text (u :: us) =
      u.text version expand >>= fun chars =>
        appendTexts version expand (chars.reverse ++ text) us := by
  simp [appendTexts]

/-- Reading goes on with the texts of the units. -/
theorem readOn_fresh (shifted base : Alphabet) (text : List Char) (zs : List ZChar) :
    readOn version expand ⟨.fresh, shifted, base, text⟩ zs =
      appendTexts version expand text (units version expand.isSome base shifted zs) := by
  -- one case for each way in which a sequence begins; `text` has the units before it
  fun_induction units version expand.isSome base shifted zs generalizing text with
  | case1 base current => simp [readOn, appendTexts]
  | case2 base current z zs hrole ih =>
    rw [readOn_cons, feed_fresh, hrole, appendTexts_cons]
    exact ih (' ' :: text)
  | case3 base current z zs hrole ih =>
    rw [readOn_cons, feed_fresh, hrole, appendTexts_cons]
    exact ih ('\n' :: text)
  | case4 base current z zs turn hrole ih =>
    rw [readOn_cons, feed_fresh, hrole]
    exact ih text
  | case5 base current z zs turn hrole ih =>
    rw [readOn_cons, feed_fresh, hrole]
    exact ih text
  | case6 base current z hrole =>
    rw [readOn_cons, feed_fresh, hrole]
    exact appendTexts_nil.symm
  | case7 base current z hrole x zs ih =>
    rw [readOn_cons, feed_fresh, hrole, appendTexts_cons]
    show readOn version expand ⟨.abbreviation z, base, base, text⟩ (x :: zs) = _
    rw [readOn_cons, feed_abbreviation (allowed_of_bank hrole), bind_assoc]
    exact congrArg _ (funext fun chars => ih _)
  | case8 base current z zs hrole =>
    rw [readOn_cons, feed_fresh, hrole, appendTexts_cons]
    rfl
  | case9 base current z hrole hwide high low zs ih =>
    rw [readOn_cons, feed_fresh, hrole, appendTexts_cons]
    simp only [if_pos hwide]
    show readOn version expand ⟨.wideLow high, base, base, text⟩ (low :: zs) = _
    rw [readOn_cons, feed_wideLow, bind_assoc]
    exact congrArg _ (funext fun chars => ih _)
  | case10 base current z zs hrole hwide hcut =>
    rw [readOn_cons, feed_fresh, hrole]
    simp only [if_pos hwide]
    match zs, hcut with
    | [], _ | [_], _ => exact appendTexts_nil.symm
    | high :: low :: zs, hcut => exact absurd rfl (hcut high low zs)
  | case11 base current z zs hrole hwide ih =>
    rw [readOn_cons, feed_fresh, hrole, appendTexts_cons]
    simp only [if_neg hwide]
    exact ih (_ :: text)

/-- A text is read as the texts of its units. -/
theorem readZChars_eq (zs : List ZChar) :
    readZChars version expand zs = unitTexts version expand zs :=
  readOn_fresh .a0 .a0 [] zs

theorem exists_bind_error_iff {α β : Type} {x : Except Fault α} {f : α → Except Fault β} :
    (∃ fault, x >>= f = .error fault) ↔
      (∃ fault, x = .error fault) ∨ ∃ a, x = .ok a ∧ ∃ fault, f a = .error fault := by
  cases x with
  | error fault => exact ⟨fun _ => .inl ⟨fault, rfl⟩, fun _ => ⟨fault, rfl⟩⟩
  | ok a => simp [bind, Except.bind]

theorem appendTexts_error_iff {text : List Char} {us : List TextUnit} :
    (∃ fault, appendTexts version expand text us = .error fault) ↔
      ∃ u ∈ us, ∃ fault, u.text version expand = .error fault := by
  induction us generalizing text with
  | nil => simp [appendTexts_nil]
  | cons u us ih =>
    rw [appendTexts_cons, exists_bind_error_iff]
    simp only [ih, List.mem_cons, exists_eq_or_imp]
    cases u.text version expand <;> simp

theorem unitTexts_error_iff {zs : List ZChar} :
    (∃ fault, unitTexts version expand zs = .error fault) ↔
      ∃ u ∈ units version expand.isSome .a0 .a0 zs,
        ∃ fault, u.text version expand = .error fault := by
  show (∃ fault, appendTexts version expand [] (units version expand.isSome .a0 .a0 zs) = _) ↔ _
  exact appendTexts_error_iff

end

/-! ## Abbreviations -/

/-- The place of abbreviation number `n` in the table. -/
def entryOf (table : Address) (n : Nat) : Address := table + UInt32.ofNat (2 * n)

/-- The text of the string at twice the word at `entry`, in which abbreviations are not allowed. -/
def stringAt (version : UInt8) (m : Memory) (entry : Address) : Except Fault (List Char) := do
  let w ← m.word entry
  let (words, _) ← m.textWords (UInt32.ofNat (2 * w.toNat))
  unitTexts version none (words.flatMap zcharsOf)

theorem abbreviation_eq (s : Script) (m : Memory) (table : Address) (n : Nat) :
    s.abbreviation m table n = stringAt s.version m (entryOf table n) := by
  have hentry : table + UInt32.ofNat n * 2 = entryOf table n := by
    unfold entryOf
    rw [UInt32.ofNat_mul, UInt32.mul_comm]
    rfl
  have hpacked (w : UInt16) : Memory.unpacked w.toUInt32 = UInt32.ofNat (2 * w.toNat) := by
    apply UInt32.toNat_inj.1
    simp [Memory.unpacked, Nat.mul_comm]
  unfold Script.abbreviation stringAt
  simp only [hentry, hpacked, readZChars_eq]

/-- A text has no end in memory if none of its words ends it. -/
theorem textWordsOnto_eq_error_iff {m : Memory} {seen : List UInt16} {n : Nat} :
    (∃ fault, m.textWordsOnto seen n = .error fault) ↔
      ∀ k, n + 2 * k + 2 ≤ m.size → endsText (m.getWord (n + 2 * k)) = false := by
  fun_induction Memory.textWordsOnto m seen n with
  | case1 seen n hsize w hends =>
    constructor
    · rintro ⟨_, ⟨⟩⟩
    · intro h
      have := h 0 hsize
      rw [Nat.mul_zero, Nat.add_zero, hends] at this
      cases this
  | case2 seen n hsize w hends ih =>
    rw [ih]
    constructor
    · rintro h (_ | k) hk
      · simpa using hends
      · have := h k (by omega)
        rwa [show n + 2 + 2 * k = n + 2 * (k + 1) by omega] at this
    · intro h k hk
      have := h (k + 1) (by omega)
      rwa [show n + 2 * (k + 1) = n + 2 + 2 * k by omega] at this
  | case3 seen n hsize =>
    refine ⟨fun _ k hk => ?_, fun _ => ⟨_, rfl⟩⟩
    omega

/-! ## Failures -/

/-- The ZSCII codes that can be printed. -/
def Zscii.Defined (n : Nat) : Prop := n = 0 ∨ n = 13 ∨ (32 ≤ n ∧ n ≤ 126) ∨ (155 ≤ n ∧ n ≤ 223)

instance (n : Nat) : Decidable (Zscii.Defined n) := inferInstanceAs (Decidable (_ ∨ _))

theorem Zscii.text_eq_error_iff {code : UInt16} :
    (∃ fault, Zscii.text code = .error fault) ↔ ¬ Zscii.Defined code.toNat := by
  have hlen : extra.length = 69 := rfl
  generalize hn : code.toNat = n
  unfold Zscii.text Zscii.Defined
  simp only [hn, firstExtra]
  split
  · simp_all
  split
  · simp_all
  split
  · simp_all
  split
  · simp
    omega
  split
  · rename_i hextra
    obtain ⟨hin, -⟩ := List.getElem?_eq_some_iff.1 hextra
    simp
    omega
  · rename_i hextra
    have hout := List.getElem?_eq_none_iff.1 hextra
    simp
    omega

/-- The units that have no text, given the table of abbreviations. -/
inductive Fails (version : UInt8) (m : Memory) : Option Address → TextUnit → Prop
  | undefined {table : Option Address} {high low : ZChar} :
      ¬ Zscii.Defined (high.val * 32 + low.val) → Fails version m table (.wide high low)
  | refused {table : Option Address} (bank : ZChar) : Fails version m table (.refused bank)
  /-- The entry lies outside memory. -/
  | entry {table : Address} {bank number : ZChar} :
      m.size < (entryOf table (abbreviationNumber bank number)).toNat + 2 →
      Fails version m (some table) (.abbreviation bank number)
  /-- The string does not end in memory. -/
  | endless {table : Address} {bank number : ZChar} {w : UInt16} :
      m.word (entryOf table (abbreviationNumber bank number)) = .ok w →
      (∀ k, 2 * w.toNat + 2 * k + 2 ≤ m.size →
        endsText (m.getWord (2 * w.toNat + 2 * k)) = false) →
      Fails version m (some table) (.abbreviation bank number)
  /-- The string has a unit that fails. -/
  | inner {table : Address} {bank number : ZChar} {w : UInt16} {words : List UInt16} {next : Nat}
      {u : TextUnit} : m.word (entryOf table (abbreviationNumber bank number)) = .ok w →
      m.textWords (UInt32.ofNat (2 * w.toNat)) = .ok (words, next) →
      u ∈ units version false .a0 .a0 (words.flatMap zcharsOf) → Fails version m none u →
      Fails version m (some table) (.abbreviation bank number)

section
variable {version : UInt8} {m : Memory}

theorem roleOf_false_ne_bank (z : ZChar) : roleOf version false z ≠ .bank := by
  unfold roleOf
  dsimp only
  split <;> (try split) <;> simp

theorem abbreviation_notMem_units {base current : Alphabet} {zs : List ZChar}
    (bank number : ZChar) : .abbreviation bank number ∉ units version false base current zs := by
  fun_induction units version false base current zs with
  | case7 base current z hrole => exact absurd hrole (roleOf_false_ne_bank z)
  | _ => simp_all

/-- Apart from abbreviations, a unit has a text unless it fails. -/
theorem text_error_iff_fails {expand : Option (Nat → Except Fault (List Char))}
    {table : Option Address} {u : TextUnit} (hu : ∀ bank number, u ≠ .abbreviation bank number) :
    (∃ fault, u.text version expand = .error fault) ↔ Fails version m table u := by
  cases u with
  | space | newline | letter =>
    constructor
    · rintro ⟨_, ⟨⟩⟩
    · rintro ⟨⟩
  | wide high low =>
    have hcode : (UInt16.ofNat (high.val * 32 + low.val)).toNat = high.val * 32 + low.val := by
      rw [UInt16.toNat_ofNat']
      omega
    simp only [TextUnit.text, Zscii.text_eq_error_iff, hcode]
    constructor
    · exact .undefined
    · rintro ⟨h⟩
      exact h
  | refused bank => exact ⟨fun _ => .refused bank, fun _ => ⟨_, rfl⟩⟩
  | abbreviation bank number => exact absurd rfl (hu bank number)

theorem word_error_iff {a : Address} :
    (∃ fault, m.word a = .error fault) ↔ m.size < a.toNat + 2 := by
  rw [Memory.word_eq]
  split
  · simp
    omega
  · simp
    omega

/-- The text of an abbreviation cannot be read if its entry lies outside memory, if it has no end,
or if one of its units fails. -/
theorem stringAt_error_iff_fails {table : Address} {bank number : ZChar} :
    (∃ fault, stringAt version m (entryOf table (abbreviationNumber bank number)) = .error fault) ↔
      Fails version m (some table) (.abbreviation bank number) := by
  have hunits {zs : List ZChar} : (∃ fault, unitTexts version none zs = .error fault) ↔
      ∃ u ∈ units version false .a0 .a0 zs, Fails version m none u := by
    rw [unitTexts_error_iff]
    refine exists_congr fun u => and_congr_right fun hu => text_error_iff_fails ?_
    rintro b n rfl
    exact abbreviation_notMem_units b n hu
  have hendless (w : UInt16) : (∃ fault, m.textWords (UInt32.ofNat (2 * w.toNat)) = .error fault) ↔
      ∀ k, 2 * w.toNat + 2 * k + 2 ≤ m.size →
        endsText (m.getWord (2 * w.toNat + 2 * k)) = false := by
    unfold Memory.textWords
    rw [toNat_packed]
    exact textWordsOnto_eq_error_iff
  unfold stringAt
  rw [exists_bind_error_iff, word_error_iff]
  simp only [exists_bind_error_iff, hendless, hunits]
  constructor
  · rintro (h | ⟨w, hw, h | ⟨⟨words, next⟩, hwords, u, hu, hfails⟩⟩)
    · exact .entry h
    · exact .endless hw h
    · exact .inner hw hwords hu hfails
  · rintro (_ | _ | h | ⟨hw, h⟩ | ⟨hw, hwords, hu, hfails⟩)
    · exact .inl h
    · exact .inr ⟨_, hw, .inl h⟩
    · exact .inr ⟨_, hw, .inr ⟨_, hwords, _, hu, hfails⟩⟩

end

/-- **A text is read as its units are.**  The text of a sequence of Z-characters is made of those of
its units, from the first to the last, and there is one unless a unit fails. -/
theorem decodeZChars_units (s : Script) (m : Memory) (zs : List ZChar) :
    s.decodeZChars m zs = unitTexts s.version
      (s.abbreviations.map fun table n => stringAt s.version m (entryOf table n)) zs ∧
    ((∃ fault, s.decodeZChars m zs = .error fault) ↔
      ∃ u ∈ units s.version s.abbreviations.isSome .a0 .a0 zs,
        Fails s.version m s.abbreviations u) := by
  have hexpand : s.abbreviations.map (s.abbreviation m) =
      s.abbreviations.map fun table n => stringAt s.version m (entryOf table n) := by
    congr 1
    funext table n
    exact abbreviation_eq s m table n
  have htext : s.decodeZChars m zs = unitTexts s.version
      (s.abbreviations.map fun table n => stringAt s.version m (entryOf table n)) zs := by
    rw [← hexpand, ← readZChars_eq]
    rfl
  refine ⟨htext, ?_⟩
  rw [htext, unitTexts_error_iff, Option.isSome_map]
  refine exists_congr fun u => and_congr_right fun hu => ?_
  cases u with
  | abbreviation bank number =>
    cases ht : s.abbreviations with
    | none =>
      rw [ht] at hu
      exact absurd hu (abbreviation_notMem_units bank number)
    | some table => exact stringAt_error_iff_fails
  | space | newline | letter | wide | refused => exact text_error_iff_fails nofun

end ZCode
