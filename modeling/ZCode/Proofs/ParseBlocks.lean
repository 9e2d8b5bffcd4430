/-
  What the blocks of the parse buffer describe.

  * `Cut` says into which pieces a line falls: a separator is a piece of its own, and the other pieces
    are words as long as they can be.  `Dictionary.cut_split` finds the tokens to be those pieces.
  * `Dictionary.Names` says which address stands for characters: that of an entry with their key, or 0.
    A word is looked up as if its codes were UTF-8 (`Piece.readAs`).
  * `Machine.read_blocks` says what stands in every block, and for which words that is a description of
    what was typed.
-/
import ZCode.Proofs.Buffers

namespace ZCode

/-! ## Pieces of a line -/

/-- A word or a separator in a line: where it starts, and the codes it occupies. -/
structure Piece where
  start : Nat
  codes : List UInt8
  deriving DecidableEq, Repr

/-- A code that ends a word. -/
def Breaks (separators : List UInt8) (b : UInt8) : Prop := b = 32 ∨ b ∈ separators

/-- The pieces of a line whose first code has number `n`. -/
inductive Cut (separators : List UInt8) : Nat → List UInt8 → List Piece → Prop
  | nil {n : Nat} : Cut separators n [] []
  | space {n : Nat} {line : List UInt8} {pieces : List Piece} : Cut separators (n + 1) line pieces →
      Cut separators n (32 :: line) pieces
  | separator {n : Nat} {b : UInt8} {line : List UInt8} {pieces : List Piece} : b ≠ 32 →
      b ∈ separators → Cut separators (n + 1) line pieces →
      Cut separators n (b :: line) (⟨n, [b]⟩ :: pieces)
  | word {n : Nat} {codes line : List UInt8} {pieces : List Piece} : codes ≠ [] →
      (∀ b ∈ codes, ¬ Breaks separators b) → (∀ b ∈ line.head?, Breaks separators b) →
      Cut separators (n + codes.length) line pieces →
      Cut separators n (codes ++ line) (⟨n, codes⟩ :: pieces)

namespace Piece

/-- The piece is a separator. -/
def Separates (separators : List UInt8) (p : Piece) : Prop := ∃ b ∈ p.codes, b ∈ separators

instance (separators : List UInt8) (p : Piece) : Decidable (p.Separates separators) :=
  inferInstanceAs (Decidable (∃ b ∈ p.codes, b ∈ separators))

/-- The bytes of the piece's token.  A separator is replaced by the text of the character with its
number. -/
def bytes (separators : List UInt8) (p : Piece) : List UInt8 :=
  if p.Separates separators then Utf8.encode (p.codes.map fun b => Char.ofNat b.toNat) else p.codes

def token (separators : List UInt8) (p : Piece) : Token := ⟨p.bytes separators, p.start⟩

end Piece

namespace Dictionary

variable {separators : List UInt8}

/-- A run of codes up to a break is a piece. -/
theorem cut_run (line : List UInt8) {run : List UInt8} {position : Nat} {pieces : List Piece}
    (hrun : ∀ b ∈ run, ¬ Breaks separators b)
    (hlength : run.length ≤ position) (hline : ∀ b ∈ line.head?, Breaks separators b)
    (h : Cut separators position line pieces) :
    ∃ front, Cut separators (position - run.length) (run.reverse ++ line) (front ++ pieces) ∧
      wordBefore run position = front.map (Piece.token separators) := by
  cases run with
  | nil => exact ⟨[], h, rfl⟩
  | cons b run =>
    have hword : ∀ c ∈ (b :: run).reverse, ¬ Breaks separators c :=
      fun c hc => hrun c (List.mem_reverse.1 hc)
    have hnot : ¬ Piece.Separates separators ⟨position - (b :: run).length, (b :: run).reverse⟩ :=
      fun ⟨c, hc, hmem⟩ => hword c hc (.inr hmem)
    refine ⟨[⟨position - (b :: run).length, (b :: run).reverse⟩], ?_, ?_⟩
    · refine .word (by simp) hword hline ?_
      rwa [List.length_reverse, Nat.sub_add_cancel hlength]
    · simp only [wordBefore, List.map_cons, List.map_nil, Piece.token, Piece.bytes, if_neg hnot]
      rfl

/-- The tokens behind an unfinished word are the pieces of the line with it. -/
theorem cut_splitFrom (position : Nat) (run line : List UInt8)
    (hrun : ∀ b ∈ run, ¬ Breaks separators b) (hlength : run.length ≤ position) :
    ∃ pieces, Cut separators (position - run.length) (run.reverse ++ line) pieces ∧
      splitFrom separators position run line = pieces.map (Piece.token separators) := by
  induction line generalizing run position with
  | nil =>
    obtain ⟨front, hcut, hfront⟩ := cut_run [] hrun hlength nofun .nil
    exact ⟨_, hcut, by rw [List.append_nil]; exact hfront⟩
  | cons b line ih =>
    obtain ⟨behind, hbehind, htokens⟩ := ih (position + 1) [] nofun (Nat.zero_le _)
    unfold splitFrom
    split
    · rename_i hspace
      subst hspace
      obtain ⟨front, hcut, hfront⟩ := cut_run (32 :: line) hrun hlength
        (by rintro c ⟨⟩; exact .inl rfl) (.space hbehind)
      exact ⟨_, hcut, by rw [hfront, htokens, List.map_append]⟩
    rename_i hspace
    split
    · rename_i hmem
      obtain ⟨front, hcut, hfront⟩ := cut_run (b :: line) hrun hlength
        (by rintro c ⟨⟩; exact .inr hmem) (.separator hspace hmem hbehind)
      have hseparates : Piece.Separates separators ⟨position, [b]⟩ :=
        ⟨b, List.mem_singleton.2 rfl, hmem⟩
      refine ⟨_, hcut, ?_⟩
      rw [hfront, htokens, List.map_append, List.map_cons, Piece.token, Piece.bytes, if_pos hseparates]
      rfl
    · rename_i hmem
      have hlonger : ∀ c ∈ b :: run, ¬ Breaks separators c := by
        intro c hc
        rcases List.mem_cons.1 hc with rfl | hc
        · exact fun h => h.elim hspace hmem
        · exact hrun c hc
      obtain ⟨pieces, hcut, hpieces⟩ := ih (position + 1) (b :: run) hlonger
        (by rw [List.length_cons]; omega)
      refine ⟨pieces, ?_, hpieces⟩
      rwa [List.length_cons, Nat.add_sub_add_right, List.reverse_cons, List.append_assoc] at hcut

/-- **The tokens of a line are its pieces.** -/
theorem cut_split (d : Dictionary) (line : List UInt8) :
    ∃ pieces, Cut d.separators 0 line pieces ∧ d.split line = pieces.map (Piece.token d.separators) :=
  cut_splitFrom 0 [] line nofun (Nat.zero_le _)

end Dictionary

/-- Every piece stands in its line, and a separator has one code. -/
theorem Cut.piece {separators line : List UInt8} {n : Nat} {pieces : List Piece} {p : Piece}
    (h : Cut separators n line pieces) (hp : p ∈ pieces) :
    n ≤ p.start ∧ (line.drop (p.start - n)).take p.codes.length = p.codes ∧
      (p.Separates separators → p.codes.length = 1) := by
  induction h with
  | nil => cases hp
  | @space n line pieces _ ih =>
    obtain ⟨hstart, hcodes, hone⟩ := ih hp
    refine ⟨by omega, ?_, hone⟩
    rwa [show p.start - n = p.start - (n + 1) + 1 by omega, List.drop_succ_cons]
  | @separator n b line pieces _ _ _ ih =>
    rcases List.mem_cons.1 hp with rfl | hp
    · exact ⟨Nat.le_refl _, by simp, fun _ => rfl⟩
    obtain ⟨hstart, hcodes, hone⟩ := ih hp
    refine ⟨by omega, ?_, hone⟩
    rwa [show p.start - n = p.start - (n + 1) + 1 by omega, List.drop_succ_cons]
  | @word n codes line pieces _ hword _ _ ih =>
    rcases List.mem_cons.1 hp with rfl | hp
    · refine ⟨Nat.le_refl _, by simp, ?_⟩
      rintro ⟨b, hb, hmem⟩
      exact absurd (.inr hmem) (hword b hb)
    obtain ⟨hstart, hcodes, hone⟩ := ih hp
    refine ⟨by omega, ?_, hone⟩
    rwa [show p.start - n = codes.length + (p.start - (n + codes.length)) by omega,
      List.drop_append, List.drop_of_length_le (Nat.le_add_right _ _), List.nil_append,
      Nat.add_sub_cancel_left]

/-! ## Characters of a piece -/

/-- A printable ASCII character, which is its own code. -/
def Zscii.Ascii (c : Char) : Prop := 32 ≤ c.toNat ∧ c.toNat ≤ 126

namespace Utf8

/-- ASCII bytes are characters, whatever follows them. -/
theorem decodeOnto_append {bytes : List UInt8} (seen : List Char) (h : ∀ b ∈ bytes, b < 0x80)
    (rest : List UInt8) : decodeOnto seen (bytes ++ rest) =
      decodeOnto ((bytes.map fun b => Char.ofNat b.toNat).reverse ++ seen) rest := by
  induction bytes generalizing seen with
  | nil => rfl
  | cons b bytes ih =>
    have hfirst : decodeFirst b (bytes ++ rest) = (Char.ofNat b.toNat, bytes ++ rest) := by
      unfold decodeFirst
      rw [if_pos (h b (List.mem_cons_self ..))]
    rw [List.cons_append, decodeOnto, hfirst, ih _ fun c hc => h c (List.mem_cons_of_mem _ hc)]
    simp

/-- What has been read stays. -/
theorem exists_decodeOnto (seen : List Char) (bytes : List UInt8) :
    ∃ chars, decodeOnto seen bytes = seen.reverse ++ chars := by
  fun_induction decodeOnto seen bytes with
  | case1 seen => exact ⟨[], (List.append_nil _).symm⟩
  | case2 seen b rest ih =>
    obtain ⟨chars, hchars⟩ := ih
    exact ⟨(decodeFirst b rest).1 :: chars, by rw [hchars]; simp⟩

/-- A byte that is not ASCII reads as the replacement character before one that is. -/
theorem decodeFirst_lone {b : UInt8} {rest : List UInt8} (hb : ¬ b < 0x80)
    (hrest : ∀ c ∈ rest.head?, c < 0x80) : decodeFirst b rest = (replacement, rest) := by
  unfold decodeFirst
  rw [if_neg hb]
  cases rest with
  | nil => rfl
  | cons c rest =>
    have hc : c < 0x80 := hrest c rfl
    have hwithin (low high : UInt8) (hlow : 0x80 ≤ low) : within low high c = false := by
      have hge : ¬ low ≤ c := UInt8.not_le.2 (UInt8.lt_of_lt_of_le hc hlow)
      simp [within, hge]
    have htail : isTail c = false := hwithin _ _ (by decide)
    have hsecond : isSecond b c = false := by
      refine hwithin _ _ ?_
      unfold secondRange
      split_ifs <;> decide
    simp only [htail, hsecond, Bool.and_false, Bool.false_and, Bool.false_eq_true, if_false]
    repeat' split
    all_goals rfl

theorem decode_ascii {bytes : List UInt8} (h : ∀ b ∈ bytes, b < 0x80) :
    decode bytes = bytes.map fun b => Char.ofNat b.toNat := by
  have hread := decodeOnto_append [] h []
  rw [List.append_nil, List.append_nil] at hread
  rw [decode, hread, decodeOnto, List.reverse_reverse]

/-- The character of a byte takes one byte, or two if it is not ASCII. -/
theorem encode_byte (b : UInt8) : (encode [Char.ofNat b.toNat]).length = (if b < 0x80 then 1 else 2) ∧
    decode (encode [Char.ofNat b.toNat]) = [Char.ofNat b.toNat] := by
  by_cases hb : b < 0x80
  · have hencode : ∀ n < 128, encode [Char.ofNat n] = [UInt8.ofNat n] := by decide +kernel
    have hbytes : encode [Char.ofNat b.toNat] = [b] := by
      rw [hencode b.toNat hb, UInt8.ofNat_toNat]
    rw [hbytes, if_pos hb, decode_ascii (by simpa using hb)]
    exact ⟨rfl, rfl⟩
  · have hencode : ∀ n < 256, 128 ≤ n →
        encode [Char.ofNat n] = [UInt8.ofNat (0xC0 + n / 64), UInt8.ofNat (0x80 + n % 64)] ∧
        decodeFirst (UInt8.ofNat (0xC0 + n / 64)) [UInt8.ofNat (0x80 + n % 64)] =
          (Char.ofNat n, []) := by decide +kernel
    have hhigh : 128 ≤ b.toNat := Nat.le_of_not_lt hb
    obtain ⟨hbytes, hfirst⟩ := hencode b.toNat b.toNat_lt hhigh
    rw [hbytes, if_neg hb, decode, decodeOnto, hfirst, decodeOnto]
    exact ⟨rfl, rfl⟩

end Utf8

namespace Piece

variable {separators : List UInt8} {p : Piece}

/-- The characters that a piece is looked up as.  A separator is taken for the character with its
number, and the codes of a word are taken for UTF-8. -/
def readAs (separators : List UInt8) (p : Piece) : List Char :=
  if p.Separates separators then p.codes.map fun b => Char.ofNat b.toNat else Utf8.decode p.codes

/-- A separator whose token is longer than itself. -/
def Wide (separators : List UInt8) (p : Piece) : Prop := ∃ b ∈ p.codes, b ∈ separators ∧ ¬ b < 0x80

instance (separators : List UInt8) (p : Piece) : Decidable (p.Wide separators) :=
  inferInstanceAs (Decidable (∃ b ∈ p.codes, b ∈ separators ∧ ¬ b < 0x80))

theorem readAs_ascii (h : ∀ b ∈ p.codes, b < 0x80) :
    p.readAs separators = p.codes.map fun b => Char.ofNat b.toNat := by
  unfold readAs
  rw [Utf8.decode_ascii h, ite_self]

theorem length_bytes (hone : p.Separates separators → p.codes.length = 1) :
    (p.bytes separators).length = if p.Wide separators then 2 else p.codes.length := by
  unfold bytes
  by_cases hp : p.Separates separators
  · obtain ⟨b, hb⟩ := List.length_eq_one_iff.1 (hone hp)
    have hmem : b ∈ separators := by simpa [Separates, hb] using hp
    have hwide : p.Wide separators ↔ ¬ b < 0x80 := by simp [Wide, hb, hmem]
    rw [if_pos hp, hb, List.map_singleton, (Utf8.encode_byte b).1]
    simp only [hwide, List.length_singleton, ite_not]
  · have hwide : ¬ p.Wide separators := fun ⟨b, hb, hmem, _⟩ => hp ⟨b, hb, hmem⟩
    rw [if_neg hp, if_neg hwide]

theorem decode_bytes (hone : p.Separates separators → p.codes.length = 1) :
    Utf8.decode (p.bytes separators) = p.readAs separators := by
  unfold bytes readAs
  split
  · rename_i hp
    obtain ⟨b, hb⟩ := List.length_eq_one_iff.1 (hone hp)
    rw [hb, List.map_singleton, (Utf8.encode_byte b).2]
  · rfl

end Piece

/-! ## Entries -/

namespace Dictionary

variable {d : Dictionary} {s : Script} {chars chars' : List Char} {a : UInt16}

/-- The address stands for the characters: it is that of an entry with their key, or 0 if there is
none. -/
def Names (d : Dictionary) (s : Script) (chars : List Char) (a : UInt16) : Prop :=
  (∃ word i, s.encode chars = .ok word ∧ d.keys[i]? = some word.key ∧
    a.toNat = (d.entryAddress i).toNat) ∨
  a = 0 ∧ ∀ word, s.encode chars = .ok word → word.key ∉ d.keys

/-- The key under which the dictionary has the characters, if it has them. -/
def key? (d : Dictionary) (s : Script) (chars : List Char) : Option UInt32 :=
  match s.encode chars with
  | .ok word => if word.key ∈ d.keys then some word.key else none
  | .error _ => none

/-- A table of entries that lies below 0x10000, where words can point. -/
structure Low (d : Dictionary) : Prop where
  entries : 0 < d.entries.toNat
  entryLength : 0 < d.entryLength.toNat
  last : d.entries.toNat + d.size * d.entryLength.toNat ≤ 0x10000

theorem Low.entryAddress (h : d.Low) {i : Nat} (hi : i < d.size) :
    (d.entryAddress i).toNat = d.entries.toNat + i * d.entryLength.toNat ∧
      (d.entryAddress i).toNat < 0x10000 := by
  have hlast := h.last
  have hpos := h.entryLength
  have hnext : (i + 1) * d.entryLength.toNat ≤ d.size * d.entryLength.toNat :=
    Nat.mul_le_mul_right _ hi
  rw [Nat.add_one_mul] at hnext
  have hi' : i ≤ i * d.entryLength.toNat := Nat.le_mul_of_pos_right _ hpos
  have haddress : (d.entryAddress i).toNat = d.entries.toNat + i * d.entryLength.toNat := by
    have hlength := d.entryLength.toNat_lt
    have hmod : i % 4294967296 = i := Nat.mod_eq_of_lt (by omega)
    unfold Dictionary.entryAddress
    rw [UInt32.toNat_add, UInt32.toNat_mul, UInt32.toNat_ofNat', UInt8.toNat_toUInt32, hmod,
      Nat.mod_eq_of_lt (a := i * _) (by omega)]
    exact Nat.mod_eq_of_lt (by omega)
  exact ⟨haddress, by omega⟩

theorem names_iff : d.Names s chars a ↔ match d.key? s chars with
    | some key => ∃ i, d.keys[i]? = some key ∧ a.toNat = (d.entryAddress i).toNat
    | none => a = 0 := by
  unfold Names key?
  cases hword : s.encode chars with
  | error fault => simp
  | ok word =>
    by_cases hmem : word.key ∈ d.keys
    · simp only [hmem, if_true]
      constructor
      · rintro (⟨_, i, ⟨⟩, hi, ha⟩ | ⟨-, hnone⟩)
        · exact ⟨i, hi, ha⟩
        · exact absurd hmem (hnone word rfl)
      · rintro ⟨i, hi, ha⟩
        exact .inl ⟨word, i, rfl, hi, ha⟩
    · simp only [hmem, if_false]
      constructor
      · rintro (⟨_, i, ⟨⟩, hi, -⟩ | ⟨ha, -⟩)
        · exact absurd (Array.mem_of_getElem? hi) hmem
        · exact ha
      · rintro ha
        exact .inr ⟨ha, by rintro _ ⟨⟩; exact hmem⟩

/-- The table is sorted. -/
def Ascending (keys : Array UInt32) : Prop :=
  ∀ i j, i ≤ j → j < keys.size → keys.getD i 0 ≤ keys.getD j 0

/-- The search tells whether the key stands at the place it gives, and in a sorted table all keys before
that place are smaller.  In other tables the place may be any. -/
structure Searches (search : Search) : Prop where
  found_iff : ∀ keys key, (search keys key).2 = true ↔ keys[(search keys key).1]? = some key
  before : ∀ keys key j, Ascending keys → j < (search keys key).1 → keys.getD j 0 < key

theorem lt_of_lt_bisect {keys : Array UInt32} {key : UInt32} {low high j : Nat}
    (hsorted : Ascending keys) (hhigh : high ≤ keys.size) (hlow : ∀ i < low, keys.getD i 0 < key)
    (hj : j < bisect keys key low high) : keys.getD j 0 < key := by
  fun_induction bisect keys key low high with
  | case1 low high hlt middle hless ih =>
    refine ih hhigh (fun i hi => ?_) hj
    exact UInt32.lt_of_le_of_lt (hsorted i middle (by omega) (by omega)) hless
  | case2 low high hlt middle hnot ih => exact ih (by omega) hlow hj
  | case3 low high hnot => exact hlow j hj

/-- **Halving is a search.** -/
theorem searches_halve : Searches halve where
  found_iff keys key := by simp [halve]
  before keys key j hsorted hj :=
    lt_of_lt_bisect hsorted (Nat.le_refl _) (fun i hi => absurd hi (Nat.not_lt_zero i)) hj

section
variable {search : Search} {key : UInt32} {i : Nat}

theorem Searches.of_findBy? (hsearch : Searches search) (h : d.findBy? search key = some i) :
    d.keys[i]? = some key := by
  have hfound := hsearch.found_iff d.keys key
  unfold findBy? at h
  split at h
  · rename_i place heq
    cases h
    rw [heq] at hfound
    exact hfound.1 rfl
  · obtain ⟨hi, hkey, -⟩ := Array.findIdx?_eq_some_iff_getElem.1 h
    rw [Array.getElem?_eq_getElem hi, eq_of_beq hkey]

theorem findBy?_eq_none (h : d.findBy? search key = none) : key ∉ d.keys := by
  unfold findBy? at h
  split at h
  · cases h
  · intro hmem
    have hnone := Array.findIdx?_eq_none_iff.1 h key hmem
    simp at hnone

end

/-- With different keys, no address stands for both. -/
theorem Low.names_iff_key? (hd : d.Low) (h : d.Names s chars a) :
    d.Names s chars' a ↔ d.key? s chars = d.key? s chars' := by
  have hentry {i : Nat} {key : UInt32} (hi : d.keys[i]? = some key) :
      (d.entryAddress i).toNat = d.entries.toNat + i * d.entryLength.toNat :=
    (hd.entryAddress (Array.getElem?_eq_some_iff.1 hi).1).1
  have hentries := hd.entries
  rw [names_iff] at h ⊢
  cases hkey : d.key? s chars with
  | none =>
    rw [hkey] at h
    cases d.key? s chars' with
    | none => exact iff_of_true h rfl
    | some key' =>
      refine iff_of_false ?_ nofun
      rintro ⟨i, hi, ha⟩
      rw [h, hentry hi, UInt16.toNat_zero] at ha
      omega
  | some key =>
    rw [hkey] at h
    obtain ⟨i, hi, ha⟩ := h
    rw [hentry hi] at ha
    cases d.key? s chars' with
    | none =>
      refine iff_of_false ?_ nofun
      rintro rfl
      rw [UInt16.toNat_zero] at ha
      omega
    | some key' =>
      rw [Option.some.injEq]
      constructor
      · rintro ⟨i', hi', ha'⟩
        rw [hentry hi', ha] at ha'
        have hsame : i = i' := Nat.eq_of_mul_eq_mul_right hd.entryLength (Nat.add_left_cancel ha')
        rw [hsame, hi'] at hi
        exact (Option.some.inj hi).symm
      · rintro rfl
        exact ⟨i, hi, ha.trans (hentry hi).symm⟩

/-- Characters that cannot be encoded have no entry. -/
theorem key?_replacement {front rest : List Char} {n : Nat}
    (hfront : total? s.version (front.map lowered) = some n) (hn : n < encodedLength) :
    d.key? s (front ++ Utf8.replacement :: rest) = none := by
  have hlowered : lowered Utf8.replacement = Utf8.replacement := by decide +kernel
  have hcost : cost? s.version Utf8.replacement = none := by
    have hsymbol : Utf8.replacement ∉ (Alphabet.a2.letters s.version).tail := by
      show Utf8.replacement ∉ List.tail (if s.version = 1 then _ else _)
      split <;> decide
    unfold cost?
    rw [if_neg (by decide), if_neg hsymbol, if_neg (by decide)]
  have hstuck : Stuck s.version encodedLength ((front ++ Utf8.replacement :: rest).map lowered)
      Utf8.replacement :=
    ⟨front.map lowered, rest.map lowered, n, by rw [List.map_append, List.map_cons, hlowered], hfront,
      hn, hcost⟩
  have herror := encode_eq_error_iff.2 (gatherCodes_error_iff.2 ⟨_, hstuck, rfl⟩)
  unfold key?
  rw [herror]

end Dictionary

namespace Machine

variable {z : Machine} {r : PendingRead}

/-- The entry of a word stands for its characters. -/
theorem names_entryOf {story : Story} (hd : story.dictionary.Low) (word : List UInt8) :
    story.dictionary.Names story.script (Utf8.decode word) (entryOf story word).toUInt16 := by
  unfold entryOf Dictionary.lookup Dictionary.lookupBy
  cases hword : story.script.encode (Utf8.decode word) with
  | error fault => exact .inr ⟨rfl, by rw [hword]; exact nofun⟩
  | ok encoded =>
    cases hfind : story.dictionary.findBy? Dictionary.halve encoded.key with
    | none =>
      simp only [bind, Except.bind, pure, Except.pure, hfind, Option.map_none]
      exact .inr ⟨rfl, by rw [hword]; rintro _ ⟨⟩; exact Dictionary.findBy?_eq_none hfind⟩
    | some i =>
      have hi := Dictionary.searches_halve.of_findBy? hfind
      obtain ⟨-, hlt⟩ := hd.entryAddress (Array.getElem?_eq_some_iff.1 hi).1
      simp only [bind, Except.bind, pure, Except.pure, hfind, Option.map_some]
      refine .inl ⟨encoded, i, hword, hi, ?_⟩
      rw [UInt32.toNat_toUInt16]
      exact Nat.mod_eq_of_lt hlt

end Machine

theorem Dictionary.read_ok {m : Memory} {a : Address} {d : Dictionary} (ha : a.toNat < 65536)
    (h : Dictionary.read m a = .ok d) : 0 < d.entries.toNat ∧ 0 < d.entryLength.toNat := by
  unfold Dictionary.read at h
  obtain ⟨count, -, h⟩ := bind_eq_ok_iff.1 h
  obtain ⟨separators, -, h⟩ := bind_eq_ok_iff.1 h
  obtain ⟨entryLength, -, h⟩ := bind_eq_ok_iff.1 h
  obtain ⟨hlength, h⟩ := guard_eq_ok_iff.1 h
  obtain ⟨entryCount, -, h⟩ := bind_eq_ok_iff.1 h
  obtain ⟨keys, -, h⟩ := bind_eq_ok_iff.1 h
  cases h
  refine ⟨?_, Nat.lt_of_lt_of_le (by decide) (Nat.not_lt.1 hlength)⟩
  have hcount := count.toNat_lt
  simp only [UInt32.toNat_add, UInt32.toNat_ofNat, UInt8.toNat_toUInt32]
  omega

/-- The dictionary of a loaded story lies low if its entries end there. -/
theorem Story.low_of_load {image : Memory} {story : Story} (h : Story.load image = .ok story)
    (hlast : story.dictionary.entries.toNat +
      story.dictionary.size * story.dictionary.entryLength.toNat ≤ 0x10000) :
    story.dictionary.Low := by
  obtain ⟨-, hheader, -⟩ := Story.load_ok h
  obtain ⟨hentries, hlength⟩ :=
    Dictionary.read_ok (Header.tables_lt hheader _ (by simp)) (Story.dictionary_of_load h)
  exact ⟨hentries, hlength, hlast⟩

/-! ## Blocks -/

/-- Where block number `j` of a parse buffer stands. -/
def PendingRead.blockAt (r : PendingRead) (j : Nat) : Nat := r.parseBuffer.toNat + 2 + 4 * j

/-- Block number `j` describes the piece, of which these characters were typed. -/
structure Describes (story : Story) (r : PendingRead) (m : Memory) (j : Nat) (p : Piece)
    (chars : List Char) : Prop where
  length : (m.get (r.blockAt j + 2)).toNat = p.codes.length
  position : (m.get (r.blockAt j + 3)).toNat = p.start + 1
  address : story.dictionary.Names story.script chars (m.getWord (r.blockAt j))

/-- What stands in block number `j` for a piece, and when that describes it. -/
structure HasBlock (story : Story) (r : PendingRead) (m : Memory) (j : Nat) (p : Piece)
    (chars : List Char) : Prop where
  position : (m.get (r.blockAt j + 3)).toNat = p.start + 1
  /-- The position leads to the codes of the piece. -/
  letters : ∀ k code, p.codes[k]? = some code →
    m.get (r.textBuffer.toNat + (m.get (r.blockAt j + 3)).toNat + k) = code
  length : (m.get (r.blockAt j + 2)).toNat =
    if p.Wide story.dictionary.separators then 2 else p.codes.length
  address : story.dictionary.Names story.script (p.readAs story.dictionary.separators)
    (m.getWord (r.blockAt j))
  /-- The block is right if the piece is no wide separator and the characters that were looked up and
  those that were typed have the same entries. -/
  describes_iff : Describes story r m j p chars ↔ ¬ p.Wide story.dictionary.separators ∧
    story.dictionary.key? story.script (p.readAs story.dictionary.separators) =
      story.dictionary.key? story.script chars
  /-- That is so where all characters are ASCII ones. -/
  plain : (∀ c ∈ chars, Zscii.Ascii c) → Describes story r m j p chars
  /-- A word is not found where an extra character stands alone among those that count. -/
  lost : ∀ front c back n, chars = front ++ c :: back → ¬ p.Separates story.dictionary.separators →
    (∀ x ∈ front, Zscii.Ascii x) → c ∈ Zscii.extra → (∀ x ∈ back.head?, Zscii.Ascii x) →
    total? story.script.version (front.map lowered) = some n → n < encodedLength →
    m.getWord (r.blockAt j) = 0

namespace Machine

variable {z : Machine} {r : PendingRead}

/-- The code that a read stores for a character. -/
def codeOf (c : Char) : UInt8 := (Zscii.code? c).getD Zscii.unknown

theorem codeOf_ascii {c : Char} (h : Zscii.Ascii c) :
    codeOf c < 0x80 ∧ Char.ofNat (codeOf c).toNat = c := by
  unfold Zscii.Ascii at h
  have hcode : codeOf c = UInt8.ofNat c.toNat := by
    unfold codeOf Zscii.code?
    rw [if_pos h, Option.getD_some]
  have hnat : (codeOf c).toNat = c.toNat := by
    rw [hcode, UInt8.toNat_ofNat']
    omega
  refine ⟨?_, by rw [hnat, Char.ofNat_toNat]⟩
  rw [UInt8.lt_iff_toNat_lt, hnat]
  exact Nat.lt_of_le_of_lt h.2 (by decide)

theorem typed_codes (typed : List Char) (n : Nat) :
    List.Forall₂ Typed (typed.take n) ((typed.map codeOf).take n) := by
  rw [← List.map_take, List.forall₂_map_right_iff, List.forall₂_same]
  exact fun c _ => typed_code c

/-- The codes of a piece are those of the characters typed in its place. -/
theorem codes_typed {separators : List UInt8} {pieces : List Piece} {p : Piece} {typed : List Char}
    {n : Nat} (hcut : Cut separators 0 ((typed.map codeOf).take n) pieces) (hp : p ∈ pieces) :
    p.codes = ((typed.drop p.start).take p.codes.length).map codeOf := by
  obtain ⟨-, hcodes, -⟩ := hcut.piece hp
  have hlength := congrArg List.length hcodes
  rw [Nat.sub_zero, List.drop_take, List.take_take] at hcodes
  simp only [Nat.sub_zero, List.length_take, List.length_drop] at hlength
  rw [Nat.min_eq_left (by omega)] at hcodes
  rw [List.map_take, List.map_drop, hcodes]

/-- Printable ASCII characters are looked up as they are. -/
theorem readAs_typed {separators : List UInt8} {p : Piece} {chars : List Char}
    (htyped : p.codes = chars.map codeOf) (h : ∀ c ∈ chars, Zscii.Ascii c) :
    ¬ p.Wide separators ∧ p.readAs separators = chars := by
  have hlow : ∀ b ∈ p.codes, b < 0x80 := by
    rw [htyped]
    intro b hb
    obtain ⟨c, hc, rfl⟩ := List.mem_map.1 hb
    exact (codeOf_ascii (h c hc)).1
  refine ⟨fun ⟨b, hb, _, hnot⟩ => hnot (hlow b hb), ?_⟩
  calc p.readAs separators
      = chars.map fun c => Char.ofNat (codeOf c).toNat := by
        rw [Piece.readAs_ascii hlow, htyped, List.map_map]
        rfl
    _ = chars.map id := List.map_congr_left fun c hc => (codeOf_ascii (h c hc)).2
    _ = chars := List.map_id _

theorem codeOf_extra {c : Char} (h : c ∈ Zscii.extra) : ¬ codeOf c < 0x80 := by
  have hall : Zscii.extra.all (fun c => !decide (codeOf c < 0x80)) = true := by decide +kernel
  simpa using List.all_eq_true.1 hall c h

/-- An extra character that stands between others is looked up as the replacement character. -/
theorem readAs_extra {separators : List UInt8} {p : Piece} {front back : List Char} {c : Char}
    (htyped : p.codes = (front ++ c :: back).map codeOf) (hseparates : ¬ p.Separates separators)
    (hfront : ∀ x ∈ front, Zscii.Ascii x) (hc : c ∈ Zscii.extra)
    (hback : ∀ x ∈ back.head?, Zscii.Ascii x) :
    ∃ rest, p.readAs separators = front ++ Utf8.replacement :: rest := by
  have hlow : ∀ b ∈ front.map codeOf, b < 0x80 := by
    intro b hb
    obtain ⟨x, hx, rfl⟩ := List.mem_map.1 hb
    exact (codeOf_ascii (hfront x hx)).1
  have hnext : ∀ b ∈ (back.map codeOf).head?, b < 0x80 := by
    intro b hb
    rw [List.head?_map] at hb
    obtain ⟨x, hx, rfl⟩ := Option.mem_map.1 hb
    exact (codeOf_ascii (hback x hx)).1
  have hchars : (front.map codeOf).map (fun b => Char.ofNat b.toNat) = front := by
    rw [List.map_map]
    exact (List.map_congr_left fun x hx => (codeOf_ascii (hfront x hx)).2).trans (List.map_id _)
  obtain ⟨rest, hrest⟩ := Utf8.exists_decodeOnto (Utf8.replacement :: front.reverse) (back.map codeOf)
  refine ⟨rest, ?_⟩
  rw [Piece.readAs, if_neg hseparates, htyped, List.map_append, List.map_cons, Utf8.decode,
    Utf8.decodeOnto_append [] hlow, hchars, Utf8.decodeOnto,
    Utf8.decodeFirst_lone (codeOf_extra hc) hnext, List.append_nil, hrest]
  simp

/-- The block of a piece, in the memory after a read. -/
theorem hasBlock_of_stored {story : Story} {m m' : Memory} {pieces : List Piece} {typed : List Char}
    {n j : Nat} {p : Piece} (hd : story.dictionary.Low)
    (hstored : Stored story r ((typed.map codeOf).take n) m m')
    (hcut : Cut story.dictionary.separators 0 ((typed.map codeOf).take n) pieces)
    (hsplit : story.dictionary.split ((typed.map codeOf).take n) =
      pieces.map (Piece.token story.dictionary.separators))
    (hj : j < (m.get r.parseBuffer.toNat).toNat) (hp : pieces[j]? = some p) :
    HasBlock story r m' j p ((typed.drop p.start).take p.codes.length) := by
  have hmem : p ∈ pieces := List.mem_of_getElem? hp
  obtain ⟨-, hcodes, hone⟩ := hcut.piece hmem
  have htoken : (story.dictionary.split ((typed.map codeOf).take n))[j]? =
      some (p.token story.dictionary.separators) := by
    rw [hsplit, List.getElem?_map, hp]
    rfl
  obtain ⟨hentry, hword, hposition⟩ := hstored.blocks j _ hj htoken
  replace hposition : (m'.get (r.blockAt j + 3)).toNat = p.start + 1 := hposition
  have hlength : (m'.get (r.blockAt j + 2)).toNat =
      if p.Wide story.dictionary.separators then 2 else p.codes.length :=
    hword.trans (Piece.length_bytes hone)
  have haddress : story.dictionary.Names story.script (p.readAs story.dictionary.separators)
      (m'.getWord (r.blockAt j)) := by
    rw [PendingRead.blockAt, hentry, ← Piece.decode_bytes hone]
    exact names_entryOf hd _
  have hiff : Describes story r m' j p ((typed.drop p.start).take p.codes.length) ↔
      ¬ p.Wide story.dictionary.separators ∧
        story.dictionary.key? story.script (p.readAs story.dictionary.separators) =
          story.dictionary.key? story.script ((typed.drop p.start).take p.codes.length) := by
    rw [← hd.names_iff_key? haddress]
    constructor
    · intro h
      refine ⟨fun hwide => ?_, h.address⟩
      obtain ⟨b, hb, hseparator, -⟩ := id hwide
      rw [if_pos hwide, h.length, hone ⟨b, hb, hseparator⟩] at hlength
      cases hlength
    · rintro ⟨hwide, hnames⟩
      rw [if_neg hwide] at hlength
      exact ⟨hlength, hposition, hnames⟩
  refine ⟨hposition, ?_, hlength, haddress, hiff, ?_, ?_⟩
  · intro k code hk
    have hlt := (List.getElem?_eq_some_iff.1 hk).1
    rw [← hcodes, List.getElem?_take, if_pos hlt, List.getElem?_drop, Nat.sub_zero] at hk
    rw [hposition, ← hstored.text _ _ hk]
    congr 1
    omega
  · intro hplain
    obtain ⟨hwide, hread⟩ := readAs_typed (codes_typed hcut hmem) hplain
    exact hiff.2 ⟨hwide, by rw [hread]⟩
  · intro front c back n hchars hseparates hfront hc hback hn hlt
    have htyped := codes_typed hcut hmem
    rw [hchars] at htyped
    obtain ⟨rest, hrest⟩ := readAs_extra htyped hseparates hfront hc hback
    rwa [Dictionary.names_iff, hrest, Dictionary.key?_replacement hn hlt] at haddress

/-- **What the blocks of a parse buffer describe.**  A read whose buffers fit takes every line.  What it
stores falls into pieces, and each piece has a block as long as there is room for one.  The block gives
the place of its piece and its length, except that a separator outside ASCII counts as two, and its
address is that of the characters that the codes are in UTF-8.  So it describes what was typed exactly
if those characters have the entry of the typed ones, as in ASCII, while a word in which an extra
character stands alone is not found. -/
theorem read_blocks {image : Memory} (hload : Story.load image = .ok z.story)
    (hsize : z.memory.size = image.size) (hfits : r.Fits z.story.protection z.memory)
    (hlow : z.story.dictionary.entries.toNat +
      z.story.dictionary.size * z.story.dictionary.entryLength.toNat ≤ 0x10000) (line : String) :
    ∃ text codes pieces w, LineText line.toList text ∧
      List.Forall₂ Typed ((text.map lowered).take ((z.memory.get r.textBuffer.toNat).toNat - 1)) codes ∧
      Cut z.story.dictionary.separators 0 codes pieces ∧ completeRead r line z = .ok () w ∧
      (w.memory.get (r.parseBuffer.toNat + 1)).toNat =
        min (z.memory.get r.parseBuffer.toNat).toNat pieces.length ∧
      ∀ j p, j < (z.memory.get r.parseBuffer.toNat).toNat → pieces[j]? = some p →
        HasBlock z.story r w.memory j p
          (((text.map lowered).drop p.start).take p.codes.length) := by
  have hroomy := roomy_of_load hload hsize
  have hd := Story.low_of_load hload hlow
  have hcomplete := completeRead_ok hroomy hfits line
  have hline : lineCodes line = ((trimLineEnd line.toList).map lowered).map codeOf := by
    rw [List.map_map]
    rfl
  rw [hline] at hcomplete
  obtain ⟨pieces, hcut, hsplit⟩ := z.story.dictionary.cut_split
    ((((trimLineEnd line.toList).map lowered).map codeOf).take
      ((z.memory.get r.textBuffer.toNat).toNat - 1))
  have hstored := stored_putBytes hfits hroomy.inside (List.length_take_le _
    (((trimLineEnd line.toList).map lowered).map codeOf))
  refine ⟨trimLineEnd line.toList, _, pieces, _, lineText_trimLineEnd _, ?_, hcut, hcomplete, ?_, ?_⟩
  · exact typed_codes _ _
  · rw [hstored.count, hsplit, List.length_map]
  · intro j p hj hp
    exact hasBlock_of_stored hd hstored hcut hsplit hj hp

/-- An image whose story reads two lines, and whose dictionary has the word `ä`. -/
def accentImage : Memory :=
  let dictionary : List UInt8 := [0, 7, 0, 1, 0x14, 0xC4, 0xEC, 0xA5, 0, 0, 0]
  ⟨(Game.readingImage.bytes.toList.take 0x80 ++ dictionary).toArray⟩

/-- The text buffer has room for two characters, and the parse buffer for one word. -/
theorem read_blocks_accent :
    let z := { Machine.start (.ofImage accentImage) (Random.ofEntropy 1) with tracing := false }
    let r : PendingRead := ⟨0x63, 0x68, 0x7C⟩
    r.Fits z.story.protection z.memory ∧ z.story.dictionary.size = 1 ∧
      ∃ text codes pieces w, LineText "Ä b\r\n".toList text ∧
        List.Forall₂ Typed ((text.map lowered).take 2) codes ∧
        Cut z.story.dictionary.separators 0 codes pieces ∧
        completeRead r "Ä b\r\n" z = .ok () w ∧ (w.memory.get 0x69).toNat = min 1 pieces.length ∧
        ∀ p, pieces[0]? = some p → HasBlock z.story r w.memory 0 p
          (((text.map lowered).drop p.start).take p.codes.length) := by
  intro z r
  have hload : Story.load accentImage = .ok (.ofImage accentImage) :=
    Story.load_ofImage (by decide +kernel)
  have hz : Reachable (.ofImage accentImage) z := .start _ false
  rw [← hz.bounded.runs] at hload
  have hfacts : (z.memory.get r.textBuffer.toNat).toNat = 3 ∧
      (z.memory.get r.parseBuffer.toNat).toNat = 1 ∧ z.story.protection.staticBase.toNat = 0x78 ∧
      z.story.protection.highBase = 0 ∧ z.story.dictionary.size = 1 ∧
      z.story.dictionary.entries.toNat + 1 * z.story.dictionary.entryLength.toNat = 0x8B ∧
      z.memory.size = accentImage.size := by decide +kernel
  obtain ⟨htext, hparse, hstatic, hhigh, hcount, hend, hsize⟩ := hfacts
  have hopens (first last : Nat) (hfirst : 64 ≤ first) (hlast : last < 0x78) :
      z.story.protection.Opens first last := ⟨hfirst, by rwa [hstatic], .inl hhigh⟩
  have hfits : r.Fits z.story.protection z.memory := by
    refine ⟨by rw [htext]; decide, ?_, ?_, .inl (by rw [htext]; decide)⟩
    · rw [htext]
      exact hopens _ _ (by decide) (by decide)
    · rw [hparse]
      exact hopens _ _ (by decide) (by decide)
  obtain ⟨text, codes, pieces, w, hline, hcodes, hcut, hread, hnumber, hblocks⟩ :=
    read_blocks hload hsize hfits (by rw [hcount, hend]; decide) "Ä b\r\n"
  rw [htext] at hcodes
  rw [hparse] at hnumber hblocks
  exact ⟨hfits, hcount, text, codes, pieces, w, hline, hcodes, hcut, hread, hnumber,
    fun p hp => hblocks 0 p (by decide) hp⟩

/-- A word that the dictionary has is typed, and its block says that there is no entry. -/
theorem accented_word_not_found :
    let noStore : Answers := ⟨.error .noStore, .error .noStore⟩
    let x := { Machine.start (.ofImage accentImage) (Random.ofEntropy 1) with tracing := false }
    let z := (HostCall.step noStore).run ((HostCall.push "ä").run x)
    let r : PendingRead := ⟨0x63, 0x68, 0x7C⟩
    Reachable (.ofImage accentImage) z ∧ z.pc = 0x7C ∧ z.memory.get 0x64 = 155 ∧
      z.memory.get 0x69 = 1 ∧ Cut z.story.dictionary.separators 0 [155] [⟨0, [155]⟩] ∧
      ¬ Describes z.story r z.memory 0 ⟨0, [155]⟩ ['ä'] := by
  intro noStore x z r
  have hz : Reachable (.ofImage accentImage) z := ((Reachable.start _ false).call _).call _
  have hdictionary : z.story.dictionary.separators = [] ∧ z.story.dictionary.keys.size = 1 ∧
      z.story.dictionary.key? z.story.script ['ä'] = some 0x14C4ECA5 ∧
      (z.story.dictionary.entryAddress 0).toNat = 0x84 := by decide +kernel
  have hmemory : z.pc = 0x7C ∧ z.memory.get 0x64 = 155 ∧ z.memory.get 0x69 = 1 ∧
      z.memory.getWord (r.blockAt 0) = 0 := by decide +kernel
  obtain ⟨hseparators, hsize, hkey, hentry⟩ := hdictionary
  obtain ⟨hpc, hcode, hcount, hword⟩ := hmemory
  refine ⟨hz, hpc, hcode, hcount, ?_, ?_⟩
  · have hcut : Cut [] 0 ([155] ++ []) [⟨0, [155]⟩] := .word (by decide) (by simp [Breaks]) nofun .nil
    rw [hseparators]
    exact hcut
  · intro h
    have hnames := h.address
    rw [hword, Dictionary.names_iff, hkey] at hnames
    obtain ⟨i, hi, haddress⟩ := hnames
    have hlt := (Array.getElem?_eq_some_iff.1 hi).1
    obtain rfl : i = 0 := by omega
    rw [hentry] at haddress
    cases haddress

end Machine

end ZCode
