/-
  The tokens of a line.

  * `IsRun` says that bytes in a line are a word: they do not break, and what stands around them does.
  * `Stands` says that a piece stands in a line as a separator or as a word, and the pieces into which a
    line is cut are all that do (`Cut.mem_iff`), one behind the other (`Cut.apart`).
  * `Dictionary.split_tokens` says the same of the tokens, and that every byte but the spaces belongs to
    exactly one of them.
-/
import ZCode.Proofs.ParseBlocks

namespace ZCode

/-! ## Pieces that stand in a line -/

/-- The bytes `run` between `front` and `back` do not break and cannot be continued on either side. -/
structure IsRun (separators front run back : List UInt8) : Prop where
  nonempty : run ≠ []
  plain : ∀ b ∈ run, ¬ Breaks separators b
  left : ∀ b ∈ front.getLast?, Breaks separators b
  right : ∀ b ∈ back.head?, Breaks separators b

/-- The codes between `front` and `back` are a separator or a word. -/
inductive IsPiece (separators front : List UInt8) : List UInt8 → List UInt8 → Prop
  | separator {b : UInt8} {back : List UInt8} : b ≠ 32 → b ∈ separators →
      IsPiece separators front [b] back
  | word {run back : List UInt8} : IsRun separators front run back →
      IsPiece separators front run back

/-- The piece stands in the line, whose first code has number `n`. -/
def Stands (separators : List UInt8) (n : Nat) (input : List UInt8) (p : Piece) : Prop :=
  ∃ front back, input = front ++ (p.codes ++ back) ∧ p.start = n + front.length ∧
    IsPiece separators front p.codes back

variable {separators front codes back input : List UInt8} {n : Nat} {b : UInt8} {p : Piece}
  {pieces : List Piece}

theorem IsPiece.ne_nil (h : IsPiece separators front codes back) : codes ≠ [] := by
  cases h with
  | separator => exact List.cons_ne_nil _ _
  | word h => exact h.nonempty

/-- A piece stays one if something is taken away in front of it. -/
theorem IsPiece.of_append (rest : List UInt8) (h : IsPiece separators (rest ++ front) codes back) :
    IsPiece separators front codes back := by
  cases h with
  | separator hspace hmem => exact .separator hspace hmem
  | word hrun =>
    refine .word ⟨hrun.nonempty, hrun.plain, fun c hc => hrun.left c ?_, hrun.right⟩
    rw [List.getLast?_append, Option.mem_def.1 hc]
    rfl

/-- What a break is put in front of stays a piece. -/
theorem IsPiece.cons (h : IsPiece separators front codes back) (hb : Breaks separators b) :
    IsPiece separators (b :: front) codes back := by
  cases h with
  | separator hspace hmem => exact .separator hspace hmem
  | word hrun =>
    refine .word ⟨hrun.nonempty, hrun.plain, ?_, hrun.right⟩
    cases front with
    | nil => simpa using hb
    | cons c front =>
      rw [List.getLast?_cons_cons]
      exact hrun.left

/-- A break in front of a line is a piece, unless it is a space, and the others stand behind it. -/
theorem stands_cons_iff (hb : Breaks separators b) :
    Stands separators n (b :: input) p ↔
      (b ≠ 32 ∧ b ∈ separators ∧ p = ⟨n, [b]⟩) ∨ Stands separators (n + 1) input p := by
  obtain ⟨start, codes⟩ := p
  constructor
  · rintro ⟨_ | ⟨c, front⟩, back, hinput, hstart, hpiece⟩
    · left
      generalize codes = run at hinput hstart hpiece ⊢
      cases hpiece with
      | separator hspace hmem =>
        cases hinput
        exact ⟨hspace, hmem, by simpa using hstart⟩
      | word hrun =>
        cases run with
        | nil => exact absurd rfl hrun.nonempty
        | cons c run =>
          cases hinput
          exact absurd hb (hrun.plain b (List.mem_cons_self ..))
    · right
      cases hinput
      refine ⟨front, back, rfl, ?_, hpiece.of_append [b]⟩
      rw [hstart, List.length_cons]
      omega
  · rintro (⟨hspace, hmem, ⟨⟩⟩ | ⟨front, back, rfl, hstart, hpiece⟩)
    · exact ⟨[], input, rfl, rfl, .separator hspace hmem⟩
    · refine ⟨b :: front, back, rfl, ?_, hpiece.cons hb⟩
      rw [hstart, List.length_cons]
      omega

/-- Codes that do not break have none of those at the head of what breaks. -/
theorem eq_nil_of_plain {rest : List UInt8} (hplain : ∀ b ∈ rest, ¬ Breaks separators b)
    (hhead : ∀ b ∈ (rest ++ input).head?, Breaks separators b) : rest = [] := by
  cases rest with
  | nil => rfl
  | cons c rest => exact absurd (hhead c rfl) (hplain c (List.mem_cons_self ..))

/-- A word at the head of a line reaches up to the first break. -/
theorem run_unique {run : List UInt8} (heq : codes ++ input = run ++ back)
    (hcodes : ∀ b ∈ codes, ¬ Breaks separators b) (hinput : ∀ b ∈ input.head?, Breaks separators b)
    (hrun : ∀ b ∈ run, ¬ Breaks separators b) (hback : ∀ b ∈ back.head?, Breaks separators b) :
    run = codes := by
  rcases List.append_eq_append_iff.1 heq with ⟨rest, rfl, rfl⟩ | ⟨rest, rfl, rfl⟩
  · rw [eq_nil_of_plain (fun c hc => hrun c (List.mem_append_right _ hc)) hinput, List.append_nil]
  · rw [eq_nil_of_plain (fun c hc => hcodes c (List.mem_append_right _ hc)) hback, List.append_nil]

/-- Codes that do not break are one piece up to the next break, and the others stand behind it. -/
theorem stands_run_iff (hne : codes ≠ []) (hplain : ∀ b ∈ codes, ¬ Breaks separators b)
    (hinput : ∀ b ∈ input.head?, Breaks separators b) :
    Stands separators n (codes ++ input) p ↔
      p = ⟨n, codes⟩ ∨ Stands separators (n + codes.length) input p := by
  obtain ⟨start, run⟩ := p
  constructor
  · rintro ⟨front, back, heq, hstart, hpiece⟩
    dsimp only at heq hstart hpiece
    rcases List.append_eq_append_iff.1 heq with ⟨rest, rfl, hrest⟩ | ⟨rest, rfl, hrest⟩
    · -- the piece starts behind the codes
      rw [List.length_append, ← Nat.add_assoc] at hstart
      exact .inr ⟨rest, back, hrest, hstart, hpiece.of_append _⟩
    cases rest with
    | nil =>
      rw [← List.append_nil front] at hpiece
      exact .inr ⟨[], back, hrest.symm, by simpa using hstart, hpiece.of_append _⟩
    | cons c rest =>
      -- it starts with one of the codes, and so with the first
      have hc : ¬ Breaks separators c := hplain c (by simp)
      cases hpiece with
      | separator _ hmem =>
        cases hrest
        exact absurd (.inr hmem) hc
      | word hrun =>
        have hfront : front = [] := by
          rcases List.eq_nil_or_concat front with rfl | ⟨init, last, rfl⟩
          · rfl
          · exact absurd (hrun.left last (by simp)) (hplain last (by simp))
        subst hfront
        simp only [List.nil_append] at hplain heq ⊢
        rw [run_unique heq hplain hinput hrun.plain hrun.right, hstart]
        exact .inl rfl
  · rintro (⟨⟨⟩⟩ | ⟨front, back, rfl, hstart, hpiece⟩)
    · exact ⟨[], input, rfl, rfl, .word ⟨hne, hplain, nofun, hinput⟩⟩
    · refine ⟨codes ++ front, back, (List.append_assoc ..).symm, ?_, ?_⟩
      · rw [hstart, List.length_append]
        omega
      · cases hpiece with
        | separator hspace hmem => exact .separator hspace hmem
        | word hrun =>
          refine .word ⟨hrun.nonempty, hrun.plain, fun c hc => hrun.left c ?_, hrun.right⟩
          cases front with
          | nil => exact absurd (eq_nil_of_plain hrun.plain hinput) hrun.nonempty
          | cons d front => rwa [List.getLast?_append_cons] at hc

/-- **The pieces of a line are all that stand in it.** -/
theorem Cut.mem_iff (h : Cut separators n input pieces) :
    p ∈ pieces ↔ Stands separators n input p := by
  induction h with
  | nil =>
    refine iff_of_false nofun ?_
    rintro ⟨front, back, hinput, -, hpiece⟩
    obtain ⟨-, hcodes⟩ := List.append_eq_nil_iff.1 hinput.symm
    exact hpiece.ne_nil (List.append_eq_nil_iff.1 hcodes).1
  | space _ ih => simp [stands_cons_iff (.inl rfl), ih]
  | separator hspace hmem _ ih => simp [stands_cons_iff (.inr hmem), ih, hspace, hmem]
  | word hne hplain hinput _ ih => rw [stands_run_iff hne hplain hinput, List.mem_cons, ih]

/-- The pieces of a line follow one another. -/
theorem Cut.apart (h : Cut separators n input pieces) :
    pieces.Pairwise fun p q => p.start + p.codes.length ≤ q.start := by
  induction h with
  | nil => exact .nil
  | space _ ih => exact ih
  | separator _ _ hcut ih => exact .cons (fun q hq => (hcut.piece hq).1) ih
  | word _ _ _ hcut ih => exact .cons (fun q hq => (hcut.piece hq).1) ih

/-- Pieces that share a code are the same. -/
theorem eq_of_apart {q : Piece} {k : Nat}
    (h : pieces.Pairwise fun p q => p.start + p.codes.length ≤ q.start) (hp : p ∈ pieces)
    (hq : q ∈ pieces) (hpk : p.start ≤ k ∧ k < p.start + p.codes.length)
    (hqk : q.start ≤ k ∧ k < q.start + q.codes.length) : p = q := by
  induction h with
  | nil => cases hp
  | cons hfirst _ ih =>
    rcases List.mem_cons.1 hp with rfl | hp'
    · rcases List.mem_cons.1 hq with rfl | hq'
      · rfl
      · have := hfirst q hq'
        omega
    · rcases List.mem_cons.1 hq with rfl | hq'
      · have := hfirst p hp'
        omega
      · exact ih hp' hq'

/-- Every code that is no space belongs to a piece. -/
theorem Cut.exists_piece {k : Nat} (h : Cut separators n input pieces) (hk : input[k]? = some b)
    (hb : b ≠ 32) : ∃ p ∈ pieces, p.start ≤ n + k ∧ n + k < p.start + p.codes.length := by
  induction h generalizing k with
  | nil => cases hk
  | @space n input pieces _ ih =>
    cases k with
    | zero =>
      cases hk
      exact absurd rfl hb
    | succ k =>
      obtain ⟨p, hp, hstart, hstop⟩ := ih hk
      exact ⟨p, hp, by omega, by omega⟩
  | @separator n c input pieces _ _ _ ih =>
    cases k with
    | zero => exact ⟨_, List.mem_cons_self .., Nat.le_refl _, Nat.lt_succ_self _⟩
    | succ k =>
      obtain ⟨p, hp, hstart, hstop⟩ := ih hk
      exact ⟨p, List.mem_cons_of_mem _ hp, by omega, by omega⟩
  | @word n codes input pieces _ _ _ _ ih =>
    by_cases hin : k < codes.length
    · exact ⟨_, List.mem_cons_self .., Nat.le_add_right .., by dsimp only; omega⟩
    · rw [List.getElem?_append_right (by omega)] at hk
      obtain ⟨p, hp, hstart, hstop⟩ := ih hk
      exact ⟨p, List.mem_cons_of_mem _ hp, by omega, by omega⟩

/-! ## Tokens -/

theorem Piece.token_separator (start : Nat) (hb : b ∈ separators) :
    Piece.token separators ⟨start, [b]⟩ = ⟨Utf8.encode [Char.ofNat b.toNat], start⟩ := by
  have hp : Piece.Separates separators ⟨start, [b]⟩ := ⟨b, List.mem_singleton.2 rfl, hb⟩
  rw [token, bytes, if_pos hp, List.map_singleton]

theorem Piece.token_word (start : Nat) (hplain : ∀ b ∈ codes, ¬ Breaks separators b) :
    Piece.token separators ⟨start, codes⟩ = ⟨codes, start⟩ := by
  have hp : ¬ Piece.Separates separators ⟨start, codes⟩ :=
    fun ⟨b, hb, hmem⟩ => hplain b hb (.inr hmem)
  rw [token, bytes, if_neg hp]

/-- Byte number `k` of the line belongs to the token.  A separator is one byte of the line, whatever
text it has, and a word is as many as it has itself. -/
def Token.Covers (separators input : List UInt8) (t : Token) (k : Nat) : Prop :=
  t.start ≤ k ∧ k < t.start + if ∃ b ∈ input[t.start]?, b ∈ separators then 1 else t.word.length

/-- A token covers the codes of its piece. -/
theorem Stands.covers_iff {k : Nat} (h : Stands separators 0 input p) :
    (p.token separators).Covers separators input k ↔ p.start ≤ k ∧ k < p.start + p.codes.length := by
  obtain ⟨start, codes⟩ := p
  obtain ⟨front, back, rfl, hstart, hpiece⟩ := h
  dsimp only at hstart hpiece ⊢
  have hat : (front ++ (codes ++ back))[start]? = (codes ++ back).head? := by
    rw [hstart, Nat.zero_add, List.getElem?_append_right (Nat.le_refl _), Nat.sub_self,
      List.head?_eq_getElem?]
  cases hpiece with
  | @separator b _ _ hmem =>
    rw [Piece.token_separator _ hmem, Token.Covers, hat, if_pos ⟨b, rfl, hmem⟩]
    rfl
  | word hrun =>
    have hnot : ¬ ∃ b ∈ (front ++ (codes ++ back))[start]?, b ∈ separators := by
      rintro ⟨b, hb, hmem⟩
      rw [hat, List.head?_append_of_ne_nil _ hrun.nonempty] at hb
      exact hrun.plain b (List.mem_of_mem_head? hb) (.inr hmem)
    rw [Piece.token_word _ hrun.plain, Token.Covers, if_neg hnot]

/-- A token is empty for no piece. -/
theorem Stands.word_ne_nil (h : Stands separators n input p) : (p.token separators).word ≠ [] := by
  obtain ⟨start, codes⟩ := p
  obtain ⟨front, back, -, -, hpiece⟩ := h
  dsimp only at hpiece
  cases hpiece with
  | @separator b _ _ hb =>
    rw [Piece.token_separator _ hb]
    refine List.length_pos_iff.1 ?_
    rw [(Utf8.encode_byte b).1]
    split <;> decide
  | word hrun =>
    rw [Piece.token_word _ hrun.plain]
    exact hrun.nonempty

/-- The tokens of the pieces that stand in a line are the separators and the words. -/
theorem exists_stands_iff {t : Token} :
    (∃ p, Stands separators 0 input p ∧ p.token separators = t) ↔
      (∃ front b back, input = front ++ b :: back ∧ b ≠ 32 ∧ b ∈ separators ∧
        t = ⟨Utf8.encode [Char.ofNat b.toNat], front.length⟩) ∨
      ∃ front run back, input = front ++ run ++ back ∧ IsRun separators front run back ∧
        t = ⟨run, front.length⟩ := by
  constructor
  · rintro ⟨⟨start, codes⟩, ⟨front, back, hinput, hstart, hpiece⟩, rfl⟩
    dsimp only at hinput hstart hpiece
    rw [Nat.zero_add] at hstart
    subst hstart
    cases hpiece with
    | @separator b _ hspace hb =>
      exact .inl ⟨front, b, back, hinput, hspace, hb, Piece.token_separator _ hb⟩
    | word hrun =>
      rw [← List.append_assoc] at hinput
      exact .inr ⟨front, codes, back, hinput, hrun, Piece.token_word _ hrun.plain⟩
  · rintro (⟨front, b, back, hinput, hspace, hb, rfl⟩ | ⟨front, run, back, hinput, hrun, rfl⟩)
    · exact ⟨⟨front.length, [b]⟩, ⟨front, back, hinput, (Nat.zero_add _).symm, .separator hspace hb⟩,
        Piece.token_separator _ hb⟩
    · rw [List.append_assoc] at hinput
      exact ⟨⟨front.length, run⟩, ⟨front, back, hinput, (Nat.zero_add _).symm, .word hrun⟩,
        Piece.token_word _ hrun.plain⟩

/-- **Cutting a line into tokens loses and invents nothing.**  The tokens stand in the order of their
starts.  They are the separators that are no spaces, each with the text of its character, and the words,
each with its bytes: the runs of bytes that are neither spaces nor separators, as long as they can be.
Every byte but the spaces belongs to exactly one token, and no token is empty. -/
theorem Dictionary.split_tokens (d : Dictionary) (input : List UInt8) :
    ((d.split input).Pairwise fun t u => t.start < u.start) ∧
    (∀ t, t ∈ d.split input ↔
      (∃ front b back, input = front ++ b :: back ∧ b ≠ 32 ∧ b ∈ d.separators ∧
        t = ⟨Utf8.encode [Char.ofNat b.toNat], front.length⟩) ∨
      ∃ front run back, input = front ++ run ++ back ∧ IsRun d.separators front run back ∧
        t = ⟨run, front.length⟩) ∧
    (∀ k b, input[k]? = some b → b ≠ 32 →
      ∃! t, t ∈ d.split input ∧ t.Covers d.separators input k) ∧
    ∀ t ∈ d.split input, t.word ≠ [] := by
  obtain ⟨pieces, hcut, hsplit⟩ := d.cut_split input
  have hmem (t : Token) : t ∈ d.split input ↔
      ∃ p, Stands d.separators 0 input p ∧ p.token d.separators = t := by
    rw [hsplit, List.mem_map]
    exact exists_congr fun p => and_congr_left fun _ => hcut.mem_iff
  refine ⟨?_, fun t => (hmem t).trans exists_stands_iff, ?_, ?_⟩
  · rw [hsplit, List.pairwise_map]
    refine hcut.apart.imp_of_mem fun {p q} hp _ hpq => Nat.lt_of_lt_of_le ?_ hpq
    obtain ⟨_, _, _, _, hpiece⟩ := hcut.mem_iff.1 hp
    exact Nat.lt_add_of_pos_right (List.length_pos_iff.2 hpiece.ne_nil)
  · intro k b hk hb
    obtain ⟨p, hp, hpk⟩ := hcut.exists_piece hk hb
    rw [Nat.zero_add] at hpk
    have hstands := hcut.mem_iff.1 hp
    refine ⟨p.token d.separators, ⟨(hmem _).2 ⟨p, hstands, rfl⟩, hstands.covers_iff.2 hpk⟩, ?_⟩
    rintro _ ⟨ht, hcovers⟩
    obtain ⟨q, hq, rfl⟩ := (hmem _).1 ht
    rw [eq_of_apart hcut.apart (hcut.mem_iff.2 hq) hp (hq.covers_iff.1 hcovers) hpk]
  · intro t ht
    obtain ⟨p, hp, rfl⟩ := (hmem t).1 ht
    exact hp.word_ne_nil

/-- A space among the separators, a word up to a separator outside ASCII, and one at the end. -/
example :
    (Dictionary.mk [32, 0x2C, 0x9B] 7 0 #[]).split [97, 98, 0x9B, 32, 32, 0x2C, 0x2C, 99] =
      [⟨[97, 98], 0⟩, ⟨[0xC2, 0x9B], 2⟩, ⟨[0x2C], 5⟩, ⟨[0x2C], 6⟩, ⟨[99], 7⟩] := by decide +kernel

end ZCode
