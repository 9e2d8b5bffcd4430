/-
  Reading written JSON.

  * `Settles chars tokens` says that scanning `chars` between tokens ends behind exactly these tokens.
    It composes over the punctuation between parts.
  * `Reads d tokens v` says that the tokens are those of the value `v`, which is nested `d` deep.
  * `Readable d v` joins the two for the written form of a value.  It holds of null, of numbers and
    texts, and of arrays and objects of readable values, and a readable value is read back from its
    written form (`parse?_render`).
-/
import ZCode.Json.Parse

namespace ZCode.Json

/-! ## Scanning -/

/-- The scan stands behind the tokens `acc`, the last one first; a word or a number may be waiting
for its end. -/
inductive Scan.Behind : Scan → List Token → Prop
  | between {acc : List Token} : Scan.Behind ⟨acc, .between⟩ acc
  | bare {acc : List Token} {chars : List Char} {t : Token} : bareToken? chars.reverse = some t →
      Scan.Behind ⟨acc, .bare chars⟩ (t :: acc)

theorem Scan.Behind.finish {s : Scan} {acc : List Token} (h : s.Behind acc) :
    s.finish = some acc.reverse := by
  cases h with
  | between => rfl
  | bare ht => simp [Scan.finish, ht]

theorem Scan.Behind.step {s : Scan} {acc : List Token} (h : s.Behind acc) {c : Char}
    (hc : isBare c = false) : s.step c = startToken acc c := by
  cases h with
  | between => rfl
  | bare ht => simp [Scan.step, hc, ht]

/-- Scanning the characters between tokens ends behind exactly these tokens. -/
def Settles (chars : List Char) (tokens : List Token) : Prop :=
  ∀ acc, ∃ s, chars.foldlM Scan.step ⟨acc, .between⟩ = some s ∧ s.Behind (tokens.reverse ++ acc)

theorem settles_nil : Settles [] [] := fun _ => ⟨_, rfl, .between⟩

theorem punctuation_start {c : Char} {t : Token} (h : punctuation? c = some t) :
    isBare c = false ∧ ∀ acc, startToken acc c = some ⟨t :: acc, .between⟩ := by
  unfold punctuation? at h
  repeat' split at h
  all_goals first
    | (subst_vars; cases h; exact ⟨by decide, fun acc => rfl⟩)
    | cases h

/-- Two parts with a punctuation sign between them. -/
theorem Settles.punctuated {a b : List Char} {ts us : List Token} (ha : Settles a ts) {c : Char}
    {t : Token} (hc : punctuation? c = some t) (hb : Settles b us) :
    Settles (a ++ c :: b) (ts ++ t :: us) := by
  intro acc
  obtain ⟨hbare, hstart⟩ := punctuation_start hc
  obtain ⟨s, hs, hbehind⟩ := ha acc
  obtain ⟨s', hs', hbehind'⟩ := hb (t :: (ts.reverse ++ acc))
  refine ⟨s', ?_, by simpa using hbehind'⟩
  rw [List.foldlM_append, hs]
  simp only [Option.bind_eq_bind, Option.bind_some, List.foldlM_cons]
  rw [hbehind.step hbare, hstart]
  exact hs'

/-! ## Texts -/

/-- The digits of an escaped character, which is below 32 or one of five others. -/
theorem hexLower_values {n : Nat} (h : n < 0x20 ∨ n = 0x3C ∨ n = 0x3E ∨ n = 0x26 ∨ n = 0x2028 ∨
    n = 0x2029) : (hexLower n 4).toList.map hexValue? =
      [some (n / 4096), some (n / 256 % 16), some (n / 16 % 16), some (n % 16)] := by
  rcases h with h | rfl | rfl | rfl | rfl | rfl
  · have all : ∀ k < 0x20, (hexLower k 4).toList.map hexValue? =
        [some (k / 4096), some (k / 256 % 16), some (k / 16 % 16), some (k % 16)] := by
      decide +kernel
    exact all n h
  all_goals decide +kernel

/-- Four digits make a unit. -/
theorem scan_unit {w x y z : Nat} {chars : List Char}
    (h : chars.map hexValue? = [some w, some x, some y, some z]) (tokens : List Token)
    (content : Content) :
    chars.foldlM Scan.step ⟨tokens, .unit content 3 0⟩ =
      some ⟨tokens, .inside (content.addUnit (((w * 16 + x) * 16 + y) * 16 + z))⟩ := by
  obtain ⟨a, r₁, rfl, ha, h⟩ := List.map_eq_cons_iff.1 h
  obtain ⟨b, r₂, rfl, hb, h⟩ := List.map_eq_cons_iff.1 h
  obtain ⟨c, r₃, rfl, hc, h⟩ := List.map_eq_cons_iff.1 h
  obtain ⟨d, r₄, rfl, hd, h⟩ := List.map_eq_cons_iff.1 h
  obtain rfl := List.map_eq_nil_iff.1 h
  simp [Scan.step, ha, hb, hc, hd]

theorem scan_escaped_unit {c : Char} (h : c.toNat < 0x20 ∨ c = '<' ∨ c = '>' ∨ c = '&' ∨
    c.toNat = 0x2028 ∨ c.toNat = 0x2029) (tokens : List Token) (content : Content) :
    ('\\' :: 'u' :: (hexLower c.toNat 4).toList).foldlM Scan.step ⟨tokens, .inside content⟩ =
      some ⟨tokens, .inside (content.addChar c)⟩ := by
  have hn : c.toNat < 0x20 ∨ c.toNat = 0x3C ∨ c.toNat = 0x3E ∨ c.toNat = 0x26 ∨
      c.toNat = 0x2028 ∨ c.toNat = 0x2029 := by
    rcases h with h | rfl | rfl | rfl | h | h
    · exact .inl h
    all_goals simp_all
  have hunit : content.addUnit c.toNat = content.addChar c := by
    have hhigh : isHighSurrogate c.toNat = false := by simp [isHighSurrogate]; omega
    have hlow : isLowSurrogate c.toNat = false := by simp [isLowSurrogate]; omega
    simp [Content.addUnit, hhigh, hlow, Char.ofNat_toNat]
  have hslash : Scan.step ⟨tokens, .inside content⟩ '\\' = some ⟨tokens, .escaped content⟩ := rfl
  have hu : Scan.step ⟨tokens, .escaped content⟩ 'u' = some ⟨tokens, .unit content 3 0⟩ := rfl
  simp only [List.foldlM_cons, hslash, hu, Option.bind_eq_bind, Option.bind_some]
  rw [scan_unit (hexLower_values hn), ← hunit]
  congr 4
  omega

/-- A written character is read as itself. -/
theorem scan_escape (c : Char) (tokens : List Token) (content : Content) :
    (escape c).foldlM Scan.step ⟨tokens, .inside content⟩ =
      some ⟨tokens, .inside (content.addChar c)⟩ := by
  have hc := Char.ofNat_toNat c
  unfold escape
  split
  · subst_vars; rfl
  split
  · subst_vars; rfl
  split
  · rename_i h; rw [h] at hc; subst hc; rfl
  · rename_i h; rw [h] at hc; subst hc; rfl
  · rename_i h; rw [h] at hc; subst hc; rfl
  · rename_i h; rw [h] at hc; subst hc; rfl
  · rename_i h; rw [h] at hc; subst hc; rfl
  · split
    · exact scan_escaped_unit ‹_› tokens content
    · rename_i hquote hback _ _ _ _ _ _ h
      have : ¬ c.toNat < 0x20 := fun hlt => h (.inl hlt)
      simp [Scan.step, hquote, hback, this]

theorem scan_content (chars : List Char) (tokens : List Token) (content : Content) :
    ∃ content', (chars.flatMap escape).foldlM Scan.step ⟨tokens, .inside content⟩ =
      some ⟨tokens, .inside content'⟩ ∧ content'.chars = chars.reverse ++ content.chars := by
  induction chars generalizing content with
  | nil => exact ⟨content, rfl, rfl⟩
  | cons c chars ih =>
    obtain ⟨content', hscan, hchars⟩ := ih (content.addChar c)
    refine ⟨content', ?_, by simp [hchars, Content.addChar]⟩
    rw [List.flatMap_cons, List.foldlM_append, scan_escape]
    exact hscan

theorem settles_text (chars : List Char) : Settles (renderText chars) [.text chars] := by
  intro acc
  obtain ⟨content, hscan, hchars⟩ := scan_content chars acc {}
  refine ⟨⟨.text chars :: acc, .between⟩, ?_, .between⟩
  have hquote : startToken acc '"' = some ⟨acc, .inside {}⟩ := rfl
  unfold renderText
  rw [List.cons_append, List.foldlM_cons]
  show (startToken acc '"').bind _ = _
  rw [hquote, Option.bind_some, List.foldlM_append, hscan]
  simp [Scan.step, hchars]

/-! ## Words and numbers -/

theorem scan_bare {chars : List Char} (h : ∀ c ∈ chars, isBare c = true) (tokens : List Token)
    (seen : List Char) : chars.foldlM Scan.step ⟨tokens, .bare seen⟩ =
      some ⟨tokens, .bare (chars.reverse ++ seen)⟩ := by
  induction chars generalizing seen with
  | nil => rfl
  | cons c chars ih =>
    obtain ⟨hc, hchars⟩ := List.forall_mem_cons.1 h
    have hstep : Scan.step ⟨tokens, .bare seen⟩ c = some ⟨tokens, .bare (c :: seen)⟩ := by
      simp [Scan.step, hc]
    rw [List.foldlM_cons, hstep]
    simpa using ih hchars (c :: seen)

theorem startToken_bare {c : Char} (h : isBare c = true) (tokens : List Token) :
    startToken tokens c = some ⟨tokens, .bare [c]⟩ := by
  have hblank : isBlank c = false := by
    rw [Bool.eq_false_iff]
    intro hb
    simp only [isBlank, Bool.or_eq_true, beq_iff_eq] at hb
    rcases hb with ((rfl | rfl) | rfl) | rfl <;> exact absurd h (by decide)
  have hquote : c ≠ '"' := by
    rintro rfl
    exact absurd h (by decide)
  simp [startToken, hblank, hquote, h]

theorem settles_bare {chars : List Char} {t : Token} (hne : chars ≠ [])
    (hbare : ∀ c ∈ chars, isBare c = true) (ht : bareToken? chars = some t) :
    Settles chars [t] := by
  intro acc
  obtain ⟨c, rest, rfl⟩ := List.exists_cons_of_ne_nil hne
  obtain ⟨hc, hrest⟩ := List.forall_mem_cons.1 hbare
  refine ⟨⟨acc, .bare (rest.reverse ++ [c])⟩, ?_, .bare (by simpa using ht)⟩
  have hstep : Scan.step ⟨acc, .between⟩ c = some ⟨acc, .bare [c]⟩ := startToken_bare hc acc
  rw [List.foldlM_cons, hstep]
  exact scan_bare hrest acc [c]

theorem settles_null : Settles Json.null.render [.null] :=
  settles_bare (by decide) (List.all_eq_true.1 (by decide)) (by decide)

theorem settles_number {literal : List Char} (h : isNumber literal = true)
    (hbare : ∀ c ∈ literal, isBare c = true) : Settles literal [.number literal] := by
  have hne : ∀ word, isNumber word = false → literal ≠ word := by
    rintro word hw rfl
    exact absurd (h.symm.trans hw) (by decide)
  refine settles_bare (hne [] (by decide)) hbare ?_
  rw [bareToken?, if_neg (hne _ (by decide)), if_neg (hne _ (by decide)),
    if_neg (hne _ (by decide)), if_pos h]

/-! ## Following the tokens -/

/-- The tokens are those of the value, which is nested at most `d` deep. -/
def Reads (d : Nat) (tokens : List Token) (v : Json) : Prop :=
  ∀ slots, slots.length + d ≤ maxDepth →
    tokens.foldlM Parse.step (.value slots) = some (.after v slots)

/-- The written form of the value can be scanned, and its tokens are those of the value. -/
def Readable (d : Nat) (v : Json) : Prop := ∃ tokens, Settles v.render tokens ∧ Reads d tokens v

theorem readable_null : Readable 0 .null := ⟨_, settles_null, fun _ _ => rfl⟩

theorem readable_text (chars : List Char) : Readable 0 (.text chars) :=
  ⟨_, settles_text chars, fun _ _ => rfl⟩

theorem readable_number {literal : List Char} (h : isNumber literal = true)
    (hbare : ∀ c ∈ literal, isBare c = true) : Readable 0 (.number literal) :=
  ⟨_, settles_number h hbare, fun _ _ => rfl⟩

theorem Readable.mono {d e : Nat} {v : Json} (h : Readable d v) (hde : d ≤ e) : Readable e v := by
  obtain ⟨tokens, hscan, hread⟩ := h
  exact ⟨tokens, hscan, fun slots hs => hread slots (by omega)⟩

/-! ## Arrays -/

/-- A value that is an item of an array is no end of the array. -/
theorem firstItem_of_value {slots : List Slot} {tokens : List Token} {v : Json}
    {slots' : List Slot}
    (h : tokens.foldlM Parse.step (.value (.item [] :: slots)) = some (.after v slots')) :
    tokens.foldlM Parse.step (.firstItem slots) = some (.after v slots') := by
  cases tokens with
  | nil => cases h
  | cons t tokens => cases t <;> first | exact h | cases h

/-- The items of an array up to its end. -/
theorem items_readable {d : Nat} {item : Json} {items : List Json}
    (h : ∀ v ∈ item :: items, Readable d v) :
    ∃ tokens, Settles (renderItems (item :: items)) tokens ∧
      ∀ before (slots : List Slot), slots.length + 1 + d ≤ maxDepth →
        (tokens ++ [Token.rightBracket]).foldlM Parse.step (.value (.item before :: slots)) =
          some (.after (.array (before.reverse ++ item :: items)) slots) := by
  induction items generalizing item with
  | nil =>
    obtain ⟨tokens, hscan, hread⟩ := h item (by simp)
    refine ⟨tokens, hscan, fun before slots hd => ?_⟩
    rw [List.foldlM_append, hread _ (by simpa using hd)]
    simp [Parse.step]
  | cons item' items ih =>
    obtain ⟨tokens, hscan, hread⟩ := h item (by simp)
    obtain ⟨tokens', hscan', hread'⟩ := ih (List.forall_mem_cons.1 h).2
    refine ⟨tokens ++ .comma :: tokens', hscan.punctuated (c := ',') rfl hscan',
      fun before slots hd => ?_⟩
    rw [List.append_assoc, List.foldlM_append, hread _ (by simpa using hd)]
    refine (hread' (item :: before) slots hd).trans ?_
    simp

theorem readable_array {d : Nat} {items : List Json} (h : ∀ v ∈ items, Readable d v) :
    Readable (d + 1) (.array items) := by
  cases items with
  | nil =>
    refine ⟨[.leftBracket, .rightBracket], fun acc => ⟨_, rfl, .between⟩, fun slots hd => ?_⟩
    have hlt : slots.length < maxDepth := by omega
    simp [Parse.step, Parse.startValue, hlt]
  | cons item items =>
    obtain ⟨tokens, hscan, hread⟩ := items_readable h
    refine ⟨.leftBracket :: (tokens ++ [.rightBracket]), ?_, fun slots hd => ?_⟩
    · exact settles_nil.punctuated (c := '[') rfl (hscan.punctuated (c := ']') rfl settles_nil)
    · have hlt : slots.length < maxDepth := by omega
      have hopen : Parse.step (.value slots) .leftBracket = some (.firstItem slots) := if_pos hlt
      rw [List.foldlM_cons, hopen]
      exact firstItem_of_value (hread [] slots (by omega))

/-! ## Objects -/

/-- The fields of an object behind the first key, up to its end. -/
theorem fields_readable {d : Nat} {field : List Char × Json} {fields : List (List Char × Json)}
    (h : ∀ f ∈ field :: fields, Readable d f.2) :
    ∃ tokens, Settles (renderFields (field :: fields)) (.text field.1 :: tokens) ∧
      ∀ before (slots : List Slot), slots.length + 1 + d ≤ maxDepth →
        (tokens ++ [Token.rightBrace]).foldlM Parse.step (.colon before field.1 slots) =
          some (.after (.object (before.reverse ++ field :: fields)) slots) := by
  induction fields generalizing field with
  | nil =>
    obtain ⟨key, value⟩ := field
    obtain ⟨tokens, hscan, hread⟩ := h (key, value) (by simp)
    refine ⟨.colon :: tokens, (settles_text key).punctuated (c := ':') rfl hscan,
      fun before slots hd => ?_⟩
    show (tokens ++ _).foldlM Parse.step (.value (.field before key :: slots)) = _
    rw [List.foldlM_append, hread _ (by simpa using hd)]
    simp [Parse.step]
  | cons field' fields ih =>
    obtain ⟨key, value⟩ := field
    obtain ⟨tokens, hscan, hread⟩ := h (key, value) (by simp)
    obtain ⟨tokens', hscan', hread'⟩ := ih (List.forall_mem_cons.1 h).2
    refine ⟨.colon :: (tokens ++ .comma :: .text field'.1 :: tokens'), ?_, fun before slots hd => ?_⟩
    · have := (settles_text key).punctuated (c := ':') rfl
        (hscan.punctuated (c := ',') rfl hscan')
      simpa [renderFields] using this
    · rw [List.cons_append, List.append_assoc]
      show (tokens ++ _).foldlM Parse.step (.value (.field before key :: slots)) = _
      rw [List.foldlM_append, hread _ (by simpa using hd)]
      refine (hread' ((key, value) :: before) slots hd).trans ?_
      simp

theorem readable_object {d : Nat} {fields : List (List Char × Json)}
    (h : ∀ f ∈ fields, Readable d f.2) : Readable (d + 1) (.object fields) := by
  cases fields with
  | nil =>
    refine ⟨[.leftBrace, .rightBrace], fun acc => ⟨_, rfl, .between⟩, fun slots hd => ?_⟩
    have hlt : slots.length < maxDepth := by omega
    simp [Parse.step, Parse.startValue, hlt]
  | cons field fields =>
    obtain ⟨tokens, hscan, hread⟩ := fields_readable h
    refine ⟨.leftBrace :: .text field.1 :: (tokens ++ [.rightBrace]), ?_, fun slots hd => ?_⟩
    · exact settles_nil.punctuated (c := '{') rfl (hscan.punctuated (c := '}') rfl settles_nil)
    · have hlt : slots.length < maxDepth := by omega
      have hopen : Parse.step (.value slots) .leftBrace = some (.firstKey slots) := if_pos hlt
      rw [List.foldlM_cons, hopen]
      exact hread [] slots (by omega)

/-- **A readable value is read back from its written form.** -/
theorem parse?_render {d : Nat} {v : Json} (h : Readable d v) (hd : d ≤ maxDepth) :
    parse? v.render = some v := by
  obtain ⟨tokens, hscan, hread⟩ := h
  obtain ⟨s, hs, hbehind⟩ := hscan []
  have htokens : tokens? v.render = some tokens := by
    show (v.render.foldlM Scan.step ⟨[], .between⟩).bind Scan.finish = _
    rw [hs, Option.bind_some, hbehind.finish]
    simp
  have hvalue : ofTokens? tokens = some v := by
    unfold ofTokens?
    rw [hread [] (by simpa using hd)]
    rfl
  show (tokens? v.render).bind ofTokens? = _
  rw [htokens, Option.bind_some, hvalue]

end ZCode.Json
